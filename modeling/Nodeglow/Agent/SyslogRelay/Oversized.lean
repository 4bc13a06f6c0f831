import Nodeglow.Agent.SyslogRelay.Framer

/-!
# Oversized messages

In non-transparent framing, a message above the limit is discarded and counted. Where its terminator
is in sight, it is skipped whole. Where a chunk ends within it, the framer discards what it holds
and forgets that the message goes on: what comes next, up to the terminator, is handed out as a
message of its own, or counted again (`not_skipsOversized_sample`). A carriage return before a
terminator that is in the next chunk counts towards the limit, too.

So the messages of a stream are those between its terminators, however it is cut into chunks, as
long as no chunk ends with more than the limit within a message, unless the terminator alone is
missing from an oversized message (`skipsOversized`).

Source: `agent/src/syslog_relay.rs`, lines 208–268.
-/

namespace Nodeglow.SyslogRelay.Framer

/-! ### The messages of a stream -/

/-- The messages that are terminated. -/
def complete (stream : List UInt8) : List (List UInt8) := (stream.splitOnP isTerminator).dropLast

/-- The bytes after the last terminator. -/
def pending (stream : List UInt8) : List UInt8 := (stream.splitOnP isTerminator).getLastD []

/-- The bytes before the first terminator. -/
def ending (stream : List UInt8) : List UInt8 := stream.takeWhile fun c => !isTerminator c

/-- A message without a carriage return at its end. -/
def withoutCr (m : List UInt8) : List UInt8 := if m.getLast? = some 13 then m.dropLast else m

/-- A message begins with the length of a counted message. -/
def Counted (m : List UInt8) : Prop :=
  ∃ digits rest, m = digits ++ 32 :: 60 :: rest ∧ digits.length ≤ 6 ∧
    isLeadDigit (digits.getD 0 0) = true ∧ ∀ d ∈ digits, isAsciiDigit d = true

/-- All messages are framed by terminators. -/
def Terminated (stream : List UInt8) : Prop :=
  ∀ m ∈ complete stream ++ [pending stream], ¬Counted m

/-- The messages that are handed out. -/
def delivered (ms : List (List UInt8)) : List (List UInt8) :=
  (ms.map withoutCr).filter fun m => m ≠ [] ∧ m.length ≤ maxMessageBytes

/-- A message is above the limit. -/
def IsOversized (m : List UInt8) : Prop := maxMessageBytes < (withoutCr m).length

instance : DecidablePred IsOversized := fun m =>
  inferInstanceAs (Decidable (maxMessageBytes < (withoutCr m).length))

/-- The number of oversized messages. -/
def oversizedCount (ms : List (List UInt8)) : ℕ := ms.countP fun m => IsOversized m

/-- The last message, which the end of the connection terminates. -/
def lastMessage (m : List UInt8) : Option (List UInt8) :=
  if IsOversized m then none else finish ⟨m⟩

/-- **Oversized messages are skipped whole**: the messages of the stream within the limit are handed
out unchanged, and the others are counted once each. -/
def SkipsOversized (cs : List (List UInt8)) : Prop :=
  ∃ rs f, new.pushAll cs = .ok (rs, f) ∧
    (rs.map Prod.fst).flatten = delivered (complete cs.flatten) ∧
    (rs.map Prod.snd).sum = oversizedCount (complete cs.flatten ++ [pending cs.flatten]) ∧
    f.finish = lastMessage (pending cs.flatten)

/-- **The chunks end within messages only** where the limit is kept, or where nothing but the
terminator is missing from an oversized message. -/
def CutWithin (buf : List UInt8) (cs : List (List UInt8)) : Prop :=
  ∀ xs ys, cs = xs ++ ys → xs ≠ [] →
    (pending (buf ++ xs.flatten)).length ≤ maxMessageBytes ∨
      (ending ys.flatten = [] ∨ ending ys.flatten = [13]) ∧
        IsOversized (pending (buf ++ xs.flatten) ++ ending ys.flatten)

variable {m m' s b t : List UInt8} {c : UInt8} {cs : List (List UInt8)}

theorem complete_of_forall (h : ∀ x ∈ m, isTerminator x = false) : complete m = [] := by
  rw [complete, List.splitOnP_eq_singleton h]
  rfl

theorem pending_of_forall (h : ∀ x ∈ m, isTerminator x = false) : pending m = m := by
  rw [pending, List.splitOnP_eq_singleton h]
  rfl

theorem complete_append_cons (h : ∀ x ∈ m, isTerminator x = false) (hc : isTerminator c = true) :
    complete (m ++ c :: s) = m :: complete s := by
  rw [complete, List.splitOnP_append_cons_of_forall_mem h c hc,
    List.dropLast_cons_of_ne_nil (List.splitOnP_ne_nil _ _), complete]

theorem pending_append_cons (h : ∀ x ∈ m, isTerminator x = false) (hc : isTerminator c = true) :
    pending (m ++ c :: s) = pending s := by
  rw [pending, List.splitOnP_append_cons_of_forall_mem h c hc, pending,
    List.getLastD_cons]
  obtain ⟨x, xs, hx⟩ := List.exists_cons_of_ne_nil (List.splitOnP_ne_nil isTerminator s)
  rw [hx, List.getLastD_cons, List.getLastD_cons]

theorem ending_append_cons (h : ∀ x ∈ m, isTerminator x = false) (hc : isTerminator c = true) :
    ending (m ++ c :: s) = m := by
  rw [ending, List.takeWhile_append_of_pos (by simpa using h),
    List.takeWhile_cons_of_neg (by simp [hc]),
    List.append_nil]

theorem ending_of_forall (h : ∀ x ∈ m, isTerminator x = false) : ending m = m :=
  List.takeWhile_eq_self_iff.mpr (by simpa using h)

/-- A stream is a message that is not terminated, or begins with one that is. -/
theorem terminated_cases (s : List UInt8) : (∀ x ∈ s, isTerminator x = false) ∨
    ∃ m c s', s = m ++ c :: s' ∧ (∀ x ∈ m, isTerminator x = false) ∧ isTerminator c = true := by
  induction s with
  | nil => exact .inl nofun
  | cons x s ih =>
    by_cases hx : isTerminator x = true
    · exact .inr ⟨[], x, s, rfl, nofun, hx⟩
    · have hx : isTerminator x = false := Bool.eq_false_iff.mpr hx
      rcases ih with h | ⟨m, c, s', rfl, hm, hc⟩
      · exact .inl (List.forall_mem_cons.mpr ⟨hx, h⟩)
      · exact .inr ⟨x :: m, c, s', rfl, List.forall_mem_cons.mpr ⟨hx, hm⟩, hc⟩

/-- Induction on the messages of a stream. -/
theorem messages_induction {motive : List UInt8 → Prop} (s : List UInt8)
    (last : ∀ m, (∀ x ∈ m, isTerminator x = false) → motive m)
    (step : ∀ m c s, (∀ x ∈ m, isTerminator x = false) → isTerminator c = true → motive s →
      motive (m ++ c :: s)) : motive s := by
  induction hn : s.length using Nat.strong_induction_on generalizing s with
  | _ n ih =>
    rcases terminated_cases s with h | ⟨m, c, s', rfl, hm, hc⟩
    · exact last s h
    · exact step m c s' hm hc (ih s'.length (by simp at hn; omega) s' rfl)

theorem forall_pending (s : List UInt8) : ∀ x ∈ pending s, isTerminator x = false := by
  induction s using messages_induction with
  | last m h => rwa [pending_of_forall h]
  | step m c s h hc ih => rwa [pending_append_cons h hc]

/-- More bytes go on with what is pending. -/
theorem complete_append (s t : List UInt8) :
    complete (s ++ t) = complete s ++ complete (pending s ++ t) := by
  induction s using messages_induction with
  | last m h => rw [complete_of_forall h, pending_of_forall h, List.nil_append]
  | step m c s h hc ih =>
    rw [List.append_assoc, List.cons_append, complete_append_cons h hc, ih,
      complete_append_cons h hc, pending_append_cons h hc, List.cons_append]

theorem pending_append (s t : List UInt8) : pending (s ++ t) = pending (pending s ++ t) := by
  induction s using messages_induction with
  | last m h => rw [pending_of_forall h]
  | step m c s h hc ih =>
    rw [List.append_assoc, List.cons_append, pending_append_cons h hc, ih,
      pending_append_cons h hc]

/-! ### A buffer without counted messages -/

theorem isTerminator_of_isAsciiDigit (h : isAsciiDigit c = true) : isTerminator c = false := by
  by_contra hc
  simp only [isTerminator, Bool.not_eq_false, Bool.or_eq_true, beq_iff_eq] at hc
  rcases hc with rfl | rfl <;> exact absurd h (by decide)

theorem Counted.of_append (hc : isTerminator c = true) (h : Counted (m ++ c :: s)) : Counted m := by
  obtain ⟨digits, rest, heq, hlen, hlead, hdigits⟩ := h
  have hno : c ∉ digits ++ [32, 60] := by
    intro hmem
    rcases List.mem_append.mp hmem with hmem | hmem
    · exact absurd hc (by simp [isTerminator_of_isAsciiDigit (hdigits c hmem)])
    · simp only [List.mem_cons, List.not_mem_nil, or_false] at hmem
      rcases hmem with rfl | rfl <;> exact absurd hc (by decide)
  have hsplit : m ++ c :: s = (digits ++ [32, 60]) ++ rest := by simpa using heq
  rcases List.append_eq_append_iff.mp hsplit with ⟨q, hq, hrest⟩ | ⟨q, rfl, -⟩
  · cases q with
    | nil =>
      rw [List.append_nil] at hq
      exact ⟨digits, [], by rw [← hq], hlen, hlead, hdigits⟩
    | cons x q =>
      obtain ⟨rfl, -⟩ := List.cons.inj hrest
      exact absurd (hq ▸ List.mem_append_right m List.mem_cons_self) hno
  · exact ⟨digits, q, by simp, hlen, hlead, hdigits⟩

/-- What is not counted is text, or too short to tell. -/
theorem octetCounted_of_not_counted (h : ¬Counted b) :
    octetCounted b = .ok .notOctetCounted ∨
      octetCounted b = .ok .needMore ∧ b.length ≤ 7 ∧ ∀ x ∈ b, isTerminator x = false := by
  rw [octetCounted]
  by_cases hlead : (!isLeadDigit (b.getD 0 0)) = true
  · exact .inl (if_pos hlead)
  rw [if_neg hlead]
  have hdigits : ∀ d ∈ (b.take 7).takeWhile isAsciiDigit, isAsciiDigit d = true := fun d hd =>
    List.mem_takeWhile_imp hd
  obtain ⟨rest, hrest⟩ := (List.takeWhile_prefix isAsciiDigit).trans (List.take_prefix 7 b)
  generalize (b.take 7).takeWhile isAsciiDigit = digits at *
  have htext : ∀ x ∈ digits, isTerminator x = false := fun x hx =>
    isTerminator_of_isAsciiDigit (hdigits x hx)
  subst hrest
  have hgetD : ∀ k, (digits ++ rest).getD (digits.length + k) 0 = rest.getD k 0 := fun k => by
    rw [List.getD_eq_getElem?_getD, List.getElem?_append_right (Nat.le_add_right _ _),
      Nat.add_sub_cancel_left, List.getD_eq_getElem?_getD]
  by_cases hall : digits.length = (digits ++ rest).length
  · -- digits alone
    rw [if_pos hall]
    obtain rfl : rest = [] := List.eq_nil_of_length_eq_zero (by rw [List.length_append] at hall; omega)
    rw [List.append_nil]
    by_cases hshort : digits.length < 7
    · exact .inr ⟨by rw [if_pos hshort], by omega, htext⟩
    · exact .inl (by rw [if_neg hshort])
  rw [if_neg hall]
  by_cases hnot : (digits ++ rest).getD digits.length 0 ≠ 32 ∨ 6 < digits.length
  · exact .inl (if_pos hnot)
  rw [if_neg hnot]
  rw [not_or, not_not, not_lt, show digits.length = digits.length + 0 from rfl, hgetD] at hnot
  -- digits and a blank
  cases rest with
  | nil => exact absurd (by rw [List.append_nil]) hall
  | cons x rest =>
    obtain ⟨hx, hlen⟩ := hnot
    obtain rfl : x = 32 := hx
    by_cases hone : (digits ++ 32 :: rest).length = digits.length + 1
    · obtain rfl : rest = [] := List.eq_nil_of_length_eq_zero (by
        rw [List.length_append, List.length_cons] at hone
        omega)
      refine .inr ⟨by rw [if_pos hone], by rw [hone]; omega, fun x hx => ?_⟩
      rcases List.mem_append.mp hx with hx | hx
      · exact htext x hx
      · exact List.mem_singleton.mp hx ▸ rfl
    rw [if_neg hone]
    by_cases hpri : (digits ++ 32 :: rest).getD (digits.length + 1) 0 ≠ 60
    · exact .inl (if_pos hpri)
    -- digits, a blank and a PRI are counted
    rw [not_not, hgetD] at hpri
    cases rest with
    | nil => exact absurd (by simp) hone
    | cons y rest =>
      obtain rfl : y = 60 := hpri
      refine absurd ⟨digits, rest, rfl, hlen, ?_, hdigits⟩ h
      have hfirst : isLeadDigit ((digits ++ 32 :: 60 :: rest).getD 0 0) = true := by simpa using hlead
      cases digits with
      | nil => exact absurd (show isLeadDigit 32 = true from hfirst) (by decide)
      | cons d digits => exact hfirst

/-! ### One chunk -/

theorem terminatedFrame_append (m t : List UInt8) :
    terminatedFrame (m ++ t) m.length = withoutCr m := by
  rw [terminatedFrame, List.take_left, withoutCr]

theorem delivered_cons_of_not {ms : List (List UInt8)} (h : withoutCr m = [] ∨ IsOversized m) :
    delivered (m :: ms) = delivered ms := by
  rw [delivered, List.map_cons, List.filter_cons_of_neg, delivered]
  rw [decide_eq_true_eq, not_and_or, not_not, not_le]
  exact h

theorem delivered_cons_of {ms : List (List UInt8)} (h : withoutCr m ≠ []) (h' : ¬IsOversized m) :
    delivered (m :: ms) = withoutCr m :: delivered ms := by
  rw [delivered, List.map_cons, List.filter_cons_of_pos, delivered]
  rw [decide_eq_true_eq]
  exact ⟨h, not_lt.mp h'⟩

theorem oversizedCount_cons_of {ms : List (List UInt8)} (h : IsOversized m) :
    oversizedCount (m :: ms) = oversizedCount ms + 1 :=
  List.countP_cons_of_pos (by simpa using h)

theorem oversizedCount_cons_of_not {ms : List (List UInt8)} (h : ¬IsOversized m) :
    oversizedCount (m :: ms) = oversizedCount ms :=
  List.countP_cons_of_neg (by simpa using h)

theorem oversizedCount_append (ms ms' : List (List UInt8)) :
    oversizedCount (ms ++ ms') = oversizedCount ms + oversizedCount ms' := List.countP_append

theorem delivered_append (ms ms' : List (List UInt8)) :
    delivered (ms ++ ms') = delivered ms ++ delivered ms' := by
  rw [delivered, List.map_append, List.filter_append, delivered, delivered]

/-- **The loop** on a buffer that is framed by terminators. -/
theorem pushLoop_of_terminated (hb : Terminated b) (frames : List (List UInt8)) (oversized : ℕ) :
    pushLoop frames oversized b = .ok
      ((frames ++ delivered (complete b), oversized + oversizedCount (complete b) +
          if maxMessageBytes < (pending b).length then 1 else 0),
        if maxMessageBytes < (pending b).length then [] else pending b) := by
  induction b using messages_induction generalizing frames oversized with
  | last m h =>
    rw [complete_of_forall h, pending_of_forall h]
    by_cases hne : m = []
    · subst hne
      rw [pushLoop_nil]
      simp [delivered, oversizedCount]
    have hnot : ¬Counted m := by
      have hm := hb m
      rw [complete_of_forall h, pending_of_forall h] at hm
      exact hm (by simp)
    have hnone : m.findIdx? isTerminator = none := List.findIdx?_eq_none_iff.mpr h
    rw [pushLoop_of_ne_nil hne]
    rcases octetCounted_of_not_counted hnot with hoct | ⟨hoct, hlen, -⟩
    · simp only [hoct, hnone]
      split_ifs <;> simp [delivered, oversizedCount]
    · have hlt : ¬maxMessageBytes < m.length := by
        rw [maxMessageBytes]
        omega
      simp [hoct, hlt, delivered, oversizedCount]
  | step m c s h hc ih =>
    have hrest : Terminated s := fun x hx => hb x (by
      rw [complete_append_cons h hc, pending_append_cons h hc]
      exact List.mem_cons_of_mem m hx)
    have hnot : ¬Counted (m ++ c :: s) := fun hcounted => by
      have hm := hb m
      rw [complete_append_cons h hc] at hm
      exact hm (by simp) (hcounted.of_append hc)
    have hoct : octetCounted (m ++ c :: s) = .ok .notOctetCounted := by
      rcases octetCounted_of_not_counted hnot with hoct | ⟨-, -, hno⟩
      · exact hoct
      · exact absurd (hno c (by simp)) (by simp [hc])
    have hfind : (m ++ c :: s).findIdx? isTerminator = some m.length := by
      rw [List.findIdx?_append, List.findIdx?_eq_none_iff.mpr h]
      simp [List.findIdx?_cons, hc]
    have hdrop : (m ++ c :: s).drop (m.length + 1) = s := by
      rw [← List.drop_drop, List.drop_left]
      rfl
    rw [pushLoop_of_ne_nil (by simp)]
    simp only [hoct, hfind, terminatedFrame_append, hdrop, ih hrest]
    rw [complete_append_cons h hc, pending_append_cons h hc]
    by_cases hover : IsOversized m
    · rw [if_pos (show maxMessageBytes < (withoutCr m).length from hover),
        delivered_cons_of_not (.inr hover), oversizedCount_cons_of hover, Nat.add_right_comm _ 1,
        Nat.add_assoc oversized]
    · rw [if_neg (show ¬maxMessageBytes < (withoutCr m).length from hover),
        oversizedCount_cons_of_not hover]
      by_cases hempty : withoutCr m = []
      · rw [if_pos hempty, delivered_cons_of_not (.inl hempty)]
      · rw [if_neg hempty, delivered_cons_of hempty hover, List.append_assoc,
          List.singleton_append]

theorem push_of_terminated (f : Framer) {data : List UInt8} (hb : Terminated (f.buf ++ data)) :
    f.push data = .ok
      ((delivered (complete (f.buf ++ data)), oversizedCount (complete (f.buf ++ data)) +
          if maxMessageBytes < (pending (f.buf ++ data)).length then 1 else 0),
        ⟨if maxMessageBytes < (pending (f.buf ++ data)).length then []
          else pending (f.buf ++ data)⟩) := by
  rw [push, pushLoop_of_terminated hb]
  simp [Except.map]

/-! ### All chunks -/

theorem length_withoutCr_le (m : List UInt8) : (withoutCr m).length ≤ m.length := by
  rw [withoutCr]
  split_ifs
  · exact (List.dropLast_prefix m).length_le
  · exact le_rfl

theorem not_isOversized (h : m.length ≤ maxMessageBytes) : ¬IsOversized m :=
  not_lt.mpr ((length_withoutCr_le m).trans h)

theorem Counted.append (h : Counted m) (t : List UInt8) : Counted (m ++ t) := by
  obtain ⟨digits, rest, rfl, hdigits⟩ := h
  exact ⟨digits, rest ++ t, by simp, hdigits⟩

/-- The bytes after a chunk go on with the message that it ends within. -/
theorem Terminated.of_append (h : Terminated (s ++ t)) :
    Terminated s ∧ Terminated (pending s ++ t) := by
  have hrest : Terminated (pending s ++ t) := fun m hm => h m (by
    rw [complete_append, pending_append, List.append_assoc]
    exact List.mem_append_right _ hm)
  refine ⟨fun m hm hcounted => ?_, hrest⟩
  rcases List.mem_append.mp hm with hm | hm
  · refine h m ?_ hcounted
    rw [complete_append, List.append_assoc]
    exact List.mem_append_left _ hm
  · obtain rfl := List.mem_singleton.mp hm
    have hs := forall_pending s
    rcases terminated_cases t with ht | ⟨m', c, t', rfl, hm', hc⟩
    · have hall : ∀ x ∈ pending s ++ t, isTerminator x = false :=
        List.forall_mem_append.mpr ⟨hs, ht⟩
      refine hrest (pending s ++ t) ?_ (hcounted.append t)
      rw [pending_of_forall hall]
      exact List.mem_append_right _ (List.mem_singleton_self _)
    · have hall : ∀ x ∈ pending s ++ m', isTerminator x = false :=
        List.forall_mem_append.mpr ⟨hs, hm'⟩
      refine hrest (pending s ++ m') ?_ (hcounted.append m')
      rw [← List.append_assoc, complete_append_cons hall hc]
      exact List.mem_append_left _ List.mem_cons_self

theorem not_counted_of_ending (h : m = [] ∨ m = [13]) : ¬Counted m := by
  rintro ⟨digits, rest, heq, -⟩
  have hlen := congrArg List.length heq
  rw [List.length_append, List.length_cons, List.length_cons] at hlen
  rcases h with rfl | rfl
  · rw [List.length_nil] at hlen
    omega
  · rw [List.length_singleton] at hlen
    omega

/-- The end of a message, taken for a message, is framed by its terminator. -/
theorem Terminated.of_skipped (h : Terminated (m ++ t))
    (hending : ending t = [] ∨ ending t = [13]) (hm : ∀ x ∈ m, isTerminator x = false) :
    Terminated t := by
  intro x hx
  rcases terminated_cases t with ht | ⟨m', c, t', rfl, hm', hc⟩
  · rw [complete_of_forall ht, pending_of_forall ht, List.nil_append, List.mem_singleton] at hx
    rw [ending_of_forall ht] at hending
    exact hx ▸ not_counted_of_ending hending
  · have hall : ∀ x ∈ m ++ m', isTerminator x = false := List.forall_mem_append.mpr ⟨hm, hm'⟩
    rw [ending_append_cons hm' hc] at hending
    rw [complete_append_cons hm' hc, pending_append_cons hm' hc, List.cons_append,
      List.mem_cons] at hx
    rcases hx with rfl | hx
    · exact not_counted_of_ending hending
    · refine h x ?_
      rw [← List.append_assoc, complete_append_cons hall hc, pending_append_cons hall hc]
      exact List.mem_cons_of_mem _ hx

/-- Nothing is left of a message but its terminator. -/
theorem withoutCr_of_ending (h : m = [] ∨ m = [13]) : withoutCr m = [] := by
  rcases h with rfl | rfl
  · rfl
  · rfl

/-- **The end of an oversized message**, taken for a message, adds nothing. -/
theorem skipped (hending : ending t = [] ∨ ending t = [13]) (hover : IsOversized (m ++ ending t))
    (hm : ∀ x ∈ m, isTerminator x = false) :
    delivered (complete (m ++ t)) = delivered (complete t) ∧
      oversizedCount (complete (m ++ t) ++ [pending (m ++ t)]) =
        1 + oversizedCount (complete t ++ [pending t]) ∧
      lastMessage (pending (m ++ t)) = lastMessage (pending t) := by
  have hnot : ¬IsOversized (ending t) := by
    rw [IsOversized, withoutCr_of_ending hending]
    exact Nat.not_lt_zero _
  rcases terminated_cases t with ht | ⟨m', c, t', rfl, hm', hc⟩
  · have hall : ∀ x ∈ m ++ t, isTerminator x = false := List.forall_mem_append.mpr ⟨hm, ht⟩
    rw [ending_of_forall ht] at hending hover hnot
    rw [complete_of_forall hall, complete_of_forall ht, pending_of_forall hall,
      pending_of_forall ht, List.nil_append, List.nil_append, oversizedCount_cons_of hover,
      oversizedCount_cons_of_not hnot, lastMessage, if_pos hover, lastMessage, if_neg hnot]
    refine ⟨rfl, Nat.add_comm _ _, ?_⟩
    rcases hending with rfl | rfl
    · rfl
    · rfl
  · have hall : ∀ x ∈ m ++ m', isTerminator x = false := List.forall_mem_append.mpr ⟨hm, hm'⟩
    rw [ending_append_cons hm' hc] at hending hover hnot
    rw [← List.append_assoc, complete_append_cons hall hc, complete_append_cons hm' hc,
      pending_append_cons hall hc, pending_append_cons hm' hc, List.cons_append, List.cons_append,
      oversizedCount_cons_of hover, oversizedCount_cons_of_not hnot,
      delivered_cons_of_not (.inr hover),
      delivered_cons_of_not (.inl (withoutCr_of_ending hending))]
    exact ⟨rfl, Nat.add_comm _ _, rfl⟩

/-- After a chunk that keeps the limit, the condition is one on the bytes that wait. -/
theorem CutWithin.tail {c : List UInt8} (h : CutWithin b (c :: cs)) :
    CutWithin (pending (b ++ c)) cs := by
  rintro xs ys rfl hxs
  have hcut := h (c :: xs) ys rfl (List.cons_ne_nil _ _)
  rwa [List.flatten_cons, ← List.append_assoc, pending_append] at hcut

/-- After the end of an oversized message, the condition is one on the bytes that follow. -/
theorem CutWithin.nil (h : CutWithin m cs)
    (hending : ending cs.flatten = [] ∨ ending cs.flatten = [13])
    (hm : ∀ x ∈ m, isTerminator x = false) : CutWithin [] cs := by
  rintro xs ys rfl hxs
  rw [List.nil_append]
  rcases terminated_cases xs.flatten with ht | ⟨m', c, t', heq, hm', hc⟩
  · -- the chunks end within what is left of the message
    refine .inl ?_
    have hsub : xs.flatten <+: ending (xs ++ ys).flatten := by
      rw [List.flatten_append, ending, List.takeWhile_append_of_pos (by simpa using ht)]
      exact List.prefix_append _ _
    have hle : (ending (xs ++ ys).flatten).length ≤ 1 := by
      rcases hending with heq | heq
      · rw [heq]
        exact Nat.zero_le _
      · rw [heq]
        exact le_rfl
    rw [pending_of_forall ht]
    exact (hsub.length_le.trans hle).trans (by decide)
  · have hcut := h xs ys rfl hxs
    have hall : ∀ x ∈ m ++ m', isTerminator x = false := List.forall_mem_append.mpr ⟨hm, hm'⟩
    rw [heq] at hcut ⊢
    rw [← List.append_assoc, pending_append_cons hall hc] at hcut
    rwa [pending_append_cons hm' hc]

theorem pushAll_cons {f : Framer} {c : List UInt8} {r : (List (List UInt8) × ℕ) × Framer}
    {rs : List (List (List UInt8) × ℕ)} {f' : Framer} (hpush : f.push c = .ok r)
    (hrest : r.2.pushAll cs = .ok (rs, f')) : f.pushAll (c :: cs) = .ok (r.1 :: rs, f') := by
  rw [pushAll, hpush]
  simp [hrest, bind, Except.bind, pure, Except.pure]

/-- **The chunks of a stream**, after bytes that wait in the buffer. -/
theorem exists_pushAll (hterm : Terminated (b ++ cs.flatten)) (hcut : CutWithin b cs)
    (hb : ∀ x ∈ b, isTerminator x = false) (hlen : b.length ≤ maxMessageBytes) :
    ∃ rs f, (⟨b⟩ : Framer).pushAll cs = .ok (rs, f) ∧
      (rs.map Prod.fst).flatten = delivered (complete (b ++ cs.flatten)) ∧
      (rs.map Prod.snd).sum =
        oversizedCount (complete (b ++ cs.flatten) ++ [pending (b ++ cs.flatten)]) ∧
      f.finish = lastMessage (pending (b ++ cs.flatten)) := by
  induction cs generalizing b with
  | nil =>
    refine ⟨[], ⟨b⟩, rfl, ?_⟩
    rw [List.flatten_nil, List.append_nil, complete_of_forall hb, pending_of_forall hb,
      List.nil_append, oversizedCount_cons_of_not (not_isOversized hlen), lastMessage,
      if_neg (not_isOversized hlen)]
    exact ⟨rfl, rfl, rfl⟩
  | cons c cs ih =>
    rw [List.flatten_cons, ← List.append_assoc] at hterm ⊢
    obtain ⟨hchunk, hrest⟩ := hterm.of_append
    have hpush := push_of_terminated ⟨b⟩ hchunk
    have hp := forall_pending (b ++ c)
    rw [complete_append (b ++ c), pending_append (b ++ c), delivered_append, List.append_assoc,
      oversizedCount_append]
    by_cases hfits : maxMessageBytes < (pending (b ++ c)).length
    · -- The framer forgets the message; only its terminator may be missing.
      have hnow := (hcut [c] cs rfl (List.cons_ne_nil _ _)).resolve_left (by
        simpa using hfits)
      rw [List.flatten_singleton] at hnow
      obtain ⟨hending, hover⟩ := hnow
      obtain ⟨hdelivered, hcount, hlast⟩ := skipped hending hover hp
      obtain ⟨rs, f, hall, hframes, hsum, hfinish⟩ :=
        ih (b := []) (hrest.of_skipped hending hp) (hcut.tail.nil hending hp) nofun (Nat.zero_le _)
      simp only [if_pos hfits] at hpush
      refine ⟨_, f, pushAll_cons hpush hall, ?_, ?_, ?_⟩
      · rw [List.map_cons, List.flatten_cons, hframes, hdelivered]
        rfl
      · rw [List.map_cons, List.sum_cons, hsum, hcount, Nat.add_assoc]
        rfl
      · rw [hfinish, hlast]
        rfl
    · simp only [if_neg hfits] at hpush
      obtain ⟨rs, f, hall, hframes, hsum, hfinish⟩ := ih hrest hcut.tail hp (not_lt.mp hfits)
      refine ⟨_, f, pushAll_cons hpush hall, ?_, ?_, hfinish⟩
      · rw [List.map_cons, List.flatten_cons, hframes]
      · rw [List.map_cons, List.sum_cons, hsum, Nat.add_zero]

/-- **Oversized messages are skipped whole** in a stream that is framed by terminators, however it
is cut into chunks that keep the limit within messages. -/
theorem skipsOversized (hterm : Terminated cs.flatten) (hcut : CutWithin [] cs) :
    SkipsOversized cs :=
  exists_pushAll (b := []) hterm hcut nofun (Nat.zero_le _)

/-! ### An oversized message in one chunk and in two -/

/-- A text that does not begin with a digit is not counted. -/
theorem not_counted_of_head (h : isLeadDigit (m.getD 0 0) = false) : ¬Counted m := by
  rintro ⟨digits, rest, rfl, -, hlead, -⟩
  cases digits with
  | nil => exact absurd hlead (by decide)
  | cons d digits =>
    rw [show (d :: digits ++ 32 :: 60 :: rest).getD 0 0 = (d :: digits).getD 0 0 from rfl,
      hlead] at h
    exact Bool.noConfusion h

/-- An oversized message without a terminator. -/
def flood : List UInt8 := List.replicate (maxMessageBytes + 10) 97

theorem isTerminator_flood : ∀ x ∈ flood, isTerminator x = false := fun x hx => by
  rw [List.eq_of_mem_replicate hx]
  rfl

theorem length_flood : flood.length = maxMessageBytes + 10 := List.length_replicate

theorem terminated_flood {t : List UInt8} (ht : isLeadDigit (t.getD 0 0) = false)
    (hall : ∀ x ∈ t, isTerminator x = false) : Terminated (flood ++ 10 :: t ++ [10]) := by
  intro m hm
  rw [List.append_assoc, List.cons_append, complete_append_cons isTerminator_flood rfl,
    pending_append_cons isTerminator_flood rfl, complete_append_cons hall rfl,
    pending_append_cons hall rfl] at hm
  simp only [complete, pending, List.splitOnP_nil, List.dropLast_singleton, List.getLastD_cons,
    List.getLastD_nil,
    List.cons_append, List.nil_append, List.mem_cons, List.not_mem_nil, or_false] at hm
  rcases hm with rfl | rfl | rfl
  · exact not_counted_of_head rfl
  · exact not_counted_of_head ht
  · exact not_counted_of_head rfl

/-- The message with its terminator in one chunk, and a message after it. -/
theorem skipsOversized_sample : SkipsOversized [flood ++ 10 :: [98] ++ [10]] := by
  refine skipsOversized ?_ ?_
  · rw [List.flatten_singleton]
    exact terminated_flood rfl (by simp [isTerminator])
  · rintro xs ys hxs hne
    obtain ⟨x, xs, rfl⟩ := List.exists_cons_of_ne_nil hne
    rw [List.cons_append, List.cons.injEq] at hxs
    obtain ⟨rfl, hnil⟩ := hxs
    obtain ⟨rfl, rfl⟩ := List.append_eq_nil_iff.mp hnil.symm
    refine .inl ?_
    rw [List.flatten_singleton, List.nil_append, List.append_assoc, List.cons_append,
      pending_append_cons isTerminator_flood rfl]
    decide

/-- The chunk without a terminator is discarded. -/
theorem push_flood : new.push flood = .ok (([], 1), ⟨[]⟩) := by
  have hterm : Terminated ([] ++ flood) := fun m hm => by
    rw [List.nil_append, complete_of_forall isTerminator_flood,
      pending_of_forall isTerminator_flood, List.nil_append, List.mem_singleton] at hm
    exact hm ▸ not_counted_of_head rfl
  rw [push_of_terminated new hterm]
  simp only [new, List.nil_append, complete_of_forall isTerminator_flood,
    pending_of_forall isTerminator_flood, length_flood]
  rfl

theorem push_end : new.push [98, 10] = .ok (([[98]], 0), ⟨[]⟩) := by
  have hterm : Terminated ([] ++ [98, 10]) := fun m hm => by
    have hm : m ∈ [[98], []] := hm
    rcases List.mem_cons.mp hm with rfl | hm
    · exact not_counted_of_head rfl
    · obtain rfl := List.mem_singleton.mp hm
      exact not_counted_of_head rfl
  rw [push_of_terminated new hterm]
  rfl

/-- **The end of the message in a second chunk** is handed out as a message. -/
theorem not_skipsOversized_sample :
    Terminated [flood, [98, 10]].flatten ∧ ¬SkipsOversized [flood, [98, 10]] := by
  have hall : ∀ x ∈ flood ++ [98], isTerminator x = false :=
    List.forall_mem_append.mpr ⟨isTerminator_flood, by simp [isTerminator]⟩
  have hstream : [flood, [98, 10]].flatten = (flood ++ [98]) ++ 10 :: [] := by simp
  have hcomplete : complete [flood, [98, 10]].flatten = [flood ++ [98]] := by
    rw [hstream, complete_append_cons hall rfl]
    rfl
  refine ⟨fun m hm => ?_, ?_⟩
  · rw [hcomplete, hstream, pending_append_cons hall rfl] at hm
    rcases List.mem_cons.mp hm with rfl | hm
    · exact not_counted_of_head rfl
    · obtain rfl := List.mem_singleton.mp hm
      exact not_counted_of_head rfl
  · rintro ⟨rs, f, hpush, hframes, -⟩
    have hsecond : new.pushAll [[98, 10]] = .ok ([([[98]], 0)], ⟨[]⟩) := pushAll_cons push_end rfl
    have hpushAll := pushAll_cons push_flood hsecond
    rw [hpushAll, Except.ok.injEq] at hpush
    obtain ⟨rfl, rfl⟩ := Prod.mk.inj hpush
    have hover : IsOversized (flood ++ [98]) := by
      rw [IsOversized, withoutCr, if_neg (by simp), List.length_append, length_flood]
      simp only [List.length_singleton]
      omega
    rw [hcomplete, delivered_cons_of_not (.inr hover)] at hframes
    exact absurd hframes (by simp [delivered])

end Nodeglow.SyslogRelay.Framer
