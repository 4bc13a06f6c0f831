import Nodeglow.Agent.SyslogRelay.Framer

/-!
# The bounds of the framer

The bytes of a connection come from outside. Every access to the buffer of the framer panics where
it is out of bounds: its first byte, the byte after the digits, the one after the blank, the digits,
the bytes of a counted message, and what is drained. Here the loop is stated a second time, with an
access that fails in place of the panic. No access fails, whatever the bytes are
(`checkedPush_eq`), a round of the loop that goes on takes bytes from the buffer, and what stays in
the buffer and what is handed out is bounded (`bounded`).

## Main results

* `Framer.bounded` — no panic, progress, and the bounds.

Source: `agent/src/syslog_relay.rs`, lines 208–301.
-/

namespace Nodeglow.SyslogRelay.Framer

/-! ### Accesses that fail -/

/-- `b[start..stop]`. -/
def slice (b : List UInt8) (start stop : ℕ) : Option (List UInt8) :=
  if start ≤ stop ∧ stop ≤ b.length then some ((b.take stop).drop start) else none

/-- What `b.drain(..stop)` leaves. -/
def drained (b : List UInt8) (stop : ℕ) : Option (List UInt8) :=
  if stop ≤ b.length then some (b.drop stop) else none

/-- `octet_counted`. -/
def checkedOctets (b : List UInt8) : Option (Except FramingError Octets) := do
  let first ← b[0]?
  if !isLeadDigit first then return .ok .notOctetCounted
  let digits := ((b.take 7).takeWhile isAsciiDigit).length
  if digits = b.length then return .ok (if digits < 7 then .needMore else .notOctetCounted)
  let blank ← b[digits]?
  if blank ≠ 32 ∨ 6 < digits then return .ok .notOctetCounted
  if b.length = digits + 1 then return .ok .needMore
  let pri ← b[digits + 1]?
  if pri ≠ 60 then return .ok .notOctetCounted
  let len := parseDecimal (← slice b 0 digits)
  if maxMessageBytes < len then return .error .framingError
  if b.length < digits + 1 + len then return .ok .needMore
  return .ok (.frame (digits + 1) len)

/-- A round of the loop of `push`: it leaves the loop, or goes on with what is left of the buffer.
-/
inductive Turn
  | stop (oversized : ℕ) (buf : List UInt8)
  | next (frames : List (List UInt8)) (oversized : ℕ) (buf : List UInt8)
  deriving DecidableEq, Repr

/-- A round of the loop. -/
def turn (buf : List UInt8) : Option (Except FramingError Turn) :=
  if buf = [] then some (.ok (.stop 0 buf))
  else do
    match ← checkedOctets buf with
    | .error e => return .error e
    | .ok (.frame start len) =>
      let frame ← slice buf start (start + len)
      let rest ← drained buf (start + len)
      return .ok (.next [frame] 0 rest)
    | .ok .needMore => return .ok (.stop 0 buf)
    | .ok .notOctetCounted =>
      match buf.findIdx? isTerminator with
      | some pos =>
        let rest ← drained buf (pos + 1)
        let frame := terminatedFrame buf pos
        if maxMessageBytes < frame.length then return .ok (.next [] 1 rest)
        else if frame = [] then return .ok (.next [] 0 rest)
        else return .ok (.next [frame] 0 rest)
      | none =>
        if maxMessageBytes < buf.length then return .ok (.stop 1 [])
        else return .ok (.stop 0 buf)

variable {b buf data rest : List UInt8} {frames : List (List UInt8)} {oversized start len : ℕ}

/-! ### No access fails -/

theorem checkedOctets_eq (hb : b ≠ []) : checkedOctets b = some (octetCounted b) := by
  obtain ⟨c, cs, rfl⟩ := List.exists_cons_of_ne_nil hb
  set b := c :: cs
  have hle : ((b.take 7).takeWhile isAsciiDigit).length ≤ b.length :=
    (List.takeWhile_prefix _).length_le.trans (List.length_take_le' _ _)
  have hfirst : b[0]? = some (b.getD 0 0) := rfl
  rw [checkedOctets, octetCounted, hfirst]
  simp only [Option.bind_eq_bind, Option.bind_some]
  by_cases hlead : (!isLeadDigit (b.getD 0 0)) = true
  · rw [if_pos hlead, if_pos hlead]
    rfl
  rw [if_neg hlead, if_neg hlead]
  generalize ((b.take 7).takeWhile isAsciiDigit).length = digits at *
  by_cases hall : digits = b.length
  · rw [if_pos hall, if_pos hall]
    rfl
  have hblank : b[digits]? = some (b.getD digits 0) := by
    rw [List.getD_eq_getElem?_getD, List.getElem?_eq_getElem (by omega), Option.getD_some]
  rw [if_neg hall, if_neg hall, hblank, Option.bind_some]
  by_cases hnot : b.getD digits 0 ≠ 32 ∨ 6 < digits
  · rw [if_pos hnot, if_pos hnot]
    rfl
  rw [if_neg hnot, if_neg hnot]
  by_cases hone : b.length = digits + 1
  · rw [if_pos hone, if_pos hone]
    rfl
  have hpri : b[digits + 1]? = some (b.getD (digits + 1) 0) := by
    rw [List.getD_eq_getElem?_getD, List.getElem?_eq_getElem (by omega), Option.getD_some]
  have hslice : slice b 0 digits = some (b.take digits) := by
    rw [slice, if_pos ⟨Nat.zero_le _, hle⟩, List.drop_zero]
  rw [if_neg hone, if_neg hone, hpri, Option.bind_some, hslice, Option.bind_some]
  split_ifs
  all_goals rfl

theorem frame_le (h : octetCounted b = .ok (.frame start len)) : start + len ≤ b.length := by
  unfold octetCounted at h
  grind

theorem drained_eq {stop : ℕ} (h : stop ≤ b.length) : drained b stop = some (b.drop stop) :=
  if_pos h

/-- **A round of the loop** fails nowhere. -/
theorem turn_of_ne_nil (hbuf : buf ≠ []) : turn buf = some (match octetCounted buf with
    | .error e => .error e
    | .ok (.frame start len) =>
        .ok (.next [(buf.drop start).take len] 0 (buf.drop (start + len)))
    | .ok .needMore => .ok (.stop 0 buf)
    | .ok .notOctetCounted =>
        match buf.findIdx? isTerminator with
        | some pos =>
            if maxMessageBytes < (terminatedFrame buf pos).length then
              .ok (.next [] 1 (buf.drop (pos + 1)))
            else if terminatedFrame buf pos = [] then .ok (.next [] 0 (buf.drop (pos + 1)))
            else .ok (.next [terminatedFrame buf pos] 0 (buf.drop (pos + 1)))
        | none =>
            if maxMessageBytes < buf.length then .ok (.stop 1 []) else .ok (.stop 0 buf)) := by
  rw [turn, if_neg hbuf, checkedOctets_eq hbuf, Option.bind_eq_bind, Option.bind_some]
  cases hoct : octetCounted buf with
  | error e => rfl
  | ok o =>
    cases o with
    | needMore => rfl
    | frame start len =>
      have hle := frame_le hoct
      have hslice : slice buf start (start + len) = some ((buf.drop start).take len) := by
        rw [slice, if_pos ⟨Nat.le_add_right _ _, hle⟩, List.drop_take, Nat.add_sub_cancel_left]
      simp only [hslice, drained_eq hle]
      rfl
    | notOctetCounted =>
      cases hpos : buf.findIdx? isTerminator with
      | none =>
        simp only
        split_ifs
        all_goals rfl
      | some pos =>
        have hlt : pos < buf.length := (List.findIdx?_eq_some_iff_getElem.mp hpos).1
        simp only [drained_eq (Nat.succ_le_of_lt hlt)]
        split_ifs <;> simp_all

/-- **A round that goes on** takes bytes from the buffer. -/
theorem length_lt_of_turn (h : turn buf = some (.ok (.next frames oversized rest))) :
    rest.length < buf.length := by
  by_cases hbuf : buf = []
  · simp [turn, hbuf] at h
  have hpos : 0 < buf.length := List.length_pos_iff.mpr hbuf
  rw [turn_of_ne_nil hbuf, Option.some.injEq] at h
  cases hoct : octetCounted buf with
  | error e => simp [hoct] at h
  | ok o =>
    rw [hoct] at h
    cases o with
    | needMore => simp at h
    | frame start len =>
      have hstart := start_pos_of_octetCounted hoct
      simp only [Except.ok.injEq, Turn.next.injEq] at h
      rw [← h.2.2, List.length_drop]
      omega
    | notOctetCounted =>
      cases hfind : buf.findIdx? isTerminator with
      | none =>
        simp only [hfind] at h
        split_ifs at h <;> simp at h
      | some pos =>
        have hrest : rest = buf.drop (pos + 1) := by
          simp only [hfind] at h
          split_ifs at h <;> simp only [Except.ok.injEq, Turn.next.injEq] at h <;> exact h.2.2.symm
        rw [hrest, List.length_drop]
        omega

/-- The loop of `push`, with accesses that fail. -/
def checkedLoop (frames : List (List UInt8)) (oversized : ℕ) (buf : List UInt8) :
    Option (Except FramingError ((List (List UInt8) × ℕ) × List UInt8)) :=
  match _ : turn buf with
  | none => none
  | some (.error e) => some (.error e)
  | some (.ok (.stop o rest)) => some (.ok ((frames, oversized + o), rest))
  | some (.ok (.next fs o rest)) => checkedLoop (frames ++ fs) (oversized + o) rest
termination_by buf.length
decreasing_by exact length_lt_of_turn ‹_›

/-- `push`, with accesses that fail. -/
def checkedPush (f : Framer) (data : List UInt8) :
    Option (Except FramingError ((List (List UInt8) × ℕ) × Framer)) :=
  (checkedLoop [] 0 (f.buf ++ data)).map fun result => result.map fun r => (r.1, ⟨r.2⟩)

theorem checkedLoop_eq (frames : List (List UInt8)) (oversized : ℕ) (buf : List UInt8) :
    checkedLoop frames oversized buf = some (pushLoop frames oversized buf) := by
  induction hn : buf.length using Nat.strong_induction_on generalizing frames oversized buf with
  | _ n ih =>
    subst hn
    by_cases hbuf : buf = []
    · subst hbuf
      rw [checkedLoop, pushLoop_nil]
      rfl
    have hstop : ∀ o rest, turn buf = some (.ok (.stop o rest)) →
        checkedLoop frames oversized buf = some (.ok ((frames, oversized + o), rest)) := by
      intro o rest h
      rw [checkedLoop]
      split <;> simp_all
    have hnext : ∀ fs o rest, turn buf = some (.ok (.next fs o rest)) →
        checkedLoop frames oversized buf =
          some (pushLoop (frames ++ fs) (oversized + o) rest) := by
      intro fs o rest h
      rw [← ih _ (length_lt_of_turn h) _ _ _ rfl, checkedLoop]
      split <;> simp_all
    have hturn := turn_of_ne_nil hbuf
    rw [pushLoop_of_ne_nil hbuf]
    cases hoct : octetCounted buf with
    | error e =>
      rw [hoct] at hturn
      rw [checkedLoop]
      split <;> simp_all
    | ok o =>
      rw [hoct] at hturn
      cases o with
      | needMore => exact hstop _ _ hturn
      | frame start len => exact hnext _ _ _ hturn
      | notOctetCounted =>
        cases hfind : buf.findIdx? isTerminator with
        | none =>
          simp only [hfind] at hturn ⊢
          split_ifs at hturn ⊢
          · exact hstop _ _ hturn
          · exact hstop _ _ hturn
        | some pos =>
          simp only [hfind] at hturn ⊢
          split_ifs at hturn ⊢
          · rw [hnext _ _ _ hturn, List.append_nil]
          · rw [hnext _ _ _ hturn, List.append_nil, Nat.add_zero]
          · rw [hnext _ _ _ hturn, Nat.add_zero]

/-- **No access fails**, whatever the buffer and the bytes are. -/
theorem checkedPush_eq (f : Framer) (data : List UInt8) :
    checkedPush f data = some (f.push data) := by
  rw [checkedPush, checkedLoop_eq, Option.map_some, push]

/-! ### The bounds -/

/-- The longest length that is taken for an octet count: six digits and a blank. -/
def maxCountBytes : ℕ := 7

/-- A message that is handed out is not empty, and within the limit. -/
def Bounded (frame : List UInt8) : Prop := 1 ≤ frame.length ∧ frame.length ≤ maxMessageBytes

/-- Digits with a first one of `1` to `9` are a positive number. -/
theorem parseDecimal_pos {c : UInt8} {cs : List UInt8} (hc : isLeadDigit c = true) :
    0 < parseDecimal (c :: cs) := by
  have hfold : ∀ (ds : List UInt8) (n : ℕ), 0 < n →
      0 < ds.foldl (fun n d => 10 * n + (d.toNat - 48)) n := by
    intro ds
    induction ds with
    | nil => exact fun n hn => hn
    | cons d ds ih => exact fun n hn => ih (10 * n + (d.toNat - 48)) (by omega)
  have hle : 49 ≤ c.toNat := by
    rw [isLeadDigit, Bool.and_eq_true, decide_eq_true_eq, decide_eq_true_eq] at hc
    exact UInt8.le_iff_toNat_le.mp hc.1
  exact hfold cs (10 * 0 + (c.toNat - 48)) (by omega)

theorem isAsciiDigit_of_isLeadDigit {c : UInt8} (hc : isLeadDigit c = true) :
    isAsciiDigit c = true := by
  simp only [isLeadDigit, isAsciiDigit, Bool.and_eq_true, decide_eq_true_eq,
    UInt8.le_iff_toNat_le] at hc ⊢
  refine ⟨?_, hc.2⟩
  have hle : (49 : UInt8).toNat ≤ c.toNat := hc.1
  exact Nat.le_trans (by decide) hle

theorem len_of_frame (h : octetCounted b = .ok (.frame start len)) :
    isLeadDigit (b.getD 0 0) = true ∧ len ≤ maxMessageBytes ∧
      len = parseDecimal (b.take ((b.take 7).takeWhile isAsciiDigit).length) := by
  unfold octetCounted at h
  grind

/-- An octet-counted message is not empty, and within the limit. -/
theorem bounded_of_frame (h : octetCounted b = .ok (.frame start len)) :
    1 ≤ len ∧ len ≤ maxMessageBytes := by
  obtain ⟨hlead, hle, rfl⟩ := len_of_frame h
  refine ⟨?_, hle⟩
  cases b with
  | nil => simp [isLeadDigit] at hlead
  | cons c cs =>
    have hc : isLeadDigit c = true := hlead
    rw [List.take_succ_cons, List.takeWhile_cons_of_pos (isAsciiDigit_of_isLeadDigit hc),
      List.length_cons, List.take_succ_cons]
    exact parseDecimal_pos hc

/-- A message that is not complete is short enough to wait for the rest. -/
theorem length_le_of_needMore (h : octetCounted b = .ok .needMore) :
    b.length ≤ maxMessageBytes + maxCountBytes := by
  unfold octetCounted at h
  unfold maxCountBytes
  grind

theorem bounded_drop_take (h : octetCounted b = .ok (.frame start len)) :
    Bounded ((b.drop start).take len) := by
  have hle := frame_le h
  rw [Bounded, List.length_take, List.length_drop]
  have hlen := bounded_of_frame h
  omega

/-- **The loop** hands out bounded messages, and keeps a bounded rest. -/
theorem bounded_pushLoop (hframes : ∀ frame ∈ frames, Bounded frame)
    {r : (List (List UInt8) × ℕ) × List UInt8} (h : pushLoop frames oversized buf = .ok r) :
    (∀ frame ∈ r.1.1, Bounded frame) ∧ r.2.length ≤ maxMessageBytes + maxCountBytes := by
  induction hn : buf.length using Nat.strong_induction_on generalizing frames oversized buf with
  | _ n ih =>
    by_cases hbuf : buf = []
    · rw [hbuf, pushLoop_nil, Except.ok.injEq] at h
      subst h
      exact ⟨hframes, Nat.zero_le _⟩
    have hpos : 0 < buf.length := List.length_pos_iff.mpr hbuf
    have hnext : ∀ k, 0 < k → ∀ fs o, (∀ frame ∈ fs, Bounded frame) →
        pushLoop fs o (buf.drop k) = .ok r →
        (∀ frame ∈ r.1.1, Bounded frame) ∧ r.2.length ≤ maxMessageBytes + maxCountBytes :=
      fun k hk fs o hfs hloop =>
        ih (buf.drop k).length (by simp only [List.length_drop]; omega) hfs hloop rfl
    have hadd : ∀ frame, Bounded frame → ∀ x ∈ frames ++ [frame], Bounded x := by
      intro frame hframe x hx
      rcases List.mem_append.mp hx with hx | hx
      · exact hframes x hx
      · exact List.mem_singleton.mp hx ▸ hframe
    rw [pushLoop_of_ne_nil hbuf] at h
    cases hoct : octetCounted buf with
    | error e => simp [hoct] at h
    | ok o =>
      rw [hoct] at h
      cases o with
      | needMore =>
        simp only [Except.ok.injEq] at h
        subst h
        exact ⟨hframes, length_le_of_needMore hoct⟩
      | frame start len =>
        have hstart := start_pos_of_octetCounted hoct
        exact hnext (start + len) (by omega) _ _ (hadd _ (bounded_drop_take hoct)) h
      | notOctetCounted =>
        cases hfind : buf.findIdx? isTerminator with
        | none =>
          simp only [hfind] at h
          split_ifs at h with hlong <;> simp only [Except.ok.injEq] at h <;> subst h
          · exact ⟨hframes, Nat.zero_le _⟩
          · exact ⟨hframes, (not_lt.mp hlong).trans (Nat.le_add_right _ _)⟩
        | some pos =>
          simp only [hfind] at h
          split_ifs at h with hlong hempty
          · exact hnext (pos + 1) (Nat.succ_pos pos) _ _ hframes h
          · exact hnext (pos + 1) (Nat.succ_pos pos) _ _ hframes h
          · have hframe : Bounded (terminatedFrame buf pos) :=
              ⟨List.length_pos_iff.mpr hempty, not_lt.mp hlong⟩
            exact hnext (pos + 1) (Nat.succ_pos pos) _ _ (hadd _ hframe) h

theorem bounded_push {f : Framer} {r : (List (List UInt8) × ℕ) × Framer}
    (h : f.push data = .ok r) :
    (∀ frame ∈ r.1.1, Bounded frame) ∧ r.2.buf.length ≤ maxMessageBytes + maxCountBytes := by
  rw [push] at h
  cases hloop : pushLoop [] 0 (f.buf ++ data) with
  | error e => simp [hloop, Except.map] at h
  | ok out =>
    rw [hloop] at h
    simp only [Except.map, Except.ok.injEq] at h
    subst h
    exact bounded_pushLoop (fun _ hframe => absurd hframe List.not_mem_nil) hloop

/-- **Every connection**: the chunks in turn. -/
theorem bounded_pushAll {f f' : Framer} {cs : List (List UInt8)}
    {rs : List (List (List UInt8) × ℕ)} (hf : f.buf.length ≤ maxMessageBytes + maxCountBytes)
    (h : f.pushAll cs = .ok (rs, f')) :
    (∀ r ∈ rs, ∀ frame ∈ r.1, Bounded frame) ∧
      f'.buf.length ≤ maxMessageBytes + maxCountBytes := by
  induction cs generalizing f rs with
  | nil =>
    rw [pushAll, Except.ok.injEq] at h
    obtain ⟨rfl, rfl⟩ := Prod.mk.inj h
    exact ⟨List.forall_mem_nil _, hf⟩
  | cons c cs ih =>
    rw [pushAll] at h
    cases hpush : f.push c with
    | error e => simp [hpush, bind, Except.bind] at h
    | ok r =>
      cases hrest : r.2.pushAll cs with
      | error e => simp [hpush, hrest, bind, Except.bind] at h
      | ok out =>
        simp only [hpush, hrest, bind, Except.bind, pure, Except.pure, Except.ok.injEq,
          Prod.mk.injEq] at h
        obtain ⟨rfl, rfl⟩ := h
        obtain ⟨hfirst, hbuf⟩ := bounded_push hpush
        obtain ⟨hframes, hfinal⟩ := ih hbuf hrest
        refine ⟨fun q hq => ?_, hfinal⟩
        rcases List.mem_cons.mp hq with rfl | hq
        · exact hfirst
        · exact hframes q hq

/-- **The framer is bounded and does not panic.** Whatever chunks were pushed, no access of the next
push fails, a round of its loop that goes on takes bytes from the buffer, and after each push the
rest and the messages that were handed out are bounded; so is the last message. -/
theorem bounded (cs : List (List UInt8)) :
    (∀ f data, checkedPush f data = some (f.push data)) ∧
      (∀ buf frames oversized rest,
        turn buf = some (.ok (.next frames oversized rest)) → rest.length < buf.length) ∧
      ∀ rs f, new.pushAll cs = .ok (rs, f) →
        f.buf.length ≤ maxMessageBytes + maxCountBytes ∧
          (∀ r ∈ rs, ∀ frame ∈ r.1, Bounded frame) ∧ ∀ frame ∈ f.finish, Bounded frame := by
  refine ⟨checkedPush_eq, fun buf frames oversized rest => length_lt_of_turn, fun rs f h => ?_⟩
  obtain ⟨hframes, hbuf⟩ := bounded_pushAll (Nat.zero_le _) h
  refine ⟨hbuf, hframes, fun frame hframe => ?_⟩
  rw [finish] at hframe
  split_ifs at hframe with hnone
  · exact absurd hframe (by simp)
  · rw [not_or] at hnone
    obtain rfl := Option.some.inj hframe
    exact ⟨List.length_pos_iff.mpr hnone.1, not_lt.mp hnone.2⟩

/-- The counted message `<1>a` is handed out, and nothing is left. -/
theorem pushAll_counted : new.pushAll [[52, 32, 60, 49, 62, 97]] =
    .ok ([([[60, 49, 62, 97]], 0)], ⟨[]⟩) := by
  have hframe : pushLoop [] 0 [52, 32, 60, 49, 62, 97] = .ok (([[60, 49, 62, 97]], 0), []) := by
    have hhead : [60, 49, 62, 97].head? = some (60 : UInt8) := rfl
    have h := pushLoop_octetCounted_append hhead (by decide) [] [] 0
    rw [pushLoop_nil] at h
    simpa [decimal] using h
  simp only [pushAll, push, new, List.nil_append, hframe]
  rfl

theorem bounded_sample : ([] : List UInt8).length ≤ maxMessageBytes + maxCountBytes ∧
    (∀ r ∈ [([[60, 49, 62, 97]], 0)], ∀ frame ∈ r.1, Bounded frame) ∧
      ∀ frame ∈ (⟨[]⟩ : Framer).finish, Bounded frame :=
  (bounded [[52, 32, 60, 49, 62, 97]]).2.2 _ _ pushAll_counted

end Nodeglow.SyslogRelay.Framer
