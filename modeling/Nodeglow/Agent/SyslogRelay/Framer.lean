import Mathlib.Data.Nat.Digits.Lemmas
import Mathlib.Data.List.DropRight
import Nodeglow.Foundation.StreamDecoder

/-!
# Framing of syslog messages on a TCP stream

The relay of a probe reads syslog messages from TCP connections. Devices frame them in two ways:
octet counting, `"<len> <msg>"`, and non-transparent framing, where LF or NUL ends a message. The
framer decides between the two at the first byte of every message, so a stream may mix them.

`Framer.push` appends received bytes to the buffer and removes every complete message from its
front; `Framer.finish` hands out what is left when the connection ends. Messages above
`maxMessageBytes` are discarded and counted, and an octet count above it is an error that closes
the connection.

The wire form of a message (`WireMessage.encode`) is a code in the sense of
`Nodeglow.StreamDecoder`: the loop of the framer removes a complete code word whatever follows it
(`pushLoop_octetCounted_append`, `pushLoop_terminated_append`) and leaves every proper initial
segment of one in the buffer (`pushLoop_octetCounted_isPrefix`, `pushLoop_terminated_isPrefix`).
The round trip follows for every mixture of framings and every division of the stream into chunks
(`pushAll_encode`).

## Main results

* `Framer.pushAll_encode` — the round trip.

Source: `agent/src/syslog_relay.rs`, lines 186–307.
-/

namespace Nodeglow.SyslogRelay

/-- The backend refuses larger messages. -/
def maxMessageBytes : ℕ := 64 * 1024

/-- The stream can no longer be framed: an announced length is above the message limit. -/
inductive FramingError
  | framingError
  deriving DecidableEq, Repr

/-- What the front of the buffer says about octet counting. -/
inductive Octets
  /-- A complete message of length `len` begins at `start`. -/
  | frame (start len : ℕ)
  | needMore
  | notOctetCounted
  deriving DecidableEq, Repr

/-- `u8::is_ascii_digit`. -/
def isAsciiDigit (c : UInt8) : Bool := 48 ≤ c && c ≤ 57

/-- The first digit of an octet count, `1` to `9`. -/
def isLeadDigit (c : UInt8) : Bool := 49 ≤ c && c ≤ 57

/-- The end of a message in non-transparent framing, LF or NUL. -/
def isTerminator (c : UInt8) : Bool := c == 10 || c == 0

/-- The number that a list of ASCII digits denotes, as `str::parse` reads it. -/
def parseDecimal (ds : List UInt8) : ℕ := ds.foldl (fun n d => 10 * n + (d.toNat - 48)) 0

/-- The bytes of one connection that belong to no complete message yet. -/
structure Framer where
  buf : List UInt8
  deriving DecidableEq, Repr

namespace Framer

def new : Framer := ⟨[]⟩

/-- Does the buffer begin with an octet-counted message? The buffer is not empty where the framer
asks; at most six digits are taken for a length, and `"123 "` is one only before a PRI. -/
def octetCounted (b : List UInt8) : Except FramingError Octets :=
  if !isLeadDigit (b.getD 0 0) then .ok .notOctetCounted
  else
    let digits := ((b.take 7).takeWhile isAsciiDigit).length
    if digits = b.length then .ok (if digits < 7 then .needMore else .notOctetCounted)
    else if b.getD digits 0 ≠ 32 ∨ 6 < digits then .ok .notOctetCounted
    else if b.length = digits + 1 then .ok .needMore
    else if b.getD (digits + 1) 0 ≠ 60 then .ok .notOctetCounted
    else
      let len := parseDecimal (b.take digits)
      if maxMessageBytes < len then .error .framingError
      else if b.length < digits + 1 + len then .ok .needMore
      else .ok (.frame (digits + 1) len)

/-- The message before the terminator at `pos`, without the CR some devices put before it. -/
def terminatedFrame (b : List UInt8) (pos : ℕ) : List UInt8 :=
  if (b.take pos).getLast? = some 13 then (b.take pos).dropLast else b.take pos

theorem start_pos_of_octetCounted {b : List UInt8} {start len : ℕ}
    (h : octetCounted b = .ok (.frame start len)) : 0 < start := by
  unfold octetCounted at h
  grind

/-- The loop of `push` on the buffer: the frames and the number of oversized messages so far are
carried along, and returned with what stays in the buffer. -/
def pushLoop (frames : List (List UInt8)) (oversized : ℕ) (buf : List UInt8) :
    Except FramingError ((List (List UInt8) × ℕ) × List UInt8) :=
  if _ : buf = [] then .ok ((frames, oversized), buf)
  else
    match _ : octetCounted buf with
    | .error e => .error e
    | .ok (.frame start len) =>
        pushLoop (frames ++ [(buf.drop start).take len]) oversized (buf.drop (start + len))
    | .ok .needMore => .ok ((frames, oversized), buf)
    | .ok .notOctetCounted =>
        match buf.findIdx? isTerminator with
        | some pos =>
            let frame := terminatedFrame buf pos
            if maxMessageBytes < frame.length then
              pushLoop frames (oversized + 1) (buf.drop (pos + 1))
            else if frame = [] then pushLoop frames oversized (buf.drop (pos + 1))
            else pushLoop (frames ++ [frame]) oversized (buf.drop (pos + 1))
        | none =>
            -- no terminator in sight: discard what is there and skip to the next one
            if maxMessageBytes < buf.length then .ok ((frames, oversized + 1), [])
            else .ok ((frames, oversized), buf)
termination_by buf.length
decreasing_by
  all_goals
    have hpos : 0 < buf.length := List.length_pos_iff.mpr ‹_›
    simp only [List.length_drop]
  · have := start_pos_of_octetCounted ‹_›
    omega
  all_goals omega

/-- Feed bytes; the complete messages they finished, and how many oversized messages were
discarded on the way. -/
def push (f : Framer) (data : List UInt8) :
    Except FramingError ((List (List UInt8) × ℕ) × Framer) :=
  (pushLoop [] 0 (f.buf ++ data)).map fun r => (r.1, ⟨r.2⟩)

/-- The connection ended: whatever is left is the last message. -/
def finish (f : Framer) : Option (List UInt8) :=
  let rest := f.buf.rdropWhile fun c => c == 13 || c == 10 || c == 0
  if rest = [] ∨ maxMessageBytes < rest.length then none else some rest

/-- The chunks of a connection pushed one after another, with the answer to each of them. -/
def pushAll (f : Framer) : List (List UInt8) →
    Except FramingError (List (List (List UInt8) × ℕ) × Framer)
  | [] => .ok ([], f)
  | c :: cs => do
      let r ← f.push c
      let rs ← pushAll r.2 cs
      return (r.1 :: rs.1, rs.2)

end Framer

/-! ### The wire form of messages -/

/-- The ways a device can frame a message. -/
inductive Framing
  | octetCounting
  | lf
  | nul
  deriving DecidableEq, Repr

/-- A message together with a framing that can carry it. Every message begins with the `<` of its
PRI; one that is ended by LF or NUL contains neither and does not end in CR. -/
structure WireMessage where
  bytes : List UInt8
  framing : Framing
  head_eq : bytes.head? = some 60
  length_le : bytes.length ≤ maxMessageBytes
  terminable : framing ≠ .octetCounting →
    (∀ c ∈ bytes, isTerminator c = false) ∧ bytes.getLast? ≠ some 13

/-- The decimal digits of a number in ASCII, without leading zeros. -/
def decimal (n : ℕ) : List UInt8 := (Nat.digits 10 n).reverse.map fun d => UInt8.ofNat (48 + d)

/-- The bytes a device sends for a message. -/
def WireMessage.encode (m : WireMessage) : List UInt8 :=
  match m.framing with
  | .octetCounting => decimal m.bytes.length ++ 32 :: m.bytes
  | .lf => m.bytes ++ [10]
  | .nul => m.bytes ++ [0]

/-! ### Decimal lengths -/

theorem isAsciiDigit_ofNat {d : ℕ} (hd : d < 10) : isAsciiDigit (UInt8.ofNat (48 + d)) = true := by
  interval_cases d <;> decide

theorem toNat_digit {d : ℕ} (hd : d < 10) : (UInt8.ofNat (48 + d)).toNat - 48 = d := by
  interval_cases d <;> decide

theorem isAsciiDigit_of_mem_decimal {n : ℕ} {c : UInt8} (hc : c ∈ decimal n) :
    isAsciiDigit c = true := by
  obtain ⟨d, hd, rfl⟩ := List.mem_map.mp hc
  exact isAsciiDigit_ofNat (Nat.digits_lt_base (by norm_num) (List.mem_reverse.mp hd))

theorem parseDecimal_decimal (n : ℕ) : parseDecimal (decimal n) = n := by
  have hfold : ∀ ds : List ℕ, (∀ d ∈ ds, d < 10) →
      (ds.reverse.map fun d => UInt8.ofNat (48 + d)).foldl
        (fun n d => 10 * n + (d.toNat - 48)) 0 = Nat.ofDigits 10 ds := by
    intro ds hds
    induction ds with
    | nil => rfl
    | cons d ds ih =>
      rw [List.reverse_cons, List.map_append, List.foldl_append,
        ih fun e he => hds e (List.mem_cons_of_mem d he)]
      simp only [List.map_cons, List.map_nil, List.foldl_cons, List.foldl_nil, Nat.ofDigits_cons,
        toNat_digit (hds d List.mem_cons_self)]
      omega
  rw [parseDecimal, decimal, hfold _ fun d hd => Nat.digits_lt_base (by norm_num) hd,
    Nat.ofDigits_digits]

theorem length_decimal_le {n : ℕ} (hn : n ≤ maxMessageBytes) : (decimal n).length ≤ 6 := by
  rw [decimal, List.length_map, List.length_reverse, Nat.digits_length_le_iff (by norm_num)]
  exact lt_of_le_of_lt hn (by decide)

/-- The first digit of a positive number is not `0`. -/
theorem exists_decimal_eq_cons {n : ℕ} (hn : n ≠ 0) :
    ∃ c cs, decimal n = c :: cs ∧ isLeadDigit c = true := by
  have hne : Nat.digits 10 n ≠ [] := Nat.digits_ne_nil_iff_ne_zero.mpr hn
  have hlast := Nat.getLast_digit_ne_zero 10 hn
  have hlt := Nat.digits_lt_base (b := 10) (by norm_num) (List.getLast_mem hne)
  refine ⟨UInt8.ofNat (48 + (Nat.digits 10 n).getLast hne),
    (Nat.digits 10 n).dropLast.reverse.map fun d => UInt8.ofNat (48 + d), ?_, ?_⟩
  · conv_lhs => rw [decimal, ← List.dropLast_concat_getLast hne]
    simp
  · generalize (Nat.digits 10 n).getLast hne = d at hlast hlt
    interval_cases d <;> simp_all [isLeadDigit]

namespace Framer

/-! ### The front of the buffer -/

section OctetCount

/-- At most six digits and then a byte that is no digit: the digits are found. -/
private theorem takeWhile_take_append {ds r : List UInt8} (hds : ∀ d ∈ ds, isAsciiDigit d = true)
    (hlen : ds.length ≤ 6) (hr : isAsciiDigit (r.getD 0 0) = false) :
    ((ds ++ r).take 7).takeWhile isAsciiDigit = ds := by
  rw [List.take_append, List.take_of_length_le (by omega), List.takeWhile_append_of_pos hds]
  cases r with
  | nil => simp
  | cons c r =>
    have htake : (c :: r).take (7 - ds.length) = c :: r.take (6 - ds.length) := by
      rw [show 7 - ds.length = (6 - ds.length) + 1 by omega, List.take_succ_cons]
    simpa [htake] using hr

variable {c : UInt8} {cs : List UInt8} (hlead : isLeadDigit c = true)
  (hds : ∀ d ∈ c :: cs, isAsciiDigit d = true) (hlen : (c :: cs).length ≤ 6)

include hlead hds hlen in
/-- Digits alone may go on. -/
theorem octetCounted_digits : octetCounted (c :: cs) = .ok .needMore := by
  have htake := takeWhile_take_append (r := []) hds hlen (by decide)
  rw [List.append_nil] at htake
  have hlt : cs.length + 1 < 7 := by simpa [Nat.lt_succ_iff] using hlen
  simp only [octetCounted, htake]
  simp [hlead, hlt]

include hlead hds hlen in
/-- After the digits and the blank the first byte of the message is still to come. -/
theorem octetCounted_digits_blank : octetCounted (c :: cs ++ [32]) = .ok .needMore := by
  have htake := takeWhile_take_append (r := [32]) hds hlen (by decide)
  have hle : ¬6 < cs.length + 1 := by simpa using hlen
  simp only [octetCounted, htake]
  simp [hlead, hle]

include hlead hds hlen in
/-- Digits, a blank and a PRI announce a message of that length. -/
theorem octetCounted_counted (r : List UInt8) (hmax : parseDecimal (c :: cs) ≤ maxMessageBytes) :
    octetCounted (c :: cs ++ 32 :: 60 :: r) =
      .ok (if r.length + 1 < parseDecimal (c :: cs) then .needMore
        else .frame (cs.length + 2) (parseDecimal (c :: cs))) := by
  have htake := takeWhile_take_append (r := 32 :: 60 :: r) hds hlen rfl
  have hle : ¬6 < cs.length + 1 := by simpa using hlen
  have hiff : cs.length + (r.length + 1 + 1) + 1 < cs.length + 1 + 1 + parseDecimal (c :: cs) ↔
      r.length + 1 < parseDecimal (c :: cs) := by omega
  simp only [octetCounted, htake]
  by_cases hr : r.length + 1 < parseDecimal (c :: cs) <;>
    simp [hlead, hle, hiff, not_lt.mpr hmax, hr]

end OctetCount

theorem octetCounted_lt (r : List UInt8) : octetCounted (60 :: r) = .ok .notOctetCounted := by
  simp [octetCounted, isLeadDigit]

/-! ### The loop on code words -/

theorem pushLoop_nil (frames : List (List UInt8)) (oversized : ℕ) :
    pushLoop frames oversized [] = .ok ((frames, oversized), []) := by
  simp [pushLoop]

/-- One round of the loop. -/
theorem pushLoop_of_ne_nil {buf : List UInt8} (hne : buf ≠ []) (frames : List (List UInt8))
    (oversized : ℕ) : pushLoop frames oversized buf =
      match octetCounted buf with
      | .error e => .error e
      | .ok (.frame start len) =>
          pushLoop (frames ++ [(buf.drop start).take len]) oversized (buf.drop (start + len))
      | .ok .needMore => .ok ((frames, oversized), buf)
      | .ok .notOctetCounted =>
          match buf.findIdx? isTerminator with
          | some pos =>
              if maxMessageBytes < (terminatedFrame buf pos).length then
                pushLoop frames (oversized + 1) (buf.drop (pos + 1))
              else if terminatedFrame buf pos = [] then
                pushLoop frames oversized (buf.drop (pos + 1))
              else pushLoop (frames ++ [terminatedFrame buf pos]) oversized (buf.drop (pos + 1))
          | none =>
              if maxMessageBytes < buf.length then .ok ((frames, oversized + 1), [])
              else .ok ((frames, oversized), buf) := by
  rw [pushLoop, dif_neg hne]
  split <;> simp_all

/-- The frames and the count carried along are only extended. -/
theorem pushLoop_eq_map (frames : List (List UInt8)) (oversized : ℕ) (buf : List UInt8) :
    pushLoop frames oversized buf =
      (pushLoop [] 0 buf).map fun r => ((frames ++ r.1.1, oversized + r.1.2), r.2) := by
  induction hn : buf.length using Nat.strong_induction_on generalizing frames oversized buf with
  | _ n ih =>
    by_cases hne : buf = []
    · simp [hne, pushLoop_nil, Except.map]
    have hpos : 0 < buf.length := List.length_pos_iff.mpr hne
    -- both sides continue from a shorter buffer, with other frames and counts carried along
    have hdrop : ∀ k, 0 < k → ∀ fs o, pushLoop fs o (buf.drop k) =
        (pushLoop [] 0 (buf.drop k)).map fun r => ((fs ++ r.1.1, o + r.1.2), r.2) :=
      fun k hk fs o => ih _ (by simp only [List.length_drop]; omega) fs o _ rfl
    rw [pushLoop_of_ne_nil hne, pushLoop_of_ne_nil hne]
    cases hoct : octetCounted buf with
    | error e => rfl
    | ok o =>
      cases o with
      | needMore => simp [Except.map]
      | frame start len =>
        have hstart := start_pos_of_octetCounted hoct
        simp only
        rw [hdrop _ (by omega), hdrop _ (by omega) ([] ++ _)]
        cases pushLoop [] 0 (buf.drop (start + len)) <;> simp [Except.map]
      | notOctetCounted =>
        cases hpos : buf.findIdx? isTerminator with
        | none =>
          simp only
          split_ifs <;> simp [Except.map]
        | some pos =>
          simp only
          split_ifs
          · rw [hdrop _ (by omega), hdrop _ (by omega) [] (0 + 1)]
            cases pushLoop [] 0 (buf.drop (pos + 1)) <;> simp [Except.map, Nat.add_assoc]
          · exact hdrop _ (by omega) _ _
          · rw [hdrop _ (by omega), hdrop _ (by omega) ([] ++ _)]
            cases pushLoop [] 0 (buf.drop (pos + 1)) <;> simp [Except.map]

/-- A complete octet-counted message is removed, whatever follows it. -/
theorem pushLoop_octetCounted_append {bytes : List UInt8} (hhead : bytes.head? = some 60)
    (hle : bytes.length ≤ maxMessageBytes) (t : List UInt8) (frames : List (List UInt8))
    (oversized : ℕ) :
    pushLoop frames oversized (decimal bytes.length ++ 32 :: bytes ++ t) =
      pushLoop (frames ++ [bytes]) oversized t := by
  obtain ⟨r, rfl⟩ : ∃ r, bytes = 60 :: r := List.head?_eq_some_iff.mp hhead
  obtain ⟨c, cs, hc, hlead⟩ := exists_decimal_eq_cons (n := (60 :: r).length) (by simp)
  have hparse := parseDecimal_decimal (60 :: r).length
  have hdigits : ∀ d ∈ c :: cs, isAsciiDigit d = true :=
    fun d hd => isAsciiDigit_of_mem_decimal (hc ▸ hd)
  have hoct := octetCounted_counted hlead hdigits (hc ▸ length_decimal_le hle) (r ++ t)
    (by rwa [← hc, hparse])
  rw [← hc, hparse, if_neg (by simp)] at hoct
  have hlen : (decimal (60 :: r).length ++ [32]).length = cs.length + 2 := by
    rw [hc, List.length_append]
    rfl
  have hsplit : decimal (60 :: r).length ++ 32 :: 60 :: r ++ t =
      (decimal (60 :: r).length ++ [32]) ++ (60 :: r ++ t) := by simp
  rw [pushLoop_of_ne_nil (by simp)]
  simp only [List.append_assoc, List.cons_append, hoct]
  simp only [← List.cons_append, ← List.append_assoc]
  rw [hsplit, List.drop_left' hlen, List.take_left, ← List.drop_drop, List.drop_left' hlen,
    List.drop_left]

/-- An initial segment of an octet-counted message stays in the buffer. -/
theorem pushLoop_octetCounted_isPrefix {bytes : List UInt8} (hhead : bytes.head? = some 60)
    (hle : bytes.length ≤ maxMessageBytes) {p t : List UInt8} (ht : t ≠ [])
    (hp : decimal bytes.length ++ 32 :: bytes = p ++ t) (frames : List (List UInt8))
    (oversized : ℕ) : pushLoop frames oversized p = .ok ((frames, oversized), p) := by
  by_cases hne : p = []
  · rw [hne, pushLoop_nil]
  suffices hoct : octetCounted p = .ok .needMore by
    rw [pushLoop_of_ne_nil hne, hoct]
  obtain ⟨r, rfl⟩ : ∃ r, bytes = 60 :: r := List.head?_eq_some_iff.mp hhead
  obtain ⟨c, cs, hc, hlead⟩ := exists_decimal_eq_cons (n := (60 :: r).length) (by simp)
  have hparse := parseDecimal_decimal (60 :: r).length
  have hdigit : ∀ d ∈ c :: cs, isAsciiDigit d = true :=
    fun d hd => isAsciiDigit_of_mem_decimal (hc ▸ hd)
  have hlen : (c :: cs).length ≤ 6 := hc ▸ length_decimal_le hle
  rw [hc] at hp hparse
  rcases List.append_eq_append_iff.mp hp with ⟨q, rfl, hq⟩ | ⟨q, hq, -⟩
  · -- the segment reaches past the digits
    cases q with
    | nil => simpa using octetCounted_digits hlead hdigit hlen
    | cons x q =>
      rw [List.cons_append, List.cons.injEq] at hq
      obtain ⟨rfl, hbody⟩ := hq
      cases q with
      | nil => exact octetCounted_digits_blank hlead hdigit hlen
      | cons y q =>
        rw [List.cons_append, List.cons.injEq] at hbody
        obtain ⟨rfl, rfl⟩ := hbody
        have hlt : q.length + 1 < parseDecimal (c :: cs) := by
          have := List.length_pos_iff.mpr ht
          rw [hparse, List.length_cons, List.length_append]
          omega
        rw [octetCounted_counted hlead hdigit hlen q (by rwa [hparse]), if_pos hlt]
  · -- the segment ends among the digits
    cases p with
    | nil => exact absurd rfl hne
    | cons x p =>
      rw [List.cons_append, List.cons.injEq] at hq
      obtain ⟨rfl, rfl⟩ := hq
      refine octetCounted_digits hlead (fun d hd => hdigit d ?_) ?_
      · rw [← List.cons_append]
        exact List.mem_append_left q hd
      · simp only [List.length_cons, List.length_append] at hlen ⊢
        omega

/-- A complete message in non-transparent framing is removed, whatever follows it. -/
theorem pushLoop_terminated_append {bytes : List UInt8} (hhead : bytes.head? = some 60)
    (hle : bytes.length ≤ maxMessageBytes) (hterm : ∀ c ∈ bytes, isTerminator c = false)
    (hcr : bytes.getLast? ≠ some 13) {x : UInt8} (hx : isTerminator x = true) (t : List UInt8)
    (frames : List (List UInt8)) (oversized : ℕ) :
    pushLoop frames oversized (bytes ++ x :: t) = pushLoop (frames ++ [bytes]) oversized t := by
  obtain ⟨r, rfl⟩ : ∃ r, bytes = 60 :: r := List.head?_eq_some_iff.mp hhead
  have hfind : (60 :: r ++ x :: t).findIdx? isTerminator = some (60 :: r).length := by
    rw [List.findIdx?_append, List.findIdx?_eq_none_iff.mpr hterm]
    simp [List.findIdx?_cons, hx]
  have hframe : terminatedFrame (60 :: r ++ x :: t) (60 :: r).length = 60 :: r := by
    rw [terminatedFrame, List.take_left, if_neg hcr]
  rw [pushLoop_of_ne_nil (by simp), List.cons_append, octetCounted_lt]
  simp only [← List.cons_append, hfind, hframe, if_neg (not_lt.mpr hle), if_neg (List.cons_ne_nil _ _)]
  congr 1
  rw [← List.drop_drop, List.drop_left]
  rfl

private theorem isPrefix_of_append_eq_concat {p t bytes : List UInt8} {x : UInt8} (ht : t ≠ [])
    (h : p ++ t = bytes ++ [x]) : p <+: bytes := by
  rw [← List.dropLast_concat_getLast ht, ← List.append_assoc] at h
  exact ⟨t.dropLast, (List.append_inj' h rfl).1⟩

/-- An initial segment of a message in non-transparent framing stays in the buffer. -/
theorem pushLoop_terminated_isPrefix {bytes : List UInt8} (hhead : bytes.head? = some 60)
    (hle : bytes.length ≤ maxMessageBytes) (hterm : ∀ c ∈ bytes, isTerminator c = false)
    {p : List UInt8} (hp : p <+: bytes) (frames : List (List UInt8)) (oversized : ℕ) :
    pushLoop frames oversized p = .ok ((frames, oversized), p) := by
  cases p with
  | nil => rw [pushLoop_nil]
  | cons c p =>
    obtain rfl : c = 60 := by
      obtain ⟨q, rfl⟩ := hp
      simpa using hhead
    have hfind : (60 :: p).findIdx? isTerminator = none :=
      List.findIdx?_eq_none_iff.mpr fun d hd => hterm d (hp.subset hd)
    rw [pushLoop_of_ne_nil (by simp), octetCounted_lt]
    simp only [hfind, if_neg (not_lt.mpr (hp.length_le.trans hle))]

/-! ### The round trip -/

/-- What the loop makes of a buffer, where it reports neither an error nor an oversized
message. -/
def drain (buf : List UInt8) : Option (List (List UInt8) × List UInt8) :=
  match pushLoop [] 0 buf with
  | .ok ((frames, 0), rest) => some (frames, rest)
  | _ => none

theorem drain_of_pushLoop {buf t : List UInt8} {frame : List UInt8}
    (h : pushLoop [] 0 buf = pushLoop [frame] 0 t) :
    drain buf = (drain t).map fun r => (frame :: r.1, r.2) := by
  rw [drain, h, pushLoop_eq_map, drain]
  rcases pushLoop [] 0 t with e | ⟨⟨frames, _ | n⟩, rest⟩ <;> simp [Except.map]

theorem drain_of_pushLoop_eq {buf : List UInt8} (h : pushLoop [] 0 buf = .ok (([], 0), buf)) :
    drain buf = some ([], buf) := by
  rw [drain, h]
  rfl

/-- The wire forms are a code that the framer decodes. -/
theorem isDecoder_drain : StreamDecoder.IsDecoder WireMessage.bytes WireMessage.encode drain where
  drain_nil := drain_of_pushLoop_eq (pushLoop_nil [] 0)
  complete m t := by
    apply drain_of_pushLoop
    rw [WireMessage.encode]
    cases hf : m.framing with
    | octetCounting => exact pushLoop_octetCounted_append m.head_eq m.length_le t [] 0
    | lf =>
      obtain ⟨hterm, hcr⟩ := m.terminable (by simp [hf])
      simpa using pushLoop_terminated_append m.head_eq m.length_le hterm hcr (x := 10) rfl t [] 0
    | nul =>
      obtain ⟨hterm, hcr⟩ := m.terminable (by simp [hf])
      simpa using pushLoop_terminated_append m.head_eq m.length_le hterm hcr (x := 0) rfl t [] 0
  waits m p hp hne := by
    apply drain_of_pushLoop_eq
    obtain ⟨t, ht⟩ := hp
    have htne : t ≠ [] := by
      rintro rfl
      exact hne (by simpa using ht)
    cases hf : m.framing with
    | octetCounting =>
      simp only [WireMessage.encode, hf] at ht
      exact pushLoop_octetCounted_isPrefix m.head_eq m.length_le htne ht.symm [] 0
    | lf | nul =>
      simp only [WireMessage.encode, hf] at ht
      exact pushLoop_terminated_isPrefix m.head_eq m.length_le (m.terminable (by simp [hf])).1
        (isPrefix_of_append_eq_concat htne ht) [] 0

/-- The answers to the chunks, read off the drained buffers. -/
theorem pushAll_of_feed (f : Framer) (cs : List (List UInt8)) {frames : List (List UInt8)}
    {rest : List UInt8} (h : StreamDecoder.feed drain f.buf cs = some (frames, rest)) :
    ∃ rs, f.pushAll cs = .ok (rs, ⟨rest⟩) ∧ (rs.map Prod.fst).flatten = frames ∧
      ∀ r ∈ rs, r.2 = 0 := by
  induction cs generalizing f frames with
  | nil =>
    obtain ⟨rfl, rfl⟩ := Prod.mk.inj (Option.some.inj h)
    exact ⟨[], rfl, rfl, by simp⟩
  | cons c cs ih =>
    obtain ⟨⟨fs, b⟩, hd, h⟩ := Option.bind_eq_some_iff.mp h
    obtain ⟨⟨fs', b'⟩, hfeed, h⟩ := Option.bind_eq_some_iff.mp h
    obtain ⟨rfl, rfl⟩ := Prod.mk.inj (Option.some.inj h)
    have hpush : f.push c = .ok ((fs, 0), ⟨b⟩) := by
      rw [drain] at hd
      rw [push]
      split at hd
      · next hl => simp_all [Except.map]
      · exact absurd hd (by simp)
    obtain ⟨rs, hrs, hflat, hzero⟩ := ih ⟨b⟩ hfeed
    refine ⟨(fs, 0) :: rs, ?_, by simp [hflat], by simpa using hzero⟩
    rw [pushAll, hpush]
    simp [hrs, bind, Except.bind, pure, Except.pure]

/-- **Framer round trip.** Any list of messages, each in a framing that can carry it, is read back
from the concatenation of its wire forms, however that is cut into chunks: no push fails or
discards a message, the frames of all pushes are the messages in order, and nothing is left. -/
theorem pushAll_encode (ms : List WireMessage) (cs : List (List UInt8))
    (hcs : cs.flatten = (ms.map WireMessage.encode).flatten) :
    ∃ rs f, new.pushAll cs = .ok (rs, f) ∧ (rs.map Prod.fst).flatten = ms.map WireMessage.bytes ∧
      (∀ r ∈ rs, r.2 = 0) ∧ f.buf = [] ∧ f.finish = none := by
  have hfeed := isDecoder_drain.feed_eq ms [] cs isDecoder_drain.drain_nil hcs
  obtain ⟨rs, hrs, hflat, hzero⟩ := new.pushAll_of_feed cs hfeed
  exact ⟨rs, ⟨[]⟩, hrs, hflat, hzero, rfl, by simp [finish]⟩

/-- The messages `<1>a`, octet-counted, and `<2>b`, ended by LF, received in four reads: one ends
inside the counted message, one is empty, and one ends before the terminator. -/
theorem pushAll_encode_two_messages :
    ∃ rs f, new.pushAll [[52, 32, 60, 49], [], [62, 97, 60, 50, 62, 98], [10]] = .ok (rs, f) ∧
      (rs.map Prod.fst).flatten = [[60, 49, 62, 97], [60, 50, 62, 98]] ∧
      (∀ r ∈ rs, r.2 = 0) ∧ f.buf = [] ∧ f.finish = none :=
  pushAll_encode
    [⟨[60, 49, 62, 97], .octetCounting, rfl, by decide, fun h => absurd rfl h⟩,
      ⟨[60, 50, 62, 98], .lf, rfl, by decide, fun _ => by simp [isTerminator]⟩]
    [[52, 32, 60, 49], [], [62, 97, 60, 50, 62, 98], [10]]
    (by simp [WireMessage.encode, decimal])

end Framer

end Nodeglow.SyslogRelay
