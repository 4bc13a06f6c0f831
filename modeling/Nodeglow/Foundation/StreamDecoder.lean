import Mathlib.Data.List.Basic

/-!
# Decoding a stream of code words that arrives in chunks

A decoder keeps a buffer. When bytes arrive it appends them and drains the buffer: it removes the
code words that are complete, returns their messages, and leaves the rest for later. The function
`drain` maps a buffer to the messages and the rest, and has no value where the decoder reports a
fault.

Two properties make such a decoder independent of how the stream is cut into chunks. A complete
code word at the front is removed whatever follows it, and a proper initial segment of a code
word, the empty one included, is left as it is (`IsDecoder`). Then the chunks of any stream of
code words give exactly its messages and leave an empty buffer (`IsDecoder.feed_eq`).

## Main definitions

* `StreamDecoder.feed` — the chunks fed one after another.
* `StreamDecoder.IsDecoder` — the two properties above, for a relation of code words.

## Main results

* `StreamDecoder.IsDecoder.drain_of_isPrefix` — draining an initial segment of a stream.
* `StreamDecoder.IsDecoder.feed_eq` — chunk independence.
-/

namespace Nodeglow.StreamDecoder

variable {ι β μ : Type*}

/-- Feed the chunks one after another from the buffer `b`; the messages are concatenated. -/
def feed (drain : List β → Option (List μ × List β)) :
    List β → List (List β) → Option (List μ × List β)
  | b, [] => some ([], b)
  | b, c :: cs => do
      let r ← drain (b ++ c)
      let r' ← feed drain r.2 cs
      return (r.1 ++ r'.1, r'.2)

/-- The decoder removes a complete code word `code i` at the front, with the message `msg i`, and
waits inside of one. -/
structure IsDecoder (msg : ι → μ) (code : ι → List β)
    (drain : List β → Option (List μ × List β)) : Prop where
  complete : ∀ i t, drain (code i ++ t) = (drain t).map fun r => (msg i :: r.1, r.2)
  waits : ∀ i p, p <+: code i → p ≠ code i → drain p = some ([], p)
  drain_nil : drain [] = some ([], [])

namespace IsDecoder

variable {msg : ι → μ} {code : ι → List β} {drain : List β → Option (List μ × List β)}

/-- Draining an initial segment of a stream gives the messages of the code words it completes,
and leaves a buffer from which the rest of the stream continues. -/
theorem drain_of_isPrefix (h : IsDecoder msg code drain) (is : List ι) (x y : List β)
    (hxy : x ++ y = (is.map code).flatten) :
    ∃ done rest b, is = done ++ rest ∧ drain x = some (done.map msg, b) ∧
      drain b = some ([], b) ∧ b ++ y = (rest.map code).flatten := by
  induction is generalizing x with
  | nil =>
    obtain ⟨rfl, rfl⟩ : x = [] ∧ y = [] := by simpa using hxy
    exact ⟨[], [], [], rfl, h.drain_nil, h.drain_nil, rfl⟩
  | cons i is ih =>
    rw [List.map_cons, List.flatten_cons] at hxy
    rcases List.append_eq_append_iff.mp hxy with ⟨t, ht, hy⟩ | ⟨t, hx, ht⟩
    · -- the segment ends inside the first code word, or with its last byte
      by_cases hne : x = code i
      · have hnil : t = [] := by
          have hlen := congrArg List.length ht
          rw [hne, List.length_append] at hlen
          exact List.eq_nil_of_length_eq_zero (by omega)
        refine ⟨[i], is, [], rfl, ?_, h.drain_nil, by simpa [hnil] using hy⟩
        have hc := h.complete i []
        rw [List.append_nil, h.drain_nil] at hc
        rw [hne]
        simpa using hc
      · have hwait := h.waits i x ⟨t, ht.symm⟩ hne
        refine ⟨[], i :: is, x, rfl, hwait, hwait, ?_⟩
        rw [List.map_cons, List.flatten_cons, ht, hy, List.append_assoc]
    · obtain ⟨done, rest, b, rfl, hd, hstay, hb⟩ := ih t ht.symm
      refine ⟨i :: done, rest, b, rfl, ?_, hstay, hb⟩
      rw [hx, h.complete, hd]
      rfl

/-- **Chunk independence.** However a stream of code words is cut into chunks, feeding them gives
the messages in order and leaves the buffer empty. -/
theorem feed_eq (h : IsDecoder msg code drain) (is : List ι) (b : List β) (cs : List (List β))
    (hb : drain b = some ([], b)) (hcs : b ++ cs.flatten = (is.map code).flatten) :
    feed drain b cs = some (is.map msg, []) := by
  induction cs generalizing b is with
  | nil =>
    -- the buffer holds the whole stream, and draining it changes nothing
    obtain ⟨done, rest, b', rfl, hd, -, hb'⟩ := h.drain_of_isPrefix is b [] hcs
    obtain ⟨hdone, rfl⟩ := Prod.mk.inj (Option.some.inj (hb.symm.trans hd))
    obtain rfl : done = [] := List.map_eq_nil_iff.mp hdone.symm
    cases rest with
    | nil => simpa [feed] using hb'
    | cons i rest =>
      have hc := h.complete i (rest.map code).flatten
      rw [← List.flatten_cons, ← List.map_cons, ← hb', List.append_nil, hb] at hc
      obtain ⟨r, -, hr⟩ := Option.map_eq_some_iff.mp hc.symm
      exact absurd (congrArg Prod.fst hr) (List.cons_ne_nil _ _)
  | cons c cs ih =>
    rw [List.flatten_cons, ← List.append_assoc] at hcs
    obtain ⟨done, rest, b', rfl, hd, hstay, hb'⟩ := h.drain_of_isPrefix is (b ++ c) cs.flatten hcs
    simp [feed, hd, ih rest b' hstay hb']

end IsDecoder

end Nodeglow.StreamDecoder
