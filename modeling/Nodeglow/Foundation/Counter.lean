import Mathlib.Data.List.AList

/-!
# Counters

Dictionaries of numbers in which a missing key counts zero. One counter is added to another key by
key.

## Main definitions

* `Counter`, `Counter.get`, `Counter.add`, `Counter.merge`.
* `Counter.Positive` — no key is kept for a zero.

## Main results

* `Counter.get_add`, `Counter.get_merge`, `Counter.mem_merge` — what the operations leave.
* `Counter.Positive.add`, `Counter.Positive.merge`.
-/

namespace Nodeglow

variable {κ : Type*} [DecidableEq κ]

/-- Numbers by their keys. -/
abbrev Counter (κ : Type*) := AList fun _ : κ => ℕ

namespace Counter

variable {c d : Counter κ} {k k' : κ} {n : ℕ}

/-- The number of a key. -/
def get (c : Counter κ) (k : κ) : ℕ := (c.lookup k).getD 0

/-- The counter with a number added to that of a key. -/
def add (c : Counter κ) (k : κ) (n : ℕ) : Counter κ := c.insert k (c.get k + n)

/-- The counter with the numbers of another one added. -/
def merge (c d : Counter κ) : Counter κ := d.entries.foldl (fun c e => c.add e.1 e.2) c

/-- All numbers that are kept are positive. -/
def Positive (c : Counter κ) : Prop := ∀ k ∈ c, 0 < c.get k

@[simp]
theorem get_empty (k : κ) : get (∅ : Counter κ) k = 0 := by
  simp [get]

theorem get_add (c : Counter κ) (k : κ) (n : ℕ) (k' : κ) :
    (c.add k n).get k' = c.get k' + if k' = k then n else 0 := by
  unfold add
  rw [get]
  split
  · rename_i h
    rw [h, AList.lookup_insert, Option.getD_some]
  · rename_i h
    rw [AList.lookup_insert_ne h, Nat.add_zero, get]

@[simp]
theorem mem_add : k' ∈ c.add k n ↔ k' = k ∨ k' ∈ c := AList.mem_insert c

/-- The number of a key in a list of entries with different keys. -/
theorem get_foldl_add (l : List (Sigma fun _ : κ => ℕ)) (hl : l.NodupKeys) (c : Counter κ) (k : κ) :
    (l.foldl (fun c e => c.add e.1 e.2) c).get k = c.get k + (l.dlookup k).getD 0 := by
  induction l generalizing c with
  | nil => simp
  | cons e l ih =>
    obtain ⟨he, hl⟩ := List.nodupKeys_cons.mp hl
    rw [List.foldl_cons, ih hl, get_add]
    split
    · rename_i h
      subst h
      rw [List.dlookup_eq_none.mpr he, show (e :: l).dlookup e.1 = some e.2 from
        List.dlookup_cons_eq l e.1 e.2, Option.getD_none, Option.getD_some, Nat.add_zero]
    · rename_i h
      rw [List.dlookup_cons_ne _ _ h, Nat.add_zero]

/-- The numbers of the two counters are added. -/
theorem get_merge (c d : Counter κ) (k : κ) : (c.merge d).get k = c.get k + d.get k :=
  get_foldl_add d.entries d.nodupKeys c k

theorem mem_foldl_add (l : List (Sigma fun _ : κ => ℕ)) (c : Counter κ) (k : κ) :
    k ∈ l.foldl (fun c e => c.add e.1 e.2) c ↔ k ∈ c ∨ k ∈ l.keys := by
  induction l generalizing c with
  | nil => simp
  | cons e l ih =>
    rw [List.foldl_cons, ih, mem_add, List.keys_cons, List.mem_cons]
    tauto

@[simp]
theorem mem_merge : k ∈ c.merge d ↔ k ∈ c ∨ k ∈ d := mem_foldl_add d.entries c k

theorem Positive.empty : Positive (∅ : Counter κ) := fun k hk => absurd hk (AList.notMem_empty k)

theorem Positive.add (h : Positive c) (hn : 0 < n) : Positive (c.add k n) := by
  intro k' hk'
  rw [get_add]
  split
  · exact Nat.add_pos_right _ hn
  · rename_i hne
    exact Nat.add_pos_left (h k' ((mem_add.mp hk').resolve_left hne)) _

theorem Positive.merge (hc : Positive c) (hd : Positive d) : Positive (c.merge d) := by
  intro k hk
  rw [get_merge]
  rcases mem_merge.mp hk with hk | hk
  · exact Nat.add_pos_left (hc k hk) _
  · exact Nat.add_pos_right _ (hd k hk)

end Counter

end Nodeglow
