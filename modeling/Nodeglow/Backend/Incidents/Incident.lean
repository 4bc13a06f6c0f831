import Mathlib.Algebra.Order.Field.Rat
import Mathlib.Data.List.Dedup
import Mathlib.Data.List.Sort

/-!
# Incidents

A tenant's incidents, and the function through which they are opened and extended
(`_find_or_create_incident`). An evaluation names a rule and what the incident is about; while an
incident of that rule with the same key is open, the evaluation extends it, and otherwise it opens a
new one. The key is a hash of the sorted ids of the hosts, or one that the caller gives.

The hash is shortened SHA-256, of which only the digest function is a parameter here. Of an incident
the columns are here that one of the modelled functions reads or writes. Incident events and the
texts of their summaries are not.

## Main results

* `joinIds_injective` — the text that is hashed tells the hosts.
* `findOrCreate_cases` — what an evaluation does.
* `Store.Valid.findOrCreate`, `Store.Valid.writes` — the operations keep the table valid, and on a
  valid table no evaluation raises.
* `exists_row_of_writes`, `forall_row_of_writes` — what writes keep of one row, and of all rows.

Source: `backend/services/correlation.py`, lines 66–68 and 124–222; `backend/models/incident.py`;
`backend/routers/api_v1.py`, lines 1808–1861.
-/

namespace Nodeglow.Incidents

/-! ### The table -/

/-- `Incident.severity`. -/
inductive Severity
  | info | warning | critical
deriving DecidableEq, Repr

/-- How severe it is. -/
def Severity.rank : Severity → ℕ
  | info => 0
  | warning => 1
  | critical => 2

instance : LinearOrder Severity :=
  LinearOrder.lift' Severity.rank fun a b h => by cases a <;> cases b <;> first | rfl | cases h

/-- `Incident.status`: `open`, `acknowledged` and `resolved`. -/
inductive Status
  | opened | acknowledged | resolved
deriving DecidableEq, Repr

structure Incident where
  id : ℕ
  rule : String
  title : String
  severity : Severity
  status : Status
  hostIdsHash : Option String
  /-- The hosts on record. NULL means that they are not known. -/
  hostIds : Option (List ℕ)
  updatedAt : ℚ
  resolvedAt : Option ℚ
  precursorTemplate : Option String
deriving DecidableEq, Repr

/-- `status.in_(["open", "acknowledged"])`. -/
def Incident.live (i : Incident) : Bool := i.status ≠ .resolved

/-- A notification, with the incident to which it links. -/
structure Note where
  title : String
  severity : Severity
  incidentId : ℕ
deriving DecidableEq, Repr

/-- A tenant's incidents, and the next number of the sequence. -/
structure Store where
  rows : List Incident
  next : ℕ
deriving DecidableEq, Repr

/-! ### Keys and hosts -/

/-- `",".join(str(i) for i in ids)`. -/
def joinIds (ids : List ℕ) : String :=
  String.ofList (List.intercalate [','] (ids.map fun i => (toString i).toList))

/-- `_host_ids_hash`. -/
def hostIdsHash (digest : String → String) (ids : List ℕ) : String :=
  digest (joinIds (ids.insertionSort (· ≤ ·)))

/-- `affected_host_ids_json`, as the list that it encodes. -/
def affectedHostIds (ids : List ℕ) : List ℕ :=
  (ids.filter fun i => 0 < i).dedup.insertionSort (· ≤ ·)

theorem toList_toString (n : ℕ) : (toString n).toList = Nat.toDigits 10 n := by
  simp

theorem isDigit_of_mem_toString {n : ℕ} {c : Char} (hc : c ∈ (toString n).toList) :
    c.isDigit = true := by
  rw [toList_toString] at hc
  exact Nat.isDigit_of_mem_toDigits (by decide) (by decide) hc

theorem toString_injective : Function.Injective fun n : ℕ => (toString n).toList := by
  intro m n hmn
  simp only [toList_toString] at hmn
  rw [← Nat.ofDigitChars_ten_toDigits (n := m), hmn, Nat.ofDigitChars_ten_toDigits]

/-- The text of a list of ids can be read back. -/
theorem joinIds_injective : Function.Injective joinIds := by
  have hcomma : ∀ ids : List ℕ, ∀ l ∈ ids.map fun i => (toString i).toList, ',' ∉ l := by
    intro ids l hl hmem
    obtain ⟨i, -, rfl⟩ := List.mem_map.mp hl
    exact absurd (isDigit_of_mem_toString hmem) (by decide)
  have hnil : ∀ ids, List.intercalate [','] (ids.map fun i : ℕ => (toString i).toList) = [] →
      ids = [] := by
    intro ids h
    cases ids with
    | nil => rfl
    | cons i ids =>
      cases ids with
      | nil => simp [List.intercalate] at h
      | cons j ids => simp [List.intercalate] at h
  intro a b hab
  have hlist := String.ofList_injective hab
  by_cases ha : a = []
  · subst ha
    exact (hnil b hlist.symm).symm
  by_cases hb : b = []
  · subst hb
    exact hnil a hlist
  have hsplit := congrArg (List.splitOn ',') hlist
  rw [List.splitOn_intercalate _ (hcomma a) (by simpa using ha),
    List.splitOn_intercalate _ (hcomma b) (by simpa using hb)] at hsplit
  exact toString_injective.list_map hsplit

/-- Without collisions the key tells the hosts. -/
theorem insertionSort_eq_of_hostIdsHash {digest : String → String}
    (hdigest : Function.Injective digest) {a b : List ℕ}
    (h : hostIdsHash digest a = hostIdsHash digest b) :
    a.insertionSort (· ≤ ·) = b.insertionSort (· ≤ ·) :=
  joinIds_injective (hdigest h)

/-- The arguments of `_find_or_create_incident`. -/
structure Evaluation where
  rule : String
  title : String
  severity : Severity
  hostIds : List ℕ
  keyHash : Option String
  sendNotification : Bool
  affected : Option (List ℕ)
deriving DecidableEq, Repr

namespace Evaluation

/-- `key_hash or _host_ids_hash(host_ids)`. -/
def hash (digest : String → String) (e : Evaluation) : String :=
  match e.keyHash with
  | some key => if key = "" then hostIdsHash digest e.hostIds else key
  | none => hostIdsHash digest e.hostIds

/-- The hosts to record. -/
def recorded (e : Evaluation) : Option (List ℕ) :=
  match e.affected, e.keyHash with
  | some ids, _ => some (affectedHostIds ids)
  | none, none => some (affectedHostIds e.hostIds)
  | none, some _ => none

end Evaluation

/-! ### Opening and extending -/

/-- The query for the open incident of a rule with a key. -/
def Incident.Has (rule key : String) (i : Incident) : Prop :=
  i.live = true ∧ i.rule = rule ∧ i.hostIdsHash = some key

instance (rule key : String) (i : Incident) : Decidable (i.Has rule key) :=
  inferInstanceAs (Decidable (_ ∧ _))

/-- A change of the rows one by one. -/
def Store.change (s : Store) (f : Incident → Incident) : Store := { s with rows := s.rows.map f }

/-- A change of the incident with an id. -/
def Store.modify (s : Store) (id : ℕ) (f : Incident → Incident) : Store :=
  s.change fun i => if i.id = id then f i else i

/-- An incident as an evaluation extends it. The ORM sets `updated_at` with every update. -/
def Incident.extend (now : ℚ) (e : Evaluation) (i : Incident) : Incident :=
  { i with hostIds := e.recorded.or i.hostIds, updatedAt := now }

/-- An incident as an evaluation opens it. -/
def Evaluation.incident (digest : String → String) (now : ℚ) (e : Evaluation) (id : ℕ) : Incident :=
  { id := id
    rule := e.rule
    title := e.title
    severity := e.severity
    status := .opened
    hostIdsHash := some (e.hash digest)
    hostIds := e.recorded
    updatedAt := now
    resolvedAt := none
    precursorTemplate := none }

/-- The notification of a new incident. -/
def Evaluation.note (e : Evaluation) (id : ℕ) : Note := ⟨"🔴 Incident: " ++ e.title, e.severity, id⟩

/-- `_find_or_create_incident`: the table, the id of the incident, and what it sends. With several
open incidents of the rule and the key `scalar_one_or_none` raises. -/
def findOrCreate (digest : String → String) (now : ℚ) (e : Evaluation) (s : Store) :
    Option (Store × ℕ × List Note) :=
  match s.rows.filter fun i => i.Has e.rule (e.hash digest) with
  | [] =>
    some ({ rows := s.rows ++ [e.incident digest now s.next], next := s.next + 1 }, s.next,
      if e.sendNotification then [e.note s.next] else [])
  | [existing] => some (s.modify existing.id (Incident.extend now e), existing.id, [])
  | _ => none

/-- An incident as it is resolved. -/
def Incident.resolve (now : ℚ) (i : Incident) : Incident :=
  { i with status := .resolved, resolvedAt := some now, updatedAt := now }

/-- `acknowledge_incident`, for an incident that is not resolved. -/
def Incident.acknowledge (now : ℚ) (i : Incident) : Incident :=
  if i.live then { i with status := .acknowledged, updatedAt := now } else i

/-- **What an evaluation does**: it extends the open incident of its rule and key, or opens one. -/
theorem findOrCreate_cases {digest : String → String} {now : ℚ} {e : Evaluation} {s s' : Store}
    {id : ℕ} {notes : List Note} (h : findOrCreate digest now e s = some (s', id, notes)) :
    (∃ i ∈ s.rows, i.Has e.rule (e.hash digest) ∧ id = i.id ∧
      s' = s.modify i.id (Incident.extend now e) ∧ notes = []) ∨
    ((∀ i ∈ s.rows, ¬ i.Has e.rule (e.hash digest)) ∧ id = s.next ∧
      s' = { rows := s.rows ++ [e.incident digest now s.next], next := s.next + 1 } ∧
      notes = if e.sendNotification then [e.note s.next] else []) := by
  unfold findOrCreate at h
  cases hfound : s.rows.filter fun i => i.Has e.rule (e.hash digest) with
  | nil =>
    simp only [hfound, Option.some.injEq, Prod.mk.injEq] at h
    obtain ⟨rfl, rfl, rfl⟩ := h
    exact .inr ⟨by simpa using hfound, rfl, rfl, rfl⟩
  | cons i rest =>
    cases rest with
    | nil =>
      simp only [hfound, Option.some.injEq, Prod.mk.injEq] at h
      obtain ⟨rfl, rfl, rfl⟩ := h
      have hi : i ∈ s.rows.filter fun i => i.Has e.rule (e.hash digest) := by simp [hfound]
      rw [List.mem_filter, decide_eq_true_iff] at hi
      exact .inl ⟨i, hi.1, hi.2, rfl, rfl, rfl⟩
    | cons j rest => simp [hfound] at h

/-! ### Valid tables -/

/-- The ids are numbers of the sequence, and at most one open incident has a rule and a key. -/
structure Store.Valid (s : Store) : Prop where
  lt : ∀ i ∈ s.rows, i.id < s.next
  ids : (s.rows.map Incident.id).Nodup
  keyed : ∀ i ∈ s.rows, ∀ j ∈ s.rows, ∀ rule key, i.Has rule key → j.Has rule key → i = j

/-- The table of a new tenant. -/
def Store.empty (next : ℕ) : Store := ⟨[], next⟩

theorem valid_empty (next : ℕ) : (Store.empty next).Valid :=
  ⟨by simp [Store.empty], by simp [Store.empty], by simp [Store.empty]⟩

variable {digest : String → String} {now : ℚ} {e : Evaluation} {s s' : Store} {i j : Incident}
  {id : ℕ} {f : Incident → Incident} {notes : List Note}

/-- A change that leaves the id, the rule and the key alone, and opens nothing. -/
structure Keeps (f : Incident → Incident) : Prop where
  id : ∀ i, (f i).id = i.id
  rule : ∀ i, (f i).rule = i.rule
  hash : ∀ i, (f i).hostIdsHash = i.hostIdsHash
  live : ∀ i, (f i).live = true → i.live = true

theorem keeps_extend (now : ℚ) (e : Evaluation) : Keeps (Incident.extend now e) :=
  ⟨fun _ => rfl, fun _ => rfl, fun _ => rfl, fun _ => id⟩

theorem keeps_resolve (now : ℚ) : Keeps (Incident.resolve now) where
  id _ := rfl
  rule _ := rfl
  hash _ := rfl
  live _ h := by simp [Incident.live, Incident.resolve] at h

theorem keeps_acknowledge (now : ℚ) : Keeps (Incident.acknowledge now) := by
  constructor <;> intro i <;> unfold Incident.acknowledge <;> split <;> simp_all

theorem Keeps.has (h : Keeps f) {rule key : String} (hf : (f i).Has rule key) : i.Has rule key :=
  ⟨h.live i hf.1, (h.rule i).symm.trans hf.2.1, (h.hash i).symm.trans hf.2.2⟩

theorem Keeps.comp {g : Incident → Incident} (hg : Keeps g) (hf : Keeps f) : Keeps (g ∘ f) where
  id i := (hg.id _).trans (hf.id i)
  rule i := (hg.rule _).trans (hf.rule i)
  hash i := (hg.hash _).trans (hf.hash i)
  live i h := hf.live i (hg.live _ h)

theorem Keeps.ite (h : Keeps f) (p : Incident → Prop) [DecidablePred p] :
    Keeps fun i => if p i then f i else i where
  id i := by
    split
    · exact h.id i
    · rfl
  rule i := by
    split
    · exact h.rule i
    · rfl
  hash i := by
    split
    · exact h.hash i
    · rfl
  live i := by
    split
    · exact h.live i
    · exact fun h => h

theorem Store.mem_modify : j ∈ (s.modify id f).rows ↔
    (∃ i ∈ s.rows, i.id = id ∧ j = f i) ∨ j ∈ s.rows ∧ j.id ≠ id := by
  simp only [Store.modify, Store.change, List.mem_map]
  constructor
  · rintro ⟨i, hi, rfl⟩
    split
    · rename_i hid
      exact .inl ⟨i, hi, hid, rfl⟩
    · rename_i hid
      exact .inr ⟨hi, hid⟩
  · rintro (⟨i, hi, hid, rfl⟩ | ⟨hj, hid⟩)
    · exact ⟨i, hi, if_pos hid⟩
    · exact ⟨j, hj, if_neg hid⟩

namespace Store.Valid

theorem eq_of_id (h : s.Valid) (hi : i ∈ s.rows) (hj : j ∈ s.rows) (hid : i.id = j.id) : i = j :=
  List.inj_on_of_nodup_map h.ids hi hj hid

/-- A change of the rows one by one. -/
theorem change (h : s.Valid) (hf : Keeps f) : (s.change f).Valid := by
  have hmap : (s.change f).rows.map Incident.id = s.rows.map Incident.id := by
    rw [Store.change, List.map_map]
    exact List.map_congr_left fun i _ => hf.id i
  refine ⟨fun j hj => ?_, hmap ▸ h.ids, fun j hj k hk rule key hjhas hkhas => ?_⟩
  · obtain ⟨i, hi, rfl⟩ := List.mem_map.mp hj
    rw [hf.id]
    exact h.lt i hi
  · obtain ⟨i, hi, rfl⟩ := List.mem_map.mp hj
    obtain ⟨i', hi', rfl⟩ := List.mem_map.mp hk
    exact congrArg f (h.keyed i hi i' hi' rule key (hf.has hjhas) (hf.has hkhas))

theorem modify (h : s.Valid) (hf : Keeps f) : (s.modify id f).Valid :=
  h.change (hf.ite fun i => i.id = id)

theorem skip (h : s.Valid) (n : ℕ) : Store.Valid { s with next := s.next + n } :=
  ⟨fun i hi => Nat.lt_add_right n (h.lt i hi), h.ids, h.keyed⟩

/-- A table to which an incident is added that has the rule and the key of no open one. -/
theorem add (h : s.Valid) (hi : i.id = s.next)
    (hnew : ∀ j ∈ s.rows, ∀ rule key, i.Has rule key → ¬ j.Has rule key) :
    Store.Valid { rows := s.rows ++ [i], next := s.next + 1 } := by
  have hmem : ∀ j ∈ s.rows ++ [i], j ∈ s.rows ∨ j = i := by
    intro j hj
    exact (List.mem_append.mp hj).imp_right List.mem_singleton.mp
  refine ⟨fun j hj => ?_, ?_, fun j hj k hk rule key hjhas hkhas => ?_⟩
  · rcases hmem j hj with hj | rfl
    · exact Nat.lt_succ_of_lt (h.lt j hj)
    · exact hi ▸ Nat.lt_succ_self _
  · rw [List.map_append, List.map_singleton, List.nodup_append]
    refine ⟨h.ids, by simp, fun x hx y hy => ?_⟩
    obtain ⟨j, hj, rfl⟩ := List.mem_map.mp hx
    rw [List.mem_singleton.mp hy, hi]
    exact (h.lt j hj).ne
  · rcases hmem j hj with hj | hj <;> rcases hmem k hk with hk | hk
    · exact h.keyed j hj k hk rule key hjhas hkhas
    · exact absurd hjhas (hnew j hj rule key (hk ▸ hkhas))
    · exact absurd hkhas (hnew k hk rule key (hj ▸ hjhas))
    · exact hj.trans hk.symm

theorem findOrCreate (h : s.Valid)
    (hs : Incidents.findOrCreate digest now e s = some (s', id, notes)) : s'.Valid := by
  rcases findOrCreate_cases hs with ⟨i, hi, hhas, rfl, rfl, -⟩ | ⟨hnone, rfl, rfl, -⟩
  · exact h.modify (keeps_extend now e)
  · refine h.add rfl fun j hj rule key hnew hjhas => hnone j hj ?_
    obtain ⟨-, rfl, hkey⟩ := hnew
    obtain rfl := Option.some.inj hkey
    exact hjhas

/-- On a valid table no evaluation raises. -/
theorem exists_findOrCreate (h : s.Valid) (digest : String → String) (now : ℚ) (e : Evaluation) :
    ∃ r, Incidents.findOrCreate digest now e s = some r := by
  unfold Incidents.findOrCreate
  cases hfound : s.rows.filter fun i => i.Has e.rule (e.hash digest) with
  | nil => exact ⟨_, rfl⟩
  | cons i rest =>
    cases rest with
    | nil => exact ⟨_, rfl⟩
    | cons j rest =>
      have hmem : ∀ k ∈ [i, j], k ∈ s.rows ∧ k.Has e.rule (e.hash digest) := by
        intro k hk
        have : k ∈ s.rows.filter fun i => i.Has e.rule (e.hash digest) := by
          rw [hfound]
          simp only [List.mem_cons, List.not_mem_nil, or_false] at hk ⊢
          tauto
        simpa using this
      have heq := h.keyed i (hmem i (by simp)).1 j (hmem j (by simp)).1 _ _
        (hmem i (by simp)).2 (hmem j (by simp)).2
      have hnodup : (s.rows.filter fun i => i.Has e.rule (e.hash digest)).Nodup :=
        (List.Nodup.of_map _ h.ids).filter _
      rw [hfound, heq] at hnodup
      simp at hnodup

/-- The incident that an evaluation reaches is in the table, open, with its rule, its key, and the
hosts that the evaluation records. The others are as before. -/
theorem exists_row_of_findOrCreate (h : s.Valid)
    (hs : Incidents.findOrCreate digest now e s = some (s', id, notes)) :
    (∃ r ∈ s'.rows, r.id = id ∧ r.Has e.rule (e.hash digest) ∧
      (e.recorded ≠ none → r.hostIds = e.recorded)) ∧
    ∀ i ∈ s.rows, (i.id ≠ id → i ∈ s'.rows) ∧ (i.id = id → i.Has e.rule (e.hash digest)) := by
  rcases findOrCreate_cases hs with ⟨k, hk, hhas, rfl, rfl, -⟩ | ⟨-, rfl, rfl, -⟩
  · refine ⟨⟨k.extend now e, Store.mem_modify.mpr (.inl ⟨k, hk, rfl, rfl⟩), rfl, hhas, ?_⟩,
      fun i hi => ⟨fun hid => Store.mem_modify.mpr (.inr ⟨hi, hid⟩), fun hid => ?_⟩⟩
    · intro hrecorded
      obtain ⟨ids, hids⟩ := Option.ne_none_iff_exists'.mp hrecorded
      simp [Incident.extend, hids]
    · rwa [h.eq_of_id hi hk hid]
  · refine ⟨⟨e.incident digest now s.next, by simp, rfl, ⟨rfl, rfl, rfl⟩, fun _ => rfl⟩,
      fun i hi => ⟨fun _ => List.mem_append_left _ hi, fun hid => ?_⟩⟩
    exact absurd hid (h.lt i hi).ne

end Store.Valid

/-! ### Writes -/

/-- What happens to a table. A sequence goes on when a transaction that used it is rolled back. -/
inductive Write
  | evaluated (now : ℚ) (e : Evaluation)
  | changed (f : Incident → Incident)
  | skipped (n : ℕ)

/-- The table after a write. -/
def Write.apply (digest : String → String) (s : Store) : Write → Option Store
  | .evaluated now e => (findOrCreate digest now e s).map Prod.fst
  | .changed f => some (s.change f)
  | .skipped n => some { s with next := s.next + n }

/-- A table becomes another by writes of a kind. -/
def Writes (digest : String → String) (P : Write → Prop) : Store → Store → Prop :=
  Relation.ReflTransGen fun s s' => ∃ w, P w ∧ w.apply digest s = some s'

namespace Writes

variable {P Q : Write → Prop}

theorem evaluated (hs : findOrCreate digest now e s = some (s', id, notes))
    (hP : P (.evaluated now e)) : Writes digest P s s' :=
  .single ⟨.evaluated now e, hP, by rw [Write.apply, hs]; rfl⟩

theorem changed (s : Store) (hP : P (.changed f)) : Writes digest P s (s.change f) :=
  .single ⟨.changed f, hP, rfl⟩

theorem skipped (s : Store) (n : ℕ) (hP : P (.skipped n)) :
    Writes digest P s { s with next := s.next + n } :=
  .single ⟨.skipped n, hP, rfl⟩

theorem mono (h : Writes digest P s s') (hPQ : ∀ w, P w → Q w) : Writes digest Q s s' := by
  induction h with
  | refl => exact .refl
  | tail _ hw ih =>
    obtain ⟨w, hP, hw⟩ := hw
    exact ih.tail ⟨w, hPQ w hP, hw⟩

/-- What every write of the kind preserves holds of the table that it becomes. -/
theorem invariant {I : Store → Prop} (h : Writes digest P s s')
    (hstep : ∀ s w s', P w → I s → w.apply digest s = some s' → I s') (hs : I s) : I s' := by
  induction h with
  | refl => exact hs
  | tail _ hw ih =>
    obtain ⟨w, hP, hw⟩ := hw
    exact hstep _ w _ hP ih hw

end Writes

/-- A write that changes rows keeps the id, the rule and the key of every row. -/
def Write.Regular : Write → Prop
  | .changed f => Keeps f
  | _ => True

theorem Write.cases {w : Write} (hw : w.apply digest s = some s') :
    (∃ now e id notes, w = .evaluated now e ∧ Incidents.findOrCreate digest now e s =
      some (s', id, notes)) ∨
    (∃ f, w = .changed f ∧ s' = s.change f) ∨
    (∃ n, w = .skipped n ∧ s' = { s with next := s.next + n }) := by
  cases w with
  | evaluated now e =>
    obtain ⟨⟨s'', id, notes⟩, hs, rfl⟩ := Option.map_eq_some_iff.mp hw
    exact .inl ⟨now, e, id, notes, rfl, hs⟩
  | changed f => exact .inr (.inl ⟨f, rfl, (Option.some.inj hw).symm⟩)
  | skipped n => exact .inr (.inr ⟨n, rfl, (Option.some.inj hw).symm⟩)

theorem Store.Valid.apply {w : Write} (h : s.Valid) (hP : w.Regular)
    (hw : w.apply digest s = some s') : s'.Valid := by
  rcases w.cases hw with ⟨now, e, id, notes, -, hs⟩ | ⟨f, rfl, rfl⟩ | ⟨n, -, rfl⟩
  · exact h.findOrCreate hs
  · exact h.change hP
  · exact h.skip n

theorem Store.Valid.writes (h : s.Valid) (hw : Writes digest Write.Regular s s') : s'.Valid :=
  hw.invariant (fun _ _ _ hP hs hw => hs.apply hP hw) h

theorem next_le_of_writes {P : Write → Prop} (hw : Writes digest P s s') : s.next ≤ s'.next := by
  refine hw.invariant (I := fun t => s.next ≤ t.next) ?_ le_rfl
  intro t w t' _ ht hw
  rcases w.cases hw with ⟨now, e, id, notes, -, hs⟩ | ⟨f, -, rfl⟩ | ⟨n, -, rfl⟩
  · rcases findOrCreate_cases hs with ⟨i, -, -, -, rfl, -⟩ | ⟨-, -, rfl, -⟩
    · exact ht
    · exact Nat.le_succ_of_le ht
  · exact ht
  · exact Nat.le_add_right_of_le ht

section Rows

variable {P : Write → Prop} {R : Incident → Prop}

/-- A row stays in the table under writes that keep what is known of it. -/
theorem exists_row_of_writes (hw : Writes digest P s s')
    (hextend : ∀ now e i, R i → R (Incident.extend now e i))
    (hchange : ∀ f i, P (.changed f) → R i → R (f i)) (hs : ∃ i ∈ s.rows, R i) :
    ∃ i ∈ s'.rows, R i := by
  refine hw.invariant (I := fun s => ∃ i ∈ s.rows, R i) ?_ hs
  rintro s w s' hP ⟨i, hi, hR⟩ hw
  rcases w.cases hw with ⟨now, e, id, notes, rfl, hs⟩ | ⟨f, rfl, rfl⟩ | ⟨n, rfl, rfl⟩
  · rcases findOrCreate_cases hs with ⟨k, hk, -, rfl, rfl, -⟩ | ⟨-, rfl, rfl, -⟩
    · refine ⟨_, List.mem_map_of_mem hi, ?_⟩
      split
      · exact hextend now e i hR
      · exact hR
    · exact ⟨i, List.mem_append_left _ hi, hR⟩
  · exact ⟨f i, List.mem_map_of_mem hi, hchange f i hP hR⟩
  · exact ⟨i, hi, hR⟩

/-- What holds of every row stays true when it holds of what is opened, and when the writes keep
it. -/
theorem forall_row_of_writes (hvalid : s.Valid) (hw : Writes digest P s s')
    (hregular : ∀ w, P w → w.Regular)
    (hopen : ∀ now e id, P (.evaluated now e) → R (e.incident digest now id))
    (hextend : ∀ now e i, P (.evaluated now e) → i.Has e.rule (e.hash digest) → R i →
      R (Incident.extend now e i))
    (hchange : ∀ f i, P (.changed f) → R i → R (f i)) (hs : ∀ i ∈ s.rows, R i) :
    ∀ i ∈ s'.rows, R i := by
  refine (hw.invariant (I := fun s => s.Valid ∧ ∀ i ∈ s.rows, R i) ?_ ⟨hvalid, hs⟩).2
  rintro s w s' hP ⟨hvalid, hs⟩ hw
  refine ⟨hvalid.apply (hregular w hP) hw, fun j hj => ?_⟩
  rcases w.cases hw with ⟨now, e, id, notes, rfl, hs'⟩ | ⟨f, rfl, rfl⟩ | ⟨n, rfl, rfl⟩
  · rcases findOrCreate_cases hs' with ⟨k, hk, hhas, rfl, rfl, -⟩ | ⟨-, rfl, rfl, -⟩
    · rcases Store.mem_modify.mp hj with ⟨i, hi, hid, rfl⟩ | ⟨hj, -⟩
      · obtain rfl := hvalid.eq_of_id hi hk hid
        exact hextend now e i hP hhas (hs i hi)
      · exact hs j hj
    · rcases List.mem_append.mp hj with hj | hj
      · exact hs j hj
      · rw [List.mem_singleton.mp hj]
        exact hopen now e _ hP
  · obtain ⟨i, hi, rfl⟩ := List.mem_map.mp hj
    exact hchange f i hP (hs i hi)
  · exact hs j hj

end Rows

end Nodeglow.Incidents
