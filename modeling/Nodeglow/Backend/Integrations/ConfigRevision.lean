import Nodeglow.Backend.Integrations.ClusterPass
import Nodeglow.Foundation.ReadCommitted
import Nodeglow.Foundation.Run

/-!
# Edits of an integration while it is collected

The row of an integration has a revision, which every edit and every change of the collector raises.
A collection takes the content of the configuration with a stamp: the revision and the collector.
The ingest of its result reads the row, compares the stamp, and commits later, with the other
results of its unit. So a result that was collected with an outdated configuration should be
dropped.

All of them are transactions at READ COMMITTED. An edit computes the revision from the version it
has loaded, and writes only the columns it changes. Two edits that have loaded the same version give
two contents one revision, and an edit may commit after the ingest has compared the stamp and before
it commits. A lock keeps edits out only in the case that the ingest has written the row, because it
gave an integration without a group the name of its cluster.

Integrations are not deleted here, and no two collections have one name at a time.

## Main results

* `current_of_run` — where every commit of an edit is harmless, no committed result is outdated.
* `not_current` — the two races.

Source: `backend/services/integration.py`, lines 89–151; `backend/services/integration_ingest.py`,
lines 36–217; `backend/scheduler.py`, lines 178–222 and 290–335; `backend/models/integration.py`,
lines 43–75.
-/

namespace Nodeglow.Integrations.Revision

variable {κ : Type*}

/-! ### Edits -/

/-- A version of the row, with the content of its configuration as it is decrypted. By a constraint
of the table, only a probe collector has a probe. -/
structure Version (κ : Type*) extends Config where
  content : κ
  checked : collector = .probe ∨ probeId = none

/-- The collector of a version. -/
def Version.collectedBy (v : Version κ) : Collector × Option ℕ := (v.collector, v.probeId)

/-- `bump_config_rev`. -/
def bumpConfigRev (rev : ℕ) : ℕ := (if rev = 0 then 1 else rev) + 1

/-- A call of `update_config`, with what is not left unchanged, or of `assign_collector`, with the
probes of the tenant. -/
inductive Change (κ : Type*)
  | update (name : Option String) (content : Option κ) (clusterGroup : Option (Option String))
  | assign (probes : ℕ → Bool) (collector : Collector) (probeId : Option ℕ)

/-- The columns that an `UPDATE` sets. -/
structure Columns (κ : Type*) where
  name : Option String
  content : Option κ
  clusterGroup : Option (Option String)
  collector : Option Collector
  probeId : Option (Option ℕ)
  configRev : ℕ

/-- The value of a column, if it differs from the one that was loaded. -/
def changed {α : Type*} [DecidableEq α] (loaded new : α) : Option α :=
  if loaded = new then none else some new

/-- What is written for a change of the version that was loaded. A new content is encrypted anew, so
that its column always differs. There is none where `assign_collector` raises. -/
def Change.columns (loaded : Version κ) : Change κ → Option (Columns κ)
  | update name content clusterGroup =>
    some
      { name := name.bind (changed loaded.name)
        content := content
        clusterGroup := clusterGroup.bind fun g => changed loaded.clusterGroup (g.filter (· ≠ ""))
        collector := none
        probeId := none
        configRev := bumpConfigRev loaded.configRev }
  | assign probes collector probeId =>
    let assigned : Option (Option ℕ) :=
      match collector with
      | .core => some none
      | .probe => (probeId.filter probes).map some
    assigned.map fun probeId =>
      { name := none
        content := none
        clusterGroup := none
        collector := changed loaded.collector collector
        probeId := changed loaded.probeId probeId
        configRev := bumpConfigRev loaded.configRev }

/-- A version with the columns, if the constraint of the table holds of it. -/
def Columns.apply (c : Columns κ) (v : Version κ) : Option (Version κ) :=
  let collector := c.collector.getD v.collector
  let probeId := c.probeId.getD v.probeId
  if h : collector = .probe ∨ probeId = none then
    some
      { v with
        name := c.name.getD v.name
        content := c.content.getD v.content
        clusterGroup := c.clusterGroup.getD v.clusterGroup
        configRev := c.configRev
        collector := collector
        probeId := probeId
        checked := h }
  else none

/-! ### Transactions -/

/-- A collection under way: what it was started with. -/
structure Collection (κ : Type*) where
  id : ℕ
  content : κ
  stamp : CollectStamp

/-- The start of a collection. -/
def Collection.of (id : ℕ) (v : Version κ) : Collection κ :=
  ⟨id, v.content, CollectStamp.of v.toConfig⟩

/-- The collector that a collection was started with. -/
def Collection.collectedBy (c : Collection κ) : Collector × Option ℕ :=
  (c.stamp.collector, c.stamp.probeId)

/-- A result whose snapshot is saved. -/
structure Saved (κ : Type*) extends Collection κ where
  outcome : Outcome
  snapshot : Snapshot

/-- A transaction: an edit that has loaded a row, one that has written it, or an ingest, with its
saved results, and the group it has still to write. -/
inductive Txn (κ : Type*)
  | loaded (id : ℕ) (version : Version κ)
  | raised (id : ℕ)
  | ingest (saved : List (Saved κ)) (group : Option (ℕ × String))

/-- A committed result, with the version that is in force when its ingest commits. -/
structure Committed (κ : Type*) extends Saved κ where
  inForce : Version κ

structure World (κ : Type*) where
  rows : ℕ → Row ℕ (Version κ)
  txns : ℕ → Option (Txn κ)
  collections : ℕ → Option (Collection κ)
  committed : List (Committed κ)

/-- Rows without locks, and nothing under way. -/
def World.start (versions : ℕ → Version κ) : World κ :=
  ⟨fun id => .stored (versions id), fun _ => none, fun _ => none, []⟩

/-- What the transactions and the collections do. A pass has decided the owners of some groups
before a result is ingested. -/
inductive Label (κ : Type*)
  | load (t id : ℕ)
  | write (t : ℕ) (change : Change κ)
  | collect (c id : ℕ)
  | ingest (t c : ℕ) (collected : Collected) (owners : Owners)
  | group (t : ℕ)
  | commit (t : ℕ)
  | rollback (t : ℕ)

/-- The saved results of a transaction that can take another one. -/
def openIngest : Option (Txn κ) → Option (List (Saved κ))
  | none => some []
  | some (.ingest saved none) => some saved
  | _ => none

/-- The group that an ingest writes to the row, if it has none. -/
def groupOf (current : Version κ) (c : Collection κ) (collected : Collected) :
    Option (ℕ × String) :=
  match checkStamp (some current.toConfig) c.stamp, current.group, collected with
  | none, none, .success data => (autoGroup current.type data none).map (c.id, ·)
  | _, _, _ => none

/-- The saved results after another one. -/
def saveResult (current : Version κ) (c : Collection κ) (collected : Collected) (owners : Owners)
    (saved : List (Saved κ)) : List (Saved κ) :=
  let written := Integrations.ingest current.type (some current.toConfig) c.stamp collected owners
  match written.snapshot with
  | some snapshot => saved ++ [⟨c, written.outcome, snapshot⟩]
  | none => saved

/-- A step. It has no value where a transaction waits for a lock or fails. -/
def step (w : World κ) : Label κ → Option (World κ)
  | .load t id =>
    if (w.txns t).isNone then
      some { w with txns := Function.update w.txns t (some (.loaded id ((w.rows id).read t))) }
    else none
  | .write t change =>
    match w.txns t with
    | some (.loaded id version) => do
      let columns ← change.columns version
      let new ← columns.apply ((w.rows id).read t)
      let row ← (w.rows id).write t fun _ => new
      some { w with
        rows := Function.update w.rows id row
        txns := Function.update w.txns t (some (.raised id)) }
    | _ => none
  | .collect c id =>
    if (w.collections c).isNone then
      some { w with
        collections :=
          Function.update w.collections c (some (Collection.of id (w.rows id).committed)) }
    else none
  | .ingest t c collected owners => do
    let collection ← w.collections c
    let saved ← openIngest (w.txns t)
    let current := (w.rows collection.id).read t
    some { w with
      collections := Function.update w.collections c none
      txns := Function.update w.txns t (some (.ingest
        (saveResult current collection collected owners saved)
        (groupOf current collection collected))) }
  | .group t =>
    match w.txns t with
    | some (.ingest saved (some (id, group))) => do
      let row ← (w.rows id).write t fun v => { v with clusterGroup := some group }
      some { w with
        rows := Function.update w.rows id row
        txns := Function.update w.txns t (some (.ingest saved none)) }
    | _ => none
  | .commit t =>
    let rows := fun id => (w.rows id).commit t
    match w.txns t with
    | some (.raised _) => some { w with rows := rows, txns := Function.update w.txns t none }
    | some (.ingest saved none) =>
      some { w with
        rows := rows
        txns := Function.update w.txns t none
        committed := w.committed ++ saved.map fun s => ⟨s, (rows s.id).committed⟩ }
    | _ => none
  | .rollback t =>
    if (w.txns t).isSome then
      some { w with
        rows := fun id => (w.rows id).rollback t
        txns := Function.update w.txns t none }
    else none

/-! ### Outdated results -/

/-- **No committed result is outdated**: each was collected with the content and by the collector
that are in force when its ingest commits. -/
def Current (w : World κ) : Prop :=
  ∀ r ∈ w.committed, r.content = r.inForce.content ∧ r.collectedBy = r.inForce.collectedBy

/-- A new version of a row outdates no result that is not dropped for it: a collection under way
whose stamp is that of the version has its content, and a saved result that is not committed has its
content and its collector. -/
structure OutdatesNothing (w : World κ) (id : ℕ) (new : Version κ) : Prop where
  collections : ∀ c r, w.collections c = some r → r.id = id →
    checkStamp (some new.toConfig) r.stamp = none → r.content = new.content
  saved : ∀ t saved group, w.txns t = some (.ingest saved group) → ∀ r ∈ saved, r.id = id →
    r.content = new.content ∧ r.collectedBy = new.collectedBy

/-- A step that commits no edit, or one that outdates nothing. -/
def Harmless (w : World κ) : Label κ → Prop
  | .commit t =>
    match w.txns t with
    | some (.raised id) => OutdatesNothing w id ((w.rows id).read t)
    | _ => True
  | _ => True

/-! ### What one step preserves -/

/-- Two versions that no stamp and no result can tell apart. -/
structure Agrees (v v' : Version κ) : Prop where
  content : v.content = v'.content
  stamp : CollectStamp.of v.toConfig = CollectStamp.of v'.toConfig

theorem Agrees.refl (v : Version κ) : Agrees v v := ⟨rfl, rfl⟩

theorem Agrees.symm {v v' : Version κ} (h : Agrees v v') : Agrees v' v :=
  ⟨h.content.symm, h.stamp.symm⟩

theorem Agrees.checkStamp {v v' : Version κ} (h : Agrees v v') (stamp : CollectStamp) :
    checkStamp (some v.toConfig) stamp = checkStamp (some v'.toConfig) stamp := by
  simp only [Integrations.checkStamp, h.stamp]

theorem Agrees.collectedBy {v v' : Version κ} (h : Agrees v v') : v.collectedBy = v'.collectedBy :=
  congrArg (fun s : CollectStamp => (s.collector, s.probeId)) h.stamp

/-- A result that is not dropped has the stamp of the row. -/
theorem eq_of_checkStamp_eq_none {cfg : Config} {stamp : CollectStamp}
    (h : checkStamp (some cfg) stamp = none) : stamp = CollectStamp.of cfg := by
  obtain ⟨rev, collector, probeId⟩ := stamp
  simp only [checkStamp] at h
  split_ifs at h with hrev hcollector
  simp only [not_or, not_not, ne_eq] at hrev hcollector
  rw [CollectStamp.of, CollectStamp.mk.injEq]
  exact ⟨hrev.symm, hcollector.1.symm, hcollector.2.symm⟩

/-- A saved result was not dropped. -/
theorem mem_saveResult {current : Version κ} {c : Collection κ} {collected : Collected}
    {owners : Owners} {saved : List (Saved κ)} {r : Saved κ}
    (h : r ∈ saveResult current c collected owners saved) :
    r ∈ saved ∨ r.toCollection = c ∧ checkStamp (some current.toConfig) c.stamp = none := by
  unfold saveResult at h
  dsimp only at h
  split at h
  · rename_i snapshot hsnapshot
    rcases List.mem_append.mp h with hold | hnew
    · exact .inl hold
    · obtain rfl := List.mem_singleton.mp hnew
      refine .inr ⟨rfl, ?_⟩
      cases hstamp : checkStamp (some current.toConfig) c.stamp with
      | none => rfl
      | some rejected => simp [Integrations.ingest, hstamp] at hsnapshot
  · exact .inl h

/-- **What every step preserves**, as long as it commits no edit that outdates a result: the
committed versions outdate nothing, and an open ingest has written nothing that could. -/
structure Inv (w : World κ) : Prop where
  outdatesNothing : ∀ id, OutdatesNothing w id (w.rows id).committed
  agrees : ∀ t saved group, w.txns t = some (.ingest saved group) → ∀ id,
    Agrees ((w.rows id).read t) (w.rows id).committed
  writers : ∀ t id, (w.rows id).writer = some t →
    w.txns t = some (.raised id) ∨ ∃ saved group, w.txns t = some (.ingest saved group)
  current : Current w

variable {w w' : World κ} {id t : ℕ} {new : Version κ} {txn : Option (Txn κ)}

theorem OutdatesNothing.of_agrees {v v' : Version κ} (h : OutdatesNothing w id v)
    (hagrees : Agrees v v') : OutdatesNothing w id v' where
  collections c r hr hid hstamp :=
    (h.collections c r hr hid ((hagrees.checkStamp _).trans hstamp)).trans hagrees.content
  saved t saved group ht r hr hid :=
    ⟨((h.saved t saved group ht r hr hid).1).trans hagrees.content,
      ((h.saved t saved group ht r hr hid).2).trans hagrees.collectedBy⟩

/-- What is outdated depends on the collections and the open ingests only. -/
theorem OutdatesNothing.mono (h : OutdatesNothing w id new)
    (hcollections : ∀ c r, w'.collections c = some r → w.collections c = some r)
    (hsaved : ∀ t saved group, w'.txns t = some (.ingest saved group) →
      ∃ group, w.txns t = some (.ingest saved group)) : OutdatesNothing w' id new where
  collections c r hr := h.collections c r (hcollections c r hr)
  saved t saved group ht := by
    obtain ⟨group', ht'⟩ := hsaved t saved group ht
    exact h.saved t saved group' ht'

/-- An open ingest, after a transaction has become something else. -/
theorem ingest_of_update {t' : ℕ} {saved : List (Saved κ)} {group : Option (ℕ × String)}
    (htxn : ∀ saved group, txn ≠ some (.ingest saved group))
    (h : Function.update w.txns t txn t' = some (.ingest saved group)) :
    t' ≠ t ∧ w.txns t' = some (.ingest saved group) := by
  by_cases heq : t' = t
  · subst heq
    rw [Function.update_self] at h
    exact absurd h (htxn saved group)
  · exact ⟨heq, by rwa [Function.update_of_ne heq] at h⟩

/-- A version that a transaction without a lock sees is the committed one. -/
theorem Inv.read_of_not_writer (h : Inv w) (ht : w.txns t = none) :
    (w.rows id).read t = (w.rows id).committed := by
  refine Row.read_of_writer_ne fun hwriter => ?_
  rcases h.writers t id hwriter with hraised | ⟨saved, group, hingest⟩
  · cases ht.symm.trans hraised
  · cases ht.symm.trans hingest

/-- The end of another transaction leaves the version that an ingest sees. -/
theorem Agrees.ended {r r' : Row ℕ (Version κ)} {t' : ℕ} (h : Agrees (r.read t') r.committed)
    (hended : r.Ended t r') : Agrees (r'.read t') r'.committed := by
  cases hended with
  | kept => exact h
  | closed v => exact .refl v

/-- A transaction that is no ingest ends, or begins, without a lock. -/
theorem Inv.of_update (h : Inv w) (htxn : ∀ saved group, txn ≠ some (.ingest saved group))
    (hidle : w.txns t = none) : Inv { w with txns := Function.update w.txns t txn } where
  outdatesNothing id := (h.outdatesNothing id).mono (fun _ _ hr => hr) fun t' saved group ht' =>
    ⟨group, (ingest_of_update htxn ht').2⟩
  agrees t' saved group ht' := h.agrees t' saved group (ingest_of_update htxn ht').2
  writers t' id hwriter := by
    have hne : t' ≠ t := by
      rintro rfl
      rcases h.writers t' id hwriter with hraised | ⟨saved, group, hingest⟩
      · cases hidle.symm.trans hraised
      · cases hidle.symm.trans hingest
    dsimp only
    rw [Function.update_of_ne hne]
    exact h.writers t' id hwriter
  current := h.current

/-- A transaction writes a row. If it is an ingest then, it was one, and what it has written agrees
with what is committed. -/
theorem Inv.lock {f : Version κ → Version κ} {row : Row ℕ (Version κ)} (h : Inv w)
    (hrow : (w.rows id).write t f = some row)
    (hingest : ∀ saved group, txn = some (.ingest saved group) →
      (∃ group, w.txns t = some (.ingest saved group)) ∧ Agrees (row.read t) row.committed)
    (hwriters : ∀ id', id' = id ∨ (w.rows id').writer = some t →
      txn = some (.raised id') ∨ ∃ saved group, txn = some (.ingest saved group)) :
    Inv { w with
      rows := Function.update w.rows id row
      txns := Function.update w.txns t txn } := by
  obtain ⟨-, hcommitted, hwriter, -⟩ := Row.write_eq_some hrow
  have hopen {t' : ℕ} {saved : List (Saved κ)} {group : Option (ℕ × String)}
      (ht' : Function.update w.txns t txn t' = some (.ingest saved group)) :
      ∃ group, w.txns t' = some (.ingest saved group) := by
    by_cases heq : t' = t
    · rw [heq, Function.update_self] at ht'
      exact heq ▸ (hingest saved group ht').1
    · rw [Function.update_of_ne heq] at ht'
      exact ⟨_, ht'⟩
  refine ⟨fun id' => ?_, fun t' saved group ht' id' => ?_, fun t' id' hwriter' => ?_, h.current⟩
  · have hsame : (Function.update w.rows id row id').committed = (w.rows id').committed := by
      by_cases heq : id' = id
      · rw [heq, Function.update_self, hcommitted]
      · rw [Function.update_of_ne heq]
    dsimp only
    rw [hsame]
    exact (h.outdatesNothing id').mono (fun _ _ hr => hr) fun t' saved group ht' => hopen ht'
  · obtain ⟨group', hold⟩ := hopen ht'
    dsimp only at ht' ⊢
    by_cases heq : id' = id
    · rw [heq, Function.update_self]
      by_cases htt' : t' = t
      · rw [htt', Function.update_self] at ht'
        exact htt' ▸ (hingest saved group ht').2
      · rw [Row.read_of_writer_ne (by simpa [hwriter] using Ne.symm htt')]
        exact .refl _
    · rw [Function.update_of_ne heq]
      exact h.agrees t' saved group' hold id'
  · dsimp only at hwriter' ⊢
    by_cases htt' : t' = t
    · rw [htt', Function.update_self]
      refine hwriters id' ((em (id' = id)).imp_right fun heq => ?_)
      rwa [Function.update_of_ne heq, htt'] at hwriter'
    · rw [Function.update_of_ne htt']
      by_cases heq : id' = id
      · rw [heq, Function.update_self] at hwriter'
        exact absurd (Option.some.inj (hwriter.symm.trans hwriter')).symm htt'
      · rw [Function.update_of_ne heq] at hwriter'
        exact h.writers t' id' hwriter'

theorem Inv.write {version : Version κ} {f : Version κ → Version κ} {row : Row ℕ (Version κ)}
    (h : Inv w) (ht : w.txns t = some (.loaded id version))
    (hrow : (w.rows id).write t f = some row) :
    Inv { w with
      rows := Function.update w.rows id row
      txns := Function.update w.txns t (some (.raised id)) } := by
  refine h.lock hrow (by simp) fun id' hid => ?_
  rcases hid with rfl | hwriter
  · exact .inl rfl
  · rcases h.writers t id' hwriter with hraised | ⟨saved, group, hingest⟩
    · cases ht.symm.trans hraised
    · cases ht.symm.trans hingest

theorem Inv.collect {c : ℕ} (h : Inv w) :
    Inv { w with
      collections :=
        Function.update w.collections c (some (Collection.of id (w.rows id).committed)) } where
  outdatesNothing id' :=
    { collections := by
        intro c' r hr hid hstamp
        dsimp only at hr
        by_cases heq : c' = c
        · rw [heq, Function.update_self] at hr
          obtain rfl := Option.some.inj hr
          obtain rfl : id = id' := hid
          rfl
        · rw [Function.update_of_ne heq] at hr
          exact (h.outdatesNothing id').collections c' r hr hid hstamp
      saved := (h.outdatesNothing id').saved }
  agrees := h.agrees
  writers := h.writers
  current := h.current

theorem Inv.ingest {c : ℕ} {collection : Collection κ} {saved : List (Saved κ)}
    {collected : Collected} {owners : Owners} {group : Option (ℕ × String)} (h : Inv w)
    (hc : w.collections c = some collection) (ht : openIngest (w.txns t) = some saved) :
    Inv { w with
      collections := Function.update w.collections c none
      txns := Function.update w.txns t (some (.ingest
        (saveResult ((w.rows collection.id).read t) collection collected owners saved)
        group)) } := by
  -- What the transaction sees tells nothing but the committed version.
  have hopen : w.txns t = none ∧ saved = [] ∨ w.txns t = some (.ingest saved none) := by
    cases htxn : w.txns t with
    | none =>
      rw [htxn] at ht
      exact .inl ⟨rfl, (Option.some.inj ht).symm⟩
    | some txn =>
      rw [htxn] at ht
      match txn with
      | .loaded _ _ | .raised _ | .ingest _ (some _) => cases ht
      | .ingest saved' none =>
        obtain rfl := Option.some.inj ht
        exact .inr rfl
  have hagrees (id : ℕ) : Agrees ((w.rows id).read t) (w.rows id).committed := by
    rcases hopen with ⟨hidle, -⟩ | hopen
    · rw [h.read_of_not_writer hidle]
      exact .refl _
    · exact h.agrees t saved none hopen id
  refine ⟨fun id => ⟨fun c' r hr => ?_, fun t' saved' group' ht' r hr hid => ?_⟩,
    fun t' saved' group' ht' id => ?_, fun t' id hwriter => ?_, h.current⟩
  · dsimp only at hr
    by_cases heq : c' = c
    · rw [heq, Function.update_self] at hr
      cases hr
    · rw [Function.update_of_ne heq] at hr
      exact (h.outdatesNothing id).collections c' r hr
  · dsimp only at ht'
    by_cases heq : t' = t
    · rw [heq, Function.update_self] at ht'
      obtain ⟨rfl, rfl⟩ := Txn.ingest.inj (Option.some.inj ht')
      rcases mem_saveResult hr with hold | ⟨hcollection, hstamp⟩
      · rcases hopen with ⟨-, rfl⟩ | hopen
        · cases hold
        · exact (h.outdatesNothing id).saved t saved none hopen r hold hid
      · obtain rfl : collection.id = id := hcollection ▸ hid
        have hcommitted := ((hagrees collection.id).checkStamp _).symm.trans hstamp
        refine ⟨?_, ?_⟩
        · rw [hcollection]
          exact (h.outdatesNothing _).collections c collection hc rfl hcommitted
        · rw [hcollection, Collection.collectedBy, eq_of_checkStamp_eq_none hcommitted]
          rfl
    · rw [Function.update_of_ne heq] at ht'
      exact (h.outdatesNothing id).saved t' saved' group' ht' r hr hid
  · dsimp only at ht'
    by_cases heq : t' = t
    · rw [heq]
      exact hagrees id
    · rw [Function.update_of_ne heq] at ht'
      exact h.agrees t' saved' group' ht' id
  · dsimp only
    by_cases heq : t' = t
    · rw [heq, Function.update_self]
      exact .inr ⟨_, _, rfl⟩
    · rw [Function.update_of_ne heq]
      exact h.writers t' id hwriter

/-- An ingest writes a group, which no stamp and no result tells. -/
theorem Inv.group {saved : List (Saved κ)} {group : String} {row : Row ℕ (Version κ)} (h : Inv w)
    (ht : w.txns t = some (.ingest saved (some (id, group))))
    (hrow : ((w.rows id).write t fun v => { v with clusterGroup := some group }) = some row) :
    Inv { w with
      rows := Function.update w.rows id row
      txns := Function.update w.txns t (some (.ingest saved none)) } := by
  refine h.lock hrow (fun saved' group' heq => ?_) fun _ _ => .inr ⟨_, _, rfl⟩
  obtain ⟨rfl, -⟩ := Txn.ingest.inj (Option.some.inj heq)
  obtain ⟨-, hcommitted, -, hread⟩ := Row.write_eq_some hrow
  have hbefore := h.agrees t saved _ ht id
  rw [hread, hcommitted]
  exact ⟨⟨_, ht⟩, hbefore.content, hbefore.stamp⟩

/-- A transaction ends: nothing is outdated by what is committed then, and no result is committed
that is outdated. -/
theorem Inv.ended {rows : ℕ → Row ℕ (Version κ)} {committed : List (Committed κ)} (h : Inv w)
    (hrows : ∀ id, (w.rows id).Ended t (rows id))
    (hnew : ∀ id, OutdatesNothing w id (rows id).committed)
    (hcurrent : ∀ r ∈ committed, r.content = r.inForce.content ∧
      r.collectedBy = r.inForce.collectedBy) :
    Inv { w with
      rows := rows
      txns := Function.update w.txns t none
      committed := committed } where
  outdatesNothing id := (hnew id).mono (fun _ _ hr => hr) fun t' saved group ht' =>
    ⟨group, (ingest_of_update (by simp) ht').2⟩
  agrees t' saved group ht' id :=
    (h.agrees t' saved group (ingest_of_update (by simp) ht').2 id).ended (hrows id)
  writers t' id hwriter := by
    obtain ⟨hne, hold⟩ := (hrows id).writer hwriter
    dsimp only
    rw [Function.update_of_ne hne]
    exact h.writers t' id hold
  current := hcurrent

/-- **A harmless step** keeps the invariant. -/
theorem Inv.step {a : Label κ} (h : Inv w) (hharmless : Harmless w a)
    (hstep : step w a = some w') : Inv w' := by
  cases a with
  | load t id =>
    obtain ⟨hidle, hw'⟩ := Option.ite_none_right_eq_some.mp hstep
    rw [← Option.some.inj hw']
    exact h.of_update (by simp) (Option.isNone_iff_eq_none.mp hidle)
  | write t change =>
    simp only [Revision.step] at hstep
    split at hstep
    · rename_i id version ht
      obtain ⟨columns, -, hstep⟩ := Option.bind_eq_some_iff.mp hstep
      obtain ⟨new, -, hstep⟩ := Option.bind_eq_some_iff.mp hstep
      obtain ⟨row, hrow, hstep⟩ := Option.bind_eq_some_iff.mp hstep
      rw [← Option.some.inj hstep]
      exact h.write ht hrow
    · cases hstep
  | collect c id =>
    obtain ⟨-, hw'⟩ := Option.ite_none_right_eq_some.mp hstep
    rw [← Option.some.inj hw']
    exact h.collect
  | ingest t c collected owners =>
    obtain ⟨collection, hc, hstep⟩ := Option.bind_eq_some_iff.mp hstep
    obtain ⟨saved, ht, hstep⟩ := Option.bind_eq_some_iff.mp hstep
    rw [← Option.some.inj hstep]
    exact h.ingest hc ht
  | group t =>
    simp only [Revision.step] at hstep
    split at hstep
    · rename_i saved id group ht
      obtain ⟨row, hrow, hstep⟩ := Option.bind_eq_some_iff.mp hstep
      rw [← Option.some.inj hstep]
      exact h.group ht hrow
    · cases hstep
  | commit t =>
    simp only [Revision.step] at hstep
    split at hstep
    · rename_i id ht
      rw [← Option.some.inj hstep]
      refine h.ended (fun id => Row.ended_commit) (fun id' => ?_) h.current
      by_cases hwriter : (w.rows id').writer = some t
      · rw [Row.committed_commit hwriter]
        rcases h.writers t id' hwriter with hraised | ⟨saved, group, hingest⟩
        · obtain rfl := Txn.raised.inj (Option.some.inj (ht.symm.trans hraised))
          simpa only [Harmless, ht] using hharmless
        · cases ht.symm.trans hingest
      · rw [Row.commit_of_writer_ne hwriter]
        exact h.outdatesNothing id'
    · rename_i saved ht
      rw [← Option.some.inj hstep]
      have hcommitted (id : ℕ) : Agrees (w.rows id).committed ((w.rows id).commit t).committed := by
        by_cases hwriter : (w.rows id).writer = some t
        · rw [Row.committed_commit hwriter]
          exact (h.agrees t saved none ht id).symm
        · rw [Row.commit_of_writer_ne hwriter]
          exact .refl _
      have hnew (id : ℕ) := (h.outdatesNothing id).of_agrees (hcommitted id)
      refine h.ended (fun id => Row.ended_commit) hnew fun r hr => ?_
      rcases List.mem_append.mp hr with hold | hr
      · exact h.current r hold
      · obtain ⟨s, hs, rfl⟩ := List.mem_map.mp hr
        exact (hnew s.id).saved t saved none ht s hs rfl
    · cases hstep
  | rollback t =>
    obtain ⟨-, hw'⟩ := Option.ite_none_right_eq_some.mp hstep
    rw [← Option.some.inj hw']
    refine h.ended (fun id => Row.ended_rollback) (fun id => ?_) h.current
    rw [Row.committed_rollback]
    exact h.outdatesNothing id

theorem inv_start (versions : ℕ → Version κ) : Inv (World.start versions) where
  outdatesNothing _ :=
    { collections := fun _ _ hr => by cases hr
      saved := fun _ _ _ ht => by cases ht }
  agrees _ _ _ ht := by cases ht
  writers _ _ hwriter := by cases hwriter
  current _ hr := by cases hr

/-! ### Runs -/

/-- **Where every commit of an edit is harmless, no committed result is outdated.** -/
theorem current_of_run (versions : ℕ → Version κ) {l : List (Label κ)}
    (h : Run (Guarded Harmless fun w a w' => step w a = some w') (World.start versions) l w) :
    Current w :=
  (h.invariant (fun _ _ _ hinv hstep => hinv.step hstep.1 hstep.2) (inv_start versions)).current

/-- An integration that the core collects. -/
def sampleVersion (content : String) : Version String where
  id := 1
  type := "pihole"
  name := "dns"
  clusterGroup := none
  configRev := 1
  collector := .core
  probeId := none
  content := content
  checked := .inr rfl

/-- An edit of the address. -/
def editAddress (t : ℕ) (content : String) : List (Label String) :=
  [.load t 1, .write t (.update none (some content) none), .commit t]

/-- A result that is ingested. -/
def ingestFirst : Label String := .ingest 9 0 (.failure "timed out") []

/-- A collection after an edit. -/
theorem current_of_run_edited :
    ∃ w, Run (fun w a w' => step w a = some w') (World.start fun _ => sampleVersion "a")
        (editAddress 0 "b" ++ [.collect 0 1, ingestFirst, .commit 9]) w ∧
      w.committed.map (fun r => (r.content, r.outcome)) = [("b", .failed)] ∧ Current w := by
  have hraised (t : ℕ) (saved : List (Saved String)) (group : Option (ℕ × String)) :
      Function.update (Function.update (World.start fun _ => sampleVersion "a").txns 0
        (some (.loaded 1 (sampleVersion "a")))) 0 (some (.raised 1)) t ≠
        some (.ingest saved group) := by
    simp only [Function.update_apply]
    split <;> simp [World.start]
  refine ⟨_, Run.of_foldlM rfl, rfl, current_of_run (fun _ => sampleVersion "a")
    (l := editAddress 0 "b" ++ [.collect 0 1, ingestFirst, .commit 9]) ?_⟩
  refine .cons ⟨trivial, rfl⟩ (.cons ⟨trivial, rfl⟩ ?_)
  refine .cons ⟨⟨fun _ _ hr => (by cases hr), fun t saved group ht => ?_⟩, rfl⟩ ?_
  · exact absurd ht (hraised t saved group)
  · exact .cons ⟨trivial, rfl⟩ (.cons ⟨trivial, rfl⟩ (.cons ⟨trivial, rfl⟩ (.nil _)))

/-- **The two races**: two edits get one revision, the second after the collection has begun; and an
edit commits between the comparison and the commit of the ingest. -/
theorem not_current :
    (∃ w, Run (fun w a w' => step w a = some w') (World.start fun _ => sampleVersion "a")
        ([.load 0 1] ++ editAddress 1 "b" ++ [.collect 0 1] ++
          [.write 0 (.update none (some "c") none), .commit 0, ingestFirst, .commit 9]) w ∧
        ¬Current w) ∧
      ∃ w, Run (fun w a w' => step w a = some w') (World.start fun _ => sampleVersion "a")
        ([.collect 0 1, ingestFirst] ++ editAddress 0 "b" ++ [.commit 9]) w ∧ ¬Current w := by
  constructor
  · refine ⟨_, Run.of_foldlM rfl, fun h => ?_⟩
    exact absurd (h _ (List.mem_singleton_self _)).1 (by decide)
  · refine ⟨_, Run.of_foldlM rfl, fun h => ?_⟩
    exact absurd (h _ (List.mem_singleton_self _)).1 (by decide)

end Nodeglow.Integrations.Revision
