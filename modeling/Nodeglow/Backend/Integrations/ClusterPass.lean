import Nodeglow.Foundation.ByKey
import Mathlib.Data.List.Pairwise

/-!
# One stored snapshot for each cluster

A collection pass collects the integrations that are due. Several integrations may watch one
cluster; those of one group form a unit, and every other one is a unit of its own. The members of a
unit are collected at the same time, and their results are written in the order of their ids, one
unit after the other, in any order of the units. The first result of a group that was collected
becomes its primary: its data is stored. The others of the group are standby, with a marker instead
of data. A Proxmox integration without a group takes the name of its cluster, so that another unit
may have decided its group before.

The primary is decided before its data is written as JSON. When the data cannot be written the
result counts as failed, but the group keeps its primary, and no other member is stored.

A result is dropped when the config was edited meanwhile. A database that fails is not part of this
file, nor are the incidents, the bandwidth series and the hooks.

## Main results

* `exists_stored_iff` — when a group has a stored member.
* `oneStored_iff` — exactly when a pass stores one snapshot for each cluster.
* `not_oneStored_unwritable` — a primary whose data cannot be written.

Source: `backend/services/integration_ingest.py`, lines 33–80 and 113–223; `backend/scheduler.py`,
lines 133–222 and 278–341; `backend/services/snapshot.py`, lines 15–47.
-/

namespace Nodeglow.Integrations

local instance lawfulBEq_groupKey : LawfulBEq (String × String) := inferInstance

/-! ### One result -/

/-- `COLLECTOR_CORE`, `COLLECTOR_PROBE`. -/
inductive Collector
  | core | probe
deriving DecidableEq, Repr

/-- `IntegrationConfig`. -/
structure Config where
  id : ℕ
  type : String
  name : String
  clusterGroup : Option String
  configRev : ℕ
  collector : Collector
  probeId : Option ℕ
deriving DecidableEq, Repr

/-- `cluster_group`, where the empty text counts as none. -/
def Config.group (cfg : Config) : Option String := cfg.clusterGroup.filter (· ≠ "")

/-- `CollectStamp`. -/
structure CollectStamp where
  configRev : ℕ
  collector : Collector
  probeId : Option ℕ
deriving DecidableEq, Repr

/-- `CollectStamp.of`. -/
def CollectStamp.of (cfg : Config) : CollectStamp := ⟨cfg.configRev, cfg.collector, cfg.probeId⟩

/-- `Outcome`. -/
inductive Outcome
  | stored | failed | standby | deleted | staleConfigRev | notAssigned
deriving DecidableEq, Repr

/-- `check_stamp`: why a result is dropped. -/
def checkStamp (cfg : Option Config) (stamp : CollectStamp) : Option Outcome :=
  match cfg with
  | none => some .deleted
  | some cfg =>
    let current := CollectStamp.of cfg
    if current.configRev ≠ stamp.configRev then some .staleConfigRev
    else if current.collector ≠ stamp.collector ∨ current.probeId ≠ stamp.probeId then
      some .notAssigned
    else if stamp.collector = .probe ∧ stamp.probeId = none then some .notAssigned
    else none

/-- The data of a result: what `json.dumps` makes of it, if there is any, or the text of what it
raises; and the text of its `cluster_name`. -/
structure Data where
  json : Except String (Option String)
  clusterName : Option String

/-- The result of a collect. -/
inductive Collected
  | raised (error : String)
  | failure (error : String)
  | success (data : Data)

/-- `Snapshot`. -/
structure Snapshot where
  entityType : String
  entityId : ℕ
  ok : Bool
  dataJson : Option String
  error : Option String
  collectedBy : Option ℕ
deriving DecidableEq, Repr

/-- `STANDBY_MARKER`. -/
def standbyMarker : String := "[standby:duplicate-of-primary]"

/-- `cluster_owners`: the types and groups whose primary is decided. -/
abbrev Owners := List (String × String)

/-- The group of a config for a result: a Proxmox config without one takes the name of its
cluster. -/
def autoGroup (integrationType : String) (data : Data) (group : Option String) : Option String :=
  if integrationType = "proxmox" ∧ group = none then data.clusterName.filter (· ≠ "") else group

/-- What `ingest` leaves: the outcome, the owners, and the snapshot it saves. -/
structure Written where
  outcome : Outcome
  owners : Owners
  snapshot : Option Snapshot

/-- The snapshot of a failed result. -/
def failedSnapshot (integrationType : String) (cfg : Config) (stamp : CollectStamp)
    (error : String) : Snapshot :=
  ⟨integrationType, cfg.id, false, none, some error,
    if stamp.collector = .probe then stamp.probeId else none⟩

/-- The snapshot of a result that is collected, with its data, or with the marker. -/
def okSnapshot (integrationType : String) (cfg : Config) (stamp : CollectStamp)
    (dataJson error : Option String) : Snapshot :=
  ⟨integrationType, cfg.id, true, dataJson, error,
    if stamp.collector = .probe then stamp.probeId else none⟩

/-- The end of `ingest` for a primary. When its data cannot be written the result has failed. -/
def storePrimary (integrationType : String) (cfg : Config) (stamp : CollectStamp) (data : Data)
    (owners : Owners) : Written :=
  match data.json with
  | .ok json => ⟨.stored, owners, some (okSnapshot integrationType cfg stamp json none)⟩
  | .error error => ⟨.failed, owners, some (failedSnapshot integrationType cfg stamp error)⟩

/-- `ingest`. -/
def ingest (integrationType : String) (current : Option Config) (stamp : CollectStamp)
    (collected : Collected) (owners : Owners) : Written :=
  match current, checkStamp current stamp with
  | _, some rejected => ⟨rejected, owners, none⟩
  | none, none => ⟨.deleted, owners, none⟩
  | some cfg, none =>
    match collected with
    | .raised error | .failure error =>
      ⟨.failed, owners, some (failedSnapshot integrationType cfg stamp error)⟩
    | .success data =>
      match (autoGroup integrationType data cfg.group).map (integrationType, ·) with
      | none => storePrimary integrationType cfg stamp data owners
      | some groupKey =>
        if groupKey ∈ owners then
          ⟨.standby, owners,
            some (okSnapshot integrationType cfg stamp none (some standbyMarker))⟩
        else storePrimary integrationType cfg stamp data (groupKey :: owners)

/-! ### A pass -/

/-- A config that is due, as it was when its collect was decided on, with its result, and as it is
when the result is written. With every edit its revision is a new one. -/
structure Due where
  row : Config
  collected : Collected
  current : Option Config
  edited : ∀ cfg ∈ current, cfg.configRev = row.configRev → cfg.clusterGroup = row.clusterGroup

/-- The units of a pass: for each type the configs without a group, and then the groups. -/
def unitsOf (dues : List Due) : List (List Due) :=
  (firstByKey (fun m : Due => m.row.type) dues).flatMap fun t =>
    let ofType := dues.filter fun m => m.row.type = t.1
    (ofType.filter fun m => m.row.group = none).map (fun m => [m]) ++
      (firstByKey (fun m : Due => m.row.group) (ofType.filter fun m => m.row.group ≠ none)).map
        fun g => ofType.filter fun m => m.row.group = g.1

/-- `_apply_result`. -/
def applyResult (m : Due) (owners : Owners) : Written :=
  ingest m.row.type m.current (CollectStamp.of m.row) m.collected owners

/-- The outcomes of members, one after the other, and the owners. -/
def ingestMembers : List Due → Owners → List (Due × Outcome) × Owners
  | [], owners => ([], owners)
  | m :: rest, owners =>
    let written := applyResult m owners
    let out := ingestMembers rest written.owners
    ((m, written.outcome) :: out.1, out.2)

/-- The outcomes of units, one after the other. -/
def runUnits : List (List Due) → Owners → List (List (Due × Outcome))
  | [], _ => []
  | unit :: rest, owners =>
    let out := ingestMembers unit owners
    out.1 :: runUnits rest out.2

namespace Due

/-- The result is not dropped. -/
def accepted (m : Due) : Bool := (checkStamp m.current (CollectStamp.of m.row)).isNone

/-- The result is not dropped, and it was collected. -/
def succeeds (m : Due) : Bool :=
  m.accepted && match m.collected with
    | .success _ => true
    | _ => false

/-- The result is not dropped, was collected, and its data can be written. -/
def storable (m : Due) : Bool :=
  m.accepted && match m.collected with
    | .success data => data.json.toBool
    | _ => false

/-- The type and the group of a result that was collected. -/
def key (m : Due) : Option (String × String) :=
  match m.collected with
  | .success data => (autoGroup m.row.type data m.row.group).map (m.row.type, ·)
  | _ => none

/-- The result was collected for a group. -/
def claims (groupKey : String × String) (m : Due) : Bool := m.succeeds && m.key = some groupKey

end Due

/-- **One stored snapshot for each cluster**, by the outcomes of the members of each unit. -/
structure OneStored (units : List (List (Due × Outcome))) : Prop where
  /-- No two configs of one type and group are stored. -/
  atMostOne : ∀ x ∈ units.flatten, ∀ y ∈ units.flatten, x.2 = .stored → y.2 = .stored →
    ∀ groupKey, x.1.key = some groupKey → y.1.key = some groupKey → x.1.row.id = y.1.row.id
  /-- The stored member of a unit has the smallest id of those that were collected. -/
  smallest : ∀ unit ∈ units, ∀ x ∈ unit, ∀ y ∈ unit, x.2 = .stored → y.1.succeeds = true →
    x.1.row.id ≤ y.1.row.id
  /-- The others that were collected are standby. -/
  standby : ∀ unit ∈ units, ∀ x ∈ unit, ∀ y ∈ unit, x.1.succeeds = true → y.1.succeeds = true →
    x.1.row.id < y.1.row.id → y.2 = .standby
  /-- Those that fail have failed. -/
  failed : ∀ x ∈ units.flatten, x.1.accepted = true → x.1.succeeds = false → x.2 = .failed
  /-- A member that can be stored is stored, or another member of its group is. -/
  kept : ∀ x ∈ units.flatten, x.1.storable = true → x.2 = .stored ∨
    ∃ groupKey, x.1.key = some groupKey ∧
      ∃ y ∈ units.flatten, y.2 = .stored ∧ y.1.key = some groupKey

/-! ### One result -/

variable {m : Due} {owners : Owners} {groupKey : String × String} {ms rest : List Due}

/-- The group of a result that is not dropped is the one that it was collected with. -/
theorem group_of_accepted (h : m.accepted = true) :
    ∃ cfg, m.current = some cfg ∧ cfg.group = m.row.group := by
  unfold Due.accepted at h
  cases hcurrent : m.current with
  | none => simp [hcurrent, checkStamp] at h
  | some cfg =>
    refine ⟨cfg, rfl, ?_⟩
    have hrev : cfg.configRev = m.row.configRev := by
      by_contra hne
      simp [hcurrent, checkStamp, CollectStamp.of, hne] at h
    rw [Config.group, Config.group, m.edited cfg hcurrent hrev]

theorem checkStamp_ne_stored {current : Option Config} {stamp : CollectStamp} :
    checkStamp current stamp ≠ some .stored := by
  unfold checkStamp
  cases current with
  | none => simp
  | some cfg =>
    dsimp only
    split_ifs <;> simp

theorem applyResult_of_dropped (h : m.accepted = false) :
    (applyResult m owners).outcome ≠ .stored ∧ (applyResult m owners).owners = owners := by
  have hsome : (checkStamp m.current (CollectStamp.of m.row)).isSome = true := by
    simpa [Due.accepted] using h
  obtain ⟨rejected, hrejected⟩ := Option.isSome_iff_exists.mp hsome
  have happly : applyResult m owners = ⟨rejected, owners, none⟩ := by
    simp only [applyResult, ingest, hrejected]
  rw [happly]
  refine ⟨?_, rfl⟩
  rintro rfl
  exact checkStamp_ne_stored hrejected

/-- A result that is not dropped, by what was collected. -/
theorem applyResult_of_accepted (h : m.accepted = true) (owners : Owners) :
    ∃ cfg, cfg.group = m.row.group ∧ applyResult m owners =
      match m.collected with
      | .raised error | .failure error =>
        ⟨.failed, owners, some (failedSnapshot m.row.type cfg (CollectStamp.of m.row) error)⟩
      | .success data =>
        match (autoGroup m.row.type data m.row.group).map (m.row.type, ·) with
        | none => storePrimary m.row.type cfg (CollectStamp.of m.row) data owners
        | some groupKey =>
          if groupKey ∈ owners then
            ⟨.standby, owners, some (okSnapshot m.row.type cfg (CollectStamp.of m.row) none
              (some standbyMarker))⟩
          else storePrimary m.row.type cfg (CollectStamp.of m.row) data (groupKey :: owners) := by
  obtain ⟨cfg, hcurrent, hgroup⟩ := group_of_accepted h
  refine ⟨cfg, hgroup, ?_⟩
  have hstamp : checkStamp (some cfg) (CollectStamp.of m.row) = none := by
    simpa [Due.accepted, hcurrent] using h
  simp only [applyResult, ingest, hcurrent, hstamp, hgroup]

theorem storePrimary_of_storable {integrationType : String} {cfg : Config} {stamp : CollectStamp}
    {data : Data} (h : m.accepted = true) (hdata : m.collected = .success data) :
    (storePrimary integrationType cfg stamp data owners).outcome =
        (if m.storable then .stored else .failed) ∧
      (storePrimary integrationType cfg stamp data owners).owners = owners := by
  unfold storePrimary Due.storable
  rw [h, hdata]
  cases hjson : data.json with
  | ok json => simp [hjson, Except.toBool]
  | error error => simp [hjson, Except.toBool]

/-- A result that was not collected has failed. -/
theorem applyResult_of_fails (h : m.accepted = true) (hfails : m.succeeds = false) :
    (applyResult m owners).outcome = .failed ∧ (applyResult m owners).owners = owners := by
  obtain ⟨cfg, -, happly⟩ := applyResult_of_accepted h owners
  rw [happly]
  cases hcollected : m.collected with
  | raised error => exact ⟨rfl, rfl⟩
  | failure error => exact ⟨rfl, rfl⟩
  | success data => simp [Due.succeeds, h, hcollected] at hfails

theorem accepted_of_succeeds (h : m.succeeds = true) : m.accepted = true ∧
    ∃ data, m.collected = .success data := by
  unfold Due.succeeds at h
  cases hcollected : m.collected with
  | success data => exact ⟨by simpa [hcollected] using h, data, rfl⟩
  | raised error => simp [hcollected] at h
  | failure error => simp [hcollected] at h

/-- A result without a group is stored, if its data can be. -/
theorem applyResult_of_noKey (h : m.succeeds = true) (hkey : m.key = none) :
    (applyResult m owners).outcome = (if m.storable then .stored else .failed) ∧
      (applyResult m owners).owners = owners := by
  obtain ⟨haccepted, data, hdata⟩ := accepted_of_succeeds h
  obtain ⟨cfg, -, happly⟩ := applyResult_of_accepted haccepted owners
  simp only [Due.key, hdata] at hkey
  simp only [happly, hdata, hkey]
  exact storePrimary_of_storable haccepted hdata

/-- A result of a group that has a primary is standby. -/
theorem applyResult_of_mem (h : m.claims groupKey = true) (hmem : groupKey ∈ owners) :
    (applyResult m owners).outcome = .standby ∧ (applyResult m owners).owners = owners := by
  obtain ⟨hsucceeds, hkey⟩ := Bool.and_eq_true_iff.mp h
  obtain ⟨haccepted, data, hdata⟩ := accepted_of_succeeds hsucceeds
  obtain ⟨cfg, -, happly⟩ := applyResult_of_accepted haccepted owners
  simp only [Due.key, hdata, decide_eq_true_eq] at hkey
  rw [happly]
  simp only [hdata, hkey]
  rw [if_pos hmem]
  exact ⟨rfl, rfl⟩

/-- The first result of a group becomes its primary, and is stored if its data can be. -/
theorem applyResult_of_not_mem (h : m.claims groupKey = true) (hmem : groupKey ∉ owners) :
    (applyResult m owners).outcome = (if m.storable then .stored else .failed) ∧
      (applyResult m owners).owners = groupKey :: owners := by
  obtain ⟨hsucceeds, hkey⟩ := Bool.and_eq_true_iff.mp h
  obtain ⟨haccepted, data, hdata⟩ := accepted_of_succeeds hsucceeds
  obtain ⟨cfg, -, happly⟩ := applyResult_of_accepted haccepted owners
  simp only [Due.key, hdata, decide_eq_true_eq] at hkey
  simp only [happly, hdata, hkey, if_neg hmem]
  exact storePrimary_of_storable haccepted hdata

theorem succeeds_of_storable (h : m.storable = true) : m.succeeds = true := by
  unfold Due.storable at h
  unfold Due.succeeds
  cases hcollected : m.collected with
  | success data => simp [hcollected] at h ⊢; exact h.1
  | raised error => simp [hcollected] at h
  | failure error => simp [hcollected] at h

theorem claims_iff : m.claims groupKey = true ↔ m.succeeds = true ∧ m.key = some groupKey := by
  simp [Due.claims]

/-- The owners after a result. -/
theorem mem_owners_applyResult :
    groupKey ∈ (applyResult m owners).owners ↔ groupKey ∈ owners ∨ m.claims groupKey = true := by
  by_cases haccepted : m.accepted = true
  · by_cases hsucceeds : m.succeeds = true
    · cases hkey : m.key with
      | none =>
        rw [(applyResult_of_noKey hsucceeds hkey).2]
        simp [claims_iff, hkey]
      | some k =>
        have hk : m.claims k = true := claims_iff.mpr ⟨hsucceeds, hkey⟩
        by_cases hmem : k ∈ owners
        · rw [(applyResult_of_mem hk hmem).2, claims_iff, hkey]
          constructor
          · exact .inl
          · rintro (h | ⟨-, h⟩)
            · exact h
            · exact Option.some.inj h ▸ hmem
        · rw [(applyResult_of_not_mem hk hmem).2, claims_iff, hkey, List.mem_cons]
          simp [hsucceeds, or_comm, eq_comm]
    · rw [(applyResult_of_fails haccepted (by simpa using hsucceeds)).2]
      simp [claims_iff, hsucceeds]
  · rw [(applyResult_of_dropped (by simpa using haccepted)).2]
    have hnot : m.succeeds = false := by simp [Due.succeeds, haccepted]
    simp [claims_iff, hnot]

/-- A stored result was collected. -/
theorem succeeds_of_stored (h : (applyResult m owners).outcome = .stored) :
    m.storable = true ∧ ∀ groupKey, m.key = some groupKey → groupKey ∉ owners := by
  by_cases haccepted : m.accepted = true
  · by_cases hsucceeds : m.succeeds = true
    · cases hkey : m.key with
      | none =>
        rw [(applyResult_of_noKey hsucceeds hkey).1] at h
        refine ⟨by by_contra hnot; simp [hnot] at h, by simp⟩
      | some k =>
        have hk : m.claims k = true := claims_iff.mpr ⟨hsucceeds, hkey⟩
        by_cases hmem : k ∈ owners
        · simp [(applyResult_of_mem hk hmem).1] at h
        · rw [(applyResult_of_not_mem hk hmem).1] at h
          refine ⟨by by_contra hnot; simp [hnot] at h, ?_⟩
          rintro groupKey hk'
          exact Option.some.inj hk' ▸ hmem
    · simp [(applyResult_of_fails haccepted (by simpa using hsucceeds)).1] at h
  · exact absurd h (applyResult_of_dropped (by simpa using haccepted)).1

/-! ### Members and units -/

theorem map_fst_ingestMembers (ms : List Due) (owners : Owners) :
    (ingestMembers ms owners).1.map Prod.fst = ms := by
  induction ms generalizing owners with
  | nil => rfl
  | cons m ms ih => exact congrArg (m :: ·) (ih _)

theorem ingestMembers_append (ms rest : List Due) (owners : Owners) :
    ingestMembers (ms ++ rest) owners =
      ((ingestMembers ms owners).1 ++ (ingestMembers rest (ingestMembers ms owners).2).1,
        (ingestMembers rest (ingestMembers ms owners).2).2) := by
  induction ms generalizing owners with
  | nil => rfl
  | cons m ms ih =>
    simp only [List.cons_append, ingestMembers]
    rw [ih]

/-- Units one after the other are their members one after the other. -/
theorem flatten_runUnits (units : List (List Due)) (owners : Owners) :
    (runUnits units owners).flatten = (ingestMembers units.flatten owners).1 := by
  induction units generalizing owners with
  | nil => rfl
  | cons unit units ih =>
    rw [runUnits, List.flatten_cons, List.flatten_cons, ingestMembers_append, ih]

theorem exists_unit_of_mem_runUnits {units : List (List Due)} {outcomes : List (Due × Outcome)}
    (h : outcomes ∈ runUnits units owners) :
    ∃ unit ∈ units, ∃ owners', outcomes = (ingestMembers unit owners').1 := by
  induction units generalizing owners with
  | nil => cases h
  | cons unit units ih =>
    rcases List.mem_cons.mp h with rfl | h
    · exact ⟨unit, List.mem_cons_self, owners, rfl⟩
    · obtain ⟨unit', hunit, hout⟩ := ih h
      exact ⟨unit', List.mem_cons_of_mem _ hunit, hout⟩

/-- Every outcome is that of a result, for some owners. -/
theorem exists_owners_of_mem {x : Due × Outcome} (h : x ∈ (ingestMembers ms owners).1) :
    ∃ owners', x.2 = (applyResult x.1 owners').outcome ∧ ∀ k ∈ owners, k ∈ owners' := by
  induction ms generalizing owners with
  | nil => cases h
  | cons m ms ih =>
    rcases List.mem_cons.mp h with rfl | h
    · exact ⟨owners, rfl, fun _ hk => hk⟩
    · obtain ⟨owners', hout, hsubset⟩ := ih h
      exact ⟨owners', hout, fun k hk => hsubset k (mem_owners_applyResult.mpr (.inl hk))⟩

/-- Once a group has a primary, none of its members is stored. -/
theorem not_stored_of_mem_owners {x : Due × Outcome} (hmem : groupKey ∈ owners)
    (h : x ∈ (ingestMembers ms owners).1) (hkey : x.1.key = some groupKey) : x.2 ≠ .stored := by
  obtain ⟨owners', hout, hsubset⟩ := exists_owners_of_mem h
  intro hstored
  exact (succeeds_of_stored (hout ▸ hstored)).2 groupKey hkey (hsubset groupKey hmem)

/-- No two members of a group are stored. -/
theorem pairwise_stored (ms : List Due) (owners : Owners) :
    (ingestMembers ms owners).1.Pairwise fun x y => ∀ k, x.1.key = some k → y.1.key = some k →
      x.2 = .stored → y.2 ≠ .stored := by
  induction ms generalizing owners with
  | nil => exact .nil
  | cons m ms ih =>
    refine .cons (fun y hy k hx hykey hstored => ?_) (ih _)
    have hclaims : m.claims k = true :=
      claims_iff.mpr ⟨succeeds_of_storable (succeeds_of_stored hstored).1, hx⟩
    exact not_stored_of_mem_owners (mem_owners_applyResult.mpr (.inr hclaims)) hy hykey

/-- After the first member of a unit that was collected, those that were collected are standby. -/
theorem pairwise_standby (hkey : ∀ m ∈ ms, m.succeeds = true → m.key = some groupKey) :
    (ingestMembers ms owners).1.Pairwise fun x y => x.1.succeeds = true → y.1.succeeds = true →
      y.2 = .standby := by
  induction ms generalizing owners with
  | nil => exact .nil
  | cons m ms ih =>
    obtain ⟨hm, hms⟩ := List.forall_mem_cons.mp hkey
    refine .cons (fun y hy hx hysucceeds => ?_) (ih hms)
    have hclaims : m.claims groupKey = true := claims_iff.mpr ⟨hx, hm hx⟩
    obtain ⟨owners', hout, hsubset⟩ := exists_owners_of_mem hy
    have hymem : y.1 ∈ ms := by
      rw [← map_fst_ingestMembers ms]
      exact List.mem_map_of_mem hy
    rw [hout]
    exact (applyResult_of_mem (claims_iff.mpr ⟨hysucceeds, hms _ hymem hysucceeds⟩)
      (hsubset _ (mem_owners_applyResult.mpr (.inr hclaims)))).1

/-- **When a group has a stored member**: it has no primary yet, and the data of its first member
that was collected can be written. -/
theorem exists_stored_iff :
    (∃ x ∈ (ingestMembers ms owners).1, x.2 = .stored ∧ x.1.key = some groupKey) ↔
      groupKey ∉ owners ∧ ∃ first rest, ms.filter (Due.claims groupKey) = first :: rest ∧
        first.storable = true := by
  by_cases hmem : groupKey ∈ owners
  · refine iff_of_false ?_ fun h => h.1 hmem
    rintro ⟨x, hx, hstored, hkey⟩
    exact not_stored_of_mem_owners hmem hx hkey hstored
  · induction ms generalizing owners with
    | nil => simp [ingestMembers]
    | cons m ms ih =>
      by_cases hclaims : m.claims groupKey = true
      · have hout := (applyResult_of_not_mem hclaims hmem).1
        have hnot : ∀ x ∈ (ingestMembers ms (applyResult m owners).owners).1,
            x.1.key = some groupKey → x.2 ≠ .stored := fun x hx hkey =>
          not_stored_of_mem_owners (mem_owners_applyResult.mpr (.inr hclaims)) hx hkey
        rw [List.filter_cons_of_pos hclaims]
        constructor
        · rintro ⟨x, hx, hstored, hkey⟩
          rcases List.mem_cons.mp hx with rfl | hx
          · exact ⟨hmem, m, _, rfl, (succeeds_of_stored hstored).1⟩
          · exact absurd hstored (hnot x hx hkey)
        · rintro ⟨-, first, rest, heq, hstorable⟩
          obtain ⟨rfl, -⟩ := List.cons.inj heq
          exact ⟨_, List.mem_cons_self, by simp [hout, hstorable], (claims_iff.mp hclaims).2⟩
      · have hmem' : groupKey ∉ (applyResult m owners).owners := by
          simp [mem_owners_applyResult, hmem, hclaims]
        rw [List.filter_cons_of_neg hclaims]
        have hih := ih hmem'
        simp only [hmem, hmem', not_false_eq_true, true_and] at hih ⊢
        rw [← hih]
        constructor
        · rintro ⟨x, hx, hstored, hkey⟩
          rcases List.mem_cons.mp hx with rfl | hx
          · exact absurd (claims_iff.mpr
              ⟨succeeds_of_storable (succeeds_of_stored hstored).1, hkey⟩) hclaims
          · exact ⟨x, hx, hstored, hkey⟩
        · rintro ⟨x, hx, hstored, hkey⟩
          exact ⟨x, List.mem_cons_of_mem _ hx, hstored, hkey⟩

/-! ### Passes -/

/-- The configs that are due in a pass, in the order of their ids. -/
structure Pass where
  dues : List Due
  sorted : dues.Pairwise fun m m' => m.row.id < m'.row.id

/-- A unit has members of the pass in their order. It has one member, or they all have one type and
one group. -/
theorem unit_of_mem {unit dues : List Due} (h : unit ∈ unitsOf dues) :
    unit.Sublist dues ∧ ((∃ m, unit = [m]) ∨
      ∃ t group, ∀ m ∈ unit, m.row.type = t ∧ m.row.group = some group) := by
  obtain ⟨t, -, h⟩ := List.mem_flatMap.mp h
  rcases List.mem_append.mp h with h | h
  · obtain ⟨m, hm, rfl⟩ := List.mem_map.mp h
    have hmem : m ∈ dues := (List.mem_filter.mp (List.mem_filter.mp hm).1).1
    exact ⟨List.singleton_sublist.mpr hmem, .inl ⟨m, rfl⟩⟩
  · obtain ⟨⟨group, first⟩, hg, rfl⟩ := List.mem_map.mp h
    have hfirst := mem_firstByKey.mp hg
    have hgroup : first.row.group = group := by simpa using List.find?_some hfirst
    have hsome := (List.mem_filter.mp (List.mem_of_find?_eq_some hfirst)).2
    obtain ⟨name, hname⟩ := Option.ne_none_iff_exists'.mp (by simpa using hsome)
    refine ⟨List.filter_sublist.trans List.filter_sublist, .inr ⟨t.1, name, fun m hm => ?_⟩⟩
    obtain ⟨hm, hmgroup⟩ := List.mem_filter.mp hm
    exact ⟨by simpa using (List.mem_filter.mp hm).2, by simpa [← hgroup, hname] using hmgroup⟩

/-- A result of a config with a group has the key of that group. -/
theorem key_of_group {group : String} (h : m.succeeds = true) (hgroup : m.row.group = some group) :
    m.key = some (m.row.type, group) := by
  obtain ⟨-, data, hdata⟩ := accepted_of_succeeds h
  simp [Due.key, hdata, autoGroup, hgroup]

/-- Of two members that were collected, the one with the greater id is standby. -/
def GreaterStandby (x y : Due × Outcome) : Prop :=
  (x.1.row.id < y.1.row.id → x.1.succeeds = true → y.1.succeeds = true → y.2 = .standby) ∧
    (y.1.row.id < x.1.row.id → y.1.succeeds = true → x.1.succeeds = true → x.2 = .standby)

instance : Std.Symm GreaterStandby := ⟨fun _ _ h => ⟨h.2, h.1⟩⟩

/-- In a unit, the members that were collected after the first one are standby. -/
theorem standby_of_unit {p : Pass} {unit : List Due} (hunit : unit ∈ unitsOf p.dues)
    {x y : Due × Outcome} (hx : x ∈ (ingestMembers unit owners).1)
    (hy : y ∈ (ingestMembers unit owners).1) (hxs : x.1.succeeds = true)
    (hys : y.1.succeeds = true) (hlt : x.1.row.id < y.1.row.id) : y.2 = .standby := by
  obtain ⟨hsublist, ⟨m, rfl⟩ | ⟨t, group, hgroup⟩⟩ := unit_of_mem hunit
  · obtain rfl := List.mem_singleton.mp hx
    obtain rfl := List.mem_singleton.mp hy
    exact absurd hlt (Nat.lt_irrefl _)
  · have hkey : ∀ m ∈ unit, m.succeeds = true → m.key = some (t, group) := by
      intro m hm hsucceeds
      rw [key_of_group hsucceeds (hgroup m hm).2, (hgroup m hm).1]
    have hstandby : (ingestMembers unit owners).1.Pairwise fun x y => x.1.succeeds = true →
        y.1.succeeds = true → y.2 = .standby := pairwise_standby hkey
    have hsorted : (ingestMembers unit owners).1.Pairwise fun x y =>
        x.1.row.id < y.1.row.id := by
      have hmap := p.sorted.sublist hsublist
      rw [← map_fst_ingestMembers unit owners, List.pairwise_map] at hmap
      exact hmap
    have hboth : (ingestMembers unit owners).1.Pairwise GreaterStandby :=
      hstandby.imp₂ (fun x y hxy hlt => ⟨fun _ => hxy, fun hgt => absurd hlt (Nat.lt_asymm hgt)⟩)
        hsorted
    have hne : x ≠ y := by
      rintro rfl
      exact Nat.lt_irrefl _ hlt
    exact (hboth.forall hx hy hne).1 hlt hxs hys

/-! ### The pass -/

variable {p : Pass} {order : List (List Due)} {x y : Due × Outcome}

/-- In every unit of a pass, the members that were collected after the first one are standby. -/
theorem standby_of_mem_runUnits (horder : order.Perm (unitsOf p.dues))
    {unit : List (Due × Outcome)} (hunit : unit ∈ runUnits order []) (hx : x ∈ unit) (hy : y ∈ unit)
    (hxs : x.1.succeeds = true) (hys : y.1.succeeds = true) (hlt : x.1.row.id < y.1.row.id) :
    y.2 = .standby := by
  obtain ⟨members, hmembers, owners', rfl⟩ := exists_unit_of_mem_runUnits hunit
  exact standby_of_unit (horder.subset hmembers) hx hy hxs hys hlt

theorem storable_of_stored (hx : x ∈ (runUnits order []).flatten) (hxs : x.2 = .stored) :
    x.1.storable = true := by
  obtain ⟨owners', hout, -⟩ := exists_owners_of_mem (flatten_runUnits order [] ▸ hx)
  exact (succeeds_of_stored (hout ▸ hxs)).1

theorem mem_of_mem_runUnits (hx : x ∈ (runUnits order []).flatten) : x.1 ∈ order.flatten := by
  rw [← map_fst_ingestMembers order.flatten [], ← flatten_runUnits]
  exact List.mem_map_of_mem hx

/-- A group has at most one stored member. -/
theorem eq_of_stored (hx : x ∈ (runUnits order []).flatten) (hy : y ∈ (runUnits order []).flatten)
    (hxs : x.2 = .stored) (hys : y.2 = .stored) (hxkey : x.1.key = some groupKey)
    (hykey : y.1.key = some groupKey) : x = y := by
  by_contra hne
  have hpair := pairwise_stored order.flatten []
  rw [← flatten_runUnits] at hpair
  have hsymm : Std.Symm fun x y : Due × Outcome => ∀ k, x.1.key = some k →
      y.1.key = some k → x.2 = .stored → y.2 ≠ .stored :=
    ⟨fun a b hab k hb ha hbs has => hab k ha hb has hbs⟩
  exact hpair.forall hx hy hne groupKey hxkey hykey hxs hys

/-- Where a group has a stored member whenever one can be stored, its first member is the one,
unless no other can be stored. -/
theorem storable_of_kept (h : OneStored (runUnits order [])) {first : Due}
    (hfilter : order.flatten.filter (Due.claims groupKey) = first :: rest) :
    first.storable = true ∨ ∀ m ∈ rest, m.storable = false := by
  by_contra hnot
  rw [not_or, not_forall] at hnot
  obtain ⟨hfirst, m, hm⟩ := hnot
  obtain ⟨hmem, hstorable⟩ : m ∈ rest ∧ m.storable = true := by simpa using hm
  obtain ⟨hmorder, hmclaims⟩ := List.mem_filter.mp (hfilter ▸ List.mem_cons_of_mem first hmem)
  rw [← map_fst_ingestMembers order.flatten [], ← flatten_runUnits] at hmorder
  obtain ⟨x, hx, rfl⟩ := List.mem_map.mp hmorder
  have hxkey := (claims_iff.mp hmclaims).2
  have hexists : ∃ y ∈ (ingestMembers order.flatten []).1,
      y.2 = .stored ∧ y.1.key = some groupKey := by
    rw [← flatten_runUnits]
    rcases h.kept x hx hstorable with hxs | ⟨k, hk, hy⟩
    · exact ⟨x, hx, hxs, hxkey⟩
    · rwa [Option.some.inj (hk.symm.trans hxkey)] at hy
  obtain ⟨-, first', rest', heq, hstored⟩ := exists_stored_iff.mp hexists
  rw [hfilter] at heq
  exact hfirst ((List.cons.inj heq).1 ▸ hstored)

/-- A member that can be stored is stored, or another member of its group is, where the first member
of a group can be stored, or no other can. -/
theorem kept_of_storable (h : ∀ groupKey first rest,
      order.flatten.filter (Due.claims groupKey) = first :: rest →
        first.storable = true ∨ ∀ m ∈ rest, m.storable = false)
    (hx : x ∈ (runUnits order []).flatten) (hstorable : x.1.storable = true) :
    x.2 = .stored ∨ ∃ groupKey, x.1.key = some groupKey ∧
      ∃ y ∈ (runUnits order []).flatten, y.2 = .stored ∧ y.1.key = some groupKey := by
  have hsucceeds := succeeds_of_storable hstorable
  cases hkey : x.1.key with
  | none =>
    obtain ⟨owners', hout, -⟩ := exists_owners_of_mem (flatten_runUnits order [] ▸ hx)
    rw [(applyResult_of_noKey hsucceeds hkey).1, if_pos hstorable] at hout
    exact .inl hout
  | some k =>
    refine .inr ⟨k, rfl, ?_⟩
    have hxmem : x.1 ∈ order.flatten.filter (Due.claims k) :=
      List.mem_filter.mpr ⟨mem_of_mem_runUnits hx, claims_iff.mpr ⟨hsucceeds, hkey⟩⟩
    obtain ⟨first, rest, hfilter⟩ := List.exists_cons_of_ne_nil (List.ne_nil_of_mem hxmem)
    have hfirst : first.storable = true := by
      rcases h k first rest hfilter with hfirst | hrest
      · exact hfirst
      · rcases List.mem_cons.mp (hfilter ▸ hxmem) with heq | hmem
        · exact heq ▸ hstorable
        · exact absurd hstorable (by simp [hrest _ hmem])
    rw [flatten_runUnits]
    exact exists_stored_iff.mpr ⟨by simp, first, rest, hfilter, hfirst⟩

/-- **When a pass stores one snapshot for each cluster**: exactly when for every type and group the
data of the first member that was collected can be written, or that of no other member can. The
units run in any order. -/
theorem oneStored_iff (p : Pass) {order : List (List Due)} (horder : order.Perm (unitsOf p.dues)) :
    OneStored (runUnits order []) ↔
      ∀ groupKey first rest, order.flatten.filter (Due.claims groupKey) = first :: rest →
        first.storable = true ∨ ∀ m ∈ rest, m.storable = false := by
  constructor
  · exact fun h groupKey first rest hfilter => storable_of_kept h hfilter
  · intro h
    refine ⟨?_, ?_, ?_, ?_, ?_⟩
    · intro x hx y hy hxs hys groupKey hxkey hykey
      rw [eq_of_stored hx hy hxs hys hxkey hykey]
    · intro unit hunit x hx y hy hxs hys
      by_contra hlt
      have hxsucceeds := succeeds_of_storable
        (storable_of_stored (List.mem_flatten.mpr ⟨unit, hunit, hx⟩) hxs)
      have hstandby := standby_of_mem_runUnits horder hunit hy hx hys hxsucceeds (Nat.not_le.mp hlt)
      rw [hxs] at hstandby
      cases hstandby
    · exact fun unit hunit x hx y hy => standby_of_mem_runUnits horder hunit hx hy
    · intro x hx haccepted hfails
      obtain ⟨owners', hout, -⟩ := exists_owners_of_mem (flatten_runUnits order [] ▸ hx)
      exact hout.trans (applyResult_of_fails haccepted hfails).1
    · exact fun x hx hstorable => kept_of_storable h hx hstorable

/-! ### Two members of a cluster -/

/-- A Proxmox config of the group "cl". -/
def proxmox (id : ℕ) (name : String) : Config := ⟨id, "proxmox", name, some "cl", 1, .core, none⟩

/-- It is due, and not edited meanwhile. -/
def due (cfg : Config) (collected : Collected) : Due where
  row := cfg
  collected := collected
  current := some cfg
  edited c hc _ := by rw [Option.mem_some_iff.mp hc]

/-- A result whose data can be written. -/
def collectedData : Collected :=
  .success ⟨.ok (some "\x7b\"cluster_name\": \"cl\"\x7d"), some "cl"⟩

/-- The first member fails, and the second one takes over. -/
def failover : Pass where
  dues := [due (proxmox 1 "pve1") (.failure "connection refused"),
    due (proxmox 2 "pve2") collectedData]
  sorted := by simp [due, proxmox]

/-- The data of the first member has a value that JSON has not. -/
def unwritable : Pass where
  dues := [due (proxmox 1 "pve1")
      (.success ⟨.error "Object of type datetime is not JSON serializable", some "cl"⟩),
    due (proxmox 2 "pve2") collectedData]
  sorted := by simp [due, proxmox]

theorem oneStored_iff_failover : OneStored (runUnits (unitsOf failover.dues) []) := by
  refine (oneStored_iff failover (List.Perm.refl _)).mpr fun groupKey first rest hfilter => .inl ?_
  have hall : ∀ m ∈ (unitsOf failover.dues).flatten, m.succeeds = true → m.storable = true := by
    decide +kernel
  obtain ⟨hmem, hclaims⟩ := List.mem_filter.mp (hfilter ▸ List.mem_cons_self)
  exact hall first hmem (claims_iff.mp hclaims).1

/-- The cluster has no stored snapshot, though the second member was collected. -/
theorem not_oneStored_unwritable : ¬OneStored (runUnits (unitsOf unwritable.dues) []) := by
  intro h
  have hnone : ∀ x ∈ (runUnits (unitsOf unwritable.dues) []).flatten, x.2 ≠ .stored := by
    decide +kernel
  obtain ⟨x, hx, hstorable⟩ :
      ∃ x ∈ (runUnits (unitsOf unwritable.dues) []).flatten, x.1.storable = true := by
    decide +kernel
  rcases h.kept x hx hstorable with hstored | ⟨groupKey, -, y, hy, hstored, -⟩
  · exact hnone x hx hstored
  · exact hnone y hy hstored

end Nodeglow.Integrations
