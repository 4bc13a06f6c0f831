import Nodeglow.Backend.Integrations.ClusterPass

/-!
# The group that a cluster's name makes

A Proxmox configuration without a cluster group takes the name of its cluster as its group, when its
server first answers, and keeps it. The parser has a name also where there is none: the cluster
status of a stand-alone server has no cluster, and its name is "Proxmox Cluster". So two stand-alone
servers are one group, and of these only the first is stored in a pass (`not_apart`). And a server
that leaves its cluster stays in the group.

In a pass every configuration is collected once; the results are written one after the other.

## Main results

* `outcome_eq_standby_iff` — when a result is reduced to a standby entry.
* `apart_iff` — exactly when unrelated servers are kept apart.

Source: `backend/integrations/proxmox.py`, lines 229–240 and 511–553;
`backend/services/integration_ingest.py`, lines 162–192.
-/

namespace Nodeglow.Integrations.Names

/-! ### Answers of a server -/

/-- An item of a cluster status; a name may be NULL. -/
structure StatusItem where
  type : Option String
  name : Option (Option String)
deriving DecidableEq, Repr

/-- The name of the cluster in `parse_cluster_data`. -/
def clusterName (status : List StatusItem) : Option String :=
  status.foldl (fun name item => if item.type = some "cluster" then item.name.getD name else name)
    (some "Proxmox Cluster")

/-- The server is in a cluster of this name. -/
def Reports (status : List StatusItem) (name : String) : Prop :=
  ⟨some "cluster", some (some name)⟩ ∈ status

/-- The answer of a server: no data, or the data as it is written as JSON, and the cluster
status. -/
inductive Reply
  | failure (error : String)
  | success (json : Except String (Option String)) (status : List StatusItem)

/-- The result of the collect. -/
def Reply.collected : Reply → Collected
  | failure error => .failure error
  | success json status => .success ⟨json, clusterName status⟩

def Reply.status : Reply → List StatusItem
  | failure _ => []
  | success _ status => status

/-- Two servers are in a cluster of the same name. -/
def SameCluster (a b : Reply) : Prop := ∃ name, Reports a.status name ∧ Reports b.status name

/-! ### Passes -/

/-- The configurations, by their ids. -/
abbrev World := ℕ → Option Config

/-- The answers in the order in which they are written. -/
structure Pass where
  replies : List (ℕ × Reply)
  nodup : (replies.map Prod.fst).Nodup

/-- The type and the group that a result is written for. -/
def claim (w : World) (q : ℕ × Reply) : Option (String × String) := do
  let cfg ← w q.1
  let m := due cfg q.2.collected
  if m.succeeds then m.key else none

/-- An answer, and what it is written for. -/
structure Claim where
  id : ℕ
  reply : Reply
  key : Option (String × String)

def toClaim (w : World) (q : ℕ × Reply) : Claim := ⟨q.1, q.2, claim w q⟩

/-- A written result. -/
structure Entry extends Claim where
  outcome : Outcome

/-- The configurations after a result: one without a group may have got one. -/
def afterReply (w : World) (q : ℕ × Reply) : World :=
  match w q.1, claim w q with
  | some cfg, some key =>
    Function.update w q.1 (some { cfg with clusterGroup := some key.2 })
  | _, _ => w

/-- What `ingest` makes of a result, and the owners. -/
def written (w : World) (owners : Owners) (q : ℕ × Reply) : Outcome × Owners :=
  match w q.1 with
  | none => (.deleted, owners)
  | some cfg =>
    let out := applyResult (due cfg q.2.collected) owners
    (out.outcome, out.owners)

/-- The results of a pass, one after the other. -/
def runReplies : World → Owners → List (ℕ × Reply) → List Entry × World
  | w, _, [] => ([], w)
  | w, owners, q :: rest =>
    let out := written w owners q
    let after := runReplies (afterReply w q) out.2 rest
    (⟨toClaim w q, out.1⟩ :: after.1, after.2)

/-- The results of passes. -/
def runPasses : World → List Pass → List (List Entry)
  | _, [] => []
  | w, p :: passes =>
    let out := runReplies w [] p.replies
    out.1 :: runPasses out.2 passes

/-! ### One result -/

variable {w w' : World} {owners : Owners} {q : ℕ × Reply} {k : String × String}

theorem claim_eq_some_iff : claim w q = some k ↔
    ∃ cfg, w q.1 = some cfg ∧ (due cfg q.2.collected).claims k = true := by
  unfold claim
  cases w q.1 with
  | none => simp
  | some cfg =>
    simp only [Option.bind_eq_bind, Option.bind_some, Option.some.injEq, exists_eq_left',
      claims_iff]
    cases (due cfg q.2.collected).succeeds <;> simp

theorem claim_congr (h : w' q.1 = w q.1) : claim w' q = claim w q := by
  rw [claim, claim, h]

theorem afterReply_of_ne {id : ℕ} (h : id ≠ q.1) : afterReply w q id = w id := by
  unfold afterReply
  cases w q.1 with
  | none => rfl
  | some cfg =>
    cases claim w q with
    | none => rfl
    | some k => exact Function.update_of_ne h _ _

/-- The owners after a result. -/
theorem mem_written : k ∈ (written w owners q).2 ↔ k ∈ owners ∨ claim w q = some k := by
  rw [claim_eq_some_iff]
  unfold written
  cases w q.1 with
  | none => simp
  | some cfg => simpa using mem_owners_applyResult

theorem checkStamp_ne_standby {current : Option Config} {stamp : CollectStamp} :
    checkStamp current stamp ≠ some .standby := by
  unfold checkStamp
  cases current with
  | none => simp
  | some cfg =>
    dsimp only
    split_ifs <;> simp

/-- A result that is dropped is no standby entry. -/
theorem applyResult_ne_standby_of_dropped {m : Due} (h : m.accepted = false) :
    (applyResult m owners).outcome ≠ .standby := by
  have hsome : (checkStamp m.current (CollectStamp.of m.row)).isSome = true := by
    simpa [Due.accepted] using h
  obtain ⟨rejected, hrejected⟩ := Option.isSome_iff_exists.mp hsome
  simp only [applyResult, ingest, hrejected]
  rintro rfl
  exact checkStamp_ne_standby hrejected

theorem applyResult_eq_standby_iff {m : Due} : (applyResult m owners).outcome = .standby ↔
    ∃ k, m.claims k = true ∧ k ∈ owners := by
  constructor
  · intro hstandby
    have haccepted : m.accepted = true := by
      by_contra hnot
      exact applyResult_ne_standby_of_dropped (by simpa using hnot) hstandby
    have hsucceeds : m.succeeds = true := by
      by_contra hnot
      rw [(applyResult_of_fails haccepted (by simpa using hnot)).1] at hstandby
      cases hstandby
    cases hkey : m.key with
    | none =>
      rw [(applyResult_of_noKey hsucceeds hkey).1] at hstandby
      split at hstandby <;> cases hstandby
    | some k =>
      have hclaims : m.claims k = true := claims_iff.mpr ⟨hsucceeds, hkey⟩
      refine ⟨k, hclaims, ?_⟩
      by_contra hmem
      rw [(applyResult_of_not_mem hclaims hmem).1] at hstandby
      split at hstandby <;> cases hstandby
  · rintro ⟨k, hclaims, hmem⟩
    exact (applyResult_of_mem hclaims hmem).1

/-- **When a result is reduced to a standby entry**: its group has an owner already. -/
theorem outcome_eq_standby_iff : (written w owners q).1 = .standby ↔
    ∃ k, claim w q = some k ∧ k ∈ owners := by
  simp only [claim_eq_some_iff]
  unfold written
  cases w q.1 with
  | none => simp
  | some cfg => simpa using applyResult_eq_standby_iff

/-! ### A pass -/

/-- The results are standby entries exactly where one before them is of the same group. -/
def Decided (front : List Claim) : List Entry → Prop
  | [] => True
  | e :: rest =>
    (e.outcome = .standby ↔ ∃ k, e.key = some k ∧ ∃ p ∈ front, p.key = some k) ∧
      Decided (front ++ [e.toClaim]) rest

/-- The results of a pass, by the configurations as they are before it. -/
theorem runReplies_spec {replies : List (ℕ × Reply)} (hnodup : (replies.map Prod.fst).Nodup)
    {front : List Claim} (hw : ∀ q ∈ replies, w q.1 = w' q.1)
    (howners : ∀ k, k ∈ owners ↔ ∃ p ∈ front, p.key = some k) :
    (runReplies w owners replies).1.map Entry.toClaim = replies.map (toClaim w') ∧
      Decided front (runReplies w owners replies).1 := by
  induction replies generalizing w owners front with
  | nil => exact ⟨rfl, trivial⟩
  | cons q rest ih =>
    obtain ⟨hq, hrest⟩ := List.forall_mem_cons.mp hw
    rw [List.map_cons, List.nodup_cons] at hnodup
    have hkept : ∀ r ∈ rest, afterReply w q r.1 = w' r.1 := by
      intro r hr
      have hne : r.1 ≠ q.1 := fun heq => hnodup.1 (heq ▸ List.mem_map_of_mem hr)
      rw [afterReply_of_ne hne, hrest r hr]
    have hclaim : toClaim w q = toClaim w' q := by rw [toClaim, toClaim, claim_congr hq]
    have hwritten : ∀ k, k ∈ (written w owners q).2 ↔
        ∃ p ∈ front ++ [toClaim w q], p.key = some k := by
      intro k
      rw [mem_written, howners]
      simp [toClaim, or_and_right, exists_or]
    obtain ⟨hclaims, hdecided⟩ := ih hnodup.2 hkept hwritten
    refine ⟨?_, ?_, hdecided⟩
    · rw [runReplies, List.map_cons, hclaims, List.map_cons, hclaim]
    · simp only [outcome_eq_standby_iff, howners, toClaim]

/-! ### Unrelated servers -/

/-- The first of the results in the group: its primary. -/
def primary (front : List Claim) (k : String × String) : Option Claim :=
  front.find? fun p => p.key = some k

/-- A standby entry is one of a group whose primary answers for the same cluster. -/
def ApartFrom (front : List Claim) : List Entry → Prop
  | [] => True
  | e :: rest =>
    (e.outcome = .standby → ∃ k p, e.key = some k ∧ primary front k = some p ∧
      SameCluster p.reply e.reply) ∧ ApartFrom (front ++ [e.toClaim]) rest

/-- **Unrelated servers are kept apart**, in every pass. -/
def Apart (passes : List (List Entry)) : Prop := ∀ entries ∈ passes, ApartFrom [] entries

/-- A server whose configuration is in a group that another one has answered for in the pass is in
the same cluster as the first of these. -/
def RelatedFrom (front : List Claim) : List Claim → Prop
  | [] => True
  | c :: rest =>
    (∀ k p, c.key = some k → primary front k = some p → SameCluster p.reply c.reply) ∧
      RelatedFrom (front ++ [c]) rest

/-- In every pass the servers of a group are in one cluster. -/
def AllRelated : World → List Pass → Prop
  | _, [] => True
  | w, p :: passes =>
    RelatedFrom [] (p.replies.map (toClaim w)) ∧ AllRelated (runReplies w [] p.replies).2 passes

theorem exists_primary_iff {front : List Claim} :
    (∃ p, primary front k = some p) ↔ ∃ p ∈ front, p.key = some k := by
  rw [← Option.isSome_iff_exists, primary, List.find?_isSome]
  simp

/-- One pass. -/
theorem apartFrom_iff {entries : List Entry} {front : List Claim} (h : Decided front entries) :
    ApartFrom front entries ↔ RelatedFrom front (entries.map Entry.toClaim) := by
  induction entries generalizing front with
  | nil => exact Iff.rfl
  | cons e rest ih =>
    obtain ⟨hstandby, hrest⟩ := h
    refine and_congr ?_ (ih hrest)
    rw [hstandby]
    constructor
    · rintro hapart k p hk hp
      have hmem := exists_primary_iff.mp ⟨p, hp⟩
      obtain ⟨k', p', hk', hp', hsame⟩ := hapart ⟨k, hk, hmem⟩
      rw [hk, Option.some.injEq] at hk'
      rw [← hk', hp, Option.some.injEq] at hp'
      rwa [hp']
    · rintro hrelated ⟨k, hk, hmem⟩
      obtain ⟨p, hp⟩ := exists_primary_iff.mpr hmem
      exact ⟨k, p, hk, hp, hrelated k p hk hp⟩

/-- **When unrelated servers are kept apart**: exactly when the servers of a group are in one
cluster, in every pass. -/
theorem apart_iff (w : World) (passes : List Pass) :
    Apart (runPasses w passes) ↔ AllRelated w passes := by
  induction passes generalizing w with
  | nil => simp [Apart, runPasses, AllRelated]
  | cons p passes ih =>
    have hnone : ∀ k, k ∈ ([] : Owners) ↔ ∃ c ∈ ([] : List Claim), c.key = some k := by simp
    obtain ⟨hclaims, hdecided⟩ := runReplies_spec (w := w) p.nodup (fun _ _ => rfl) hnone
    have hpass : ApartFrom [] (runReplies w [] p.replies).1 ↔
        RelatedFrom [] (p.replies.map (toClaim w)) := by
      rw [apartFrom_iff hdecided, hclaims]
    rw [runPasses, Apart, List.forall_mem_cons, hpass]
    exact and_congr_right fun _ => ih _

/-! ### Stand-alone servers -/

/-- Where servers are kept apart, the result of a stand-alone server is no standby entry. -/
theorem outcome_ne_standby_of_apart {entries : List Entry} {front : List Claim}
    (h : ApartFrom front entries) {e : Entry} (he : e ∈ entries)
    (halone : ∀ item ∈ e.reply.status, item.type ≠ some "cluster") : e.outcome ≠ .standby := by
  induction entries generalizing front with
  | nil => cases he
  | cons e' rest ih =>
    rcases List.mem_cons.mp he with rfl | he
    · intro hstandby
      obtain ⟨k, p, -, -, name, -, hname⟩ := h.1 hstandby
      exact halone _ hname rfl
    · exact ih h.2 he

/-- A Proxmox configuration without a group. -/
def ungrouped (id : ℕ) (name : String) : Config := ⟨id, "proxmox", name, none, 1, .core, none⟩

/-- The successful answer of a stand-alone server: its cluster status has only the node. -/
def alone (node : String) : Reply :=
  .success (.ok (some "\x7b\"quorum_ok\": true\x7d")) [⟨some "node", some (some node)⟩]

/-- Two stand-alone servers. -/
def twoServers : World
  | 1 => some (ungrouped 1 "garage")
  | 2 => some (ungrouped 2 "office")
  | _ => none

def bothAnswer : Pass where
  replies := [(1, alone "garage"), (2, alone "office")]
  nodup := by decide

/-- The second server's data is not stored, though neither server is in a cluster. -/
theorem not_apart : ¬Apart (runPasses twoServers [bothAnswer]) := by
  intro h
  have hpass := h _ List.mem_cons_self
  have hstandby : ∃ e ∈ (runReplies twoServers [] bothAnswer.replies).1,
      e.outcome = .standby ∧ ∀ item ∈ e.reply.status, item.type ≠ some "cluster" := by
    decide +kernel
  obtain ⟨e, he, hout, halone⟩ := hstandby
  exact outcome_ne_standby_of_apart hpass he halone hout

end Nodeglow.Integrations.Names
