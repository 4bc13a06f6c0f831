import Nodeglow.Backend.Incidents.IntegrationAlerts
import Nodeglow.Foundation.ByKey
import Nodeglow.Foundation.Text

/-!
# Evaluations of integration alerts

What one evaluation does to the streaks and to the table. An alert is about its title and its
entity, and its key tells these and the source, where the shortened digests have no collision and no
title contains the sign that stands between the two. An evaluation that completes counts the alerts
of its report, ends the other streaks of its source, and leaves open incidents of its source about
those alerts that had one, or have a streak that is long enough and are not held back.

## Main results

* `origin_eq_of_startsWith`, `aboutKey_inj` — what a key tells.
* `evaluateLoop_spec`, `evaluateAlerts_spec` — an evaluation that completes.
* `evaluateAlerts_raises` — one that does not.

Source: `backend/services/integration_alerts.py`, lines 62–98 and 204–275.
-/

namespace Nodeglow.Incidents

/-! ### Sources -/

/-- Where alerts come from: a config, or a cluster group of a type. -/
inductive Source
  | config (id : ℕ)
  | group (type name : String)
deriving DecidableEq, Repr

/-- The source of a config's alerts. -/
def IntegrationConfig.origin (cfg : IntegrationConfig) : Source :=
  match cfg.group with
  | some group => .group cfg.type group
  | none => .config cfg.id

section Sources

variable {h : Hashing} {cfg cfg' : IntegrationConfig} {key : String}

theorem colon_not_mem_source : ':' ∉ (source h.toDigests cfg).toList := by
  unfold source
  cases cfg.group with
  | none => exact fun hc => absurd (isDigit_of_mem_toString hc) (by decide)
  | some group => simp [h.noColon12]

/-- The text of a source tells the source. -/
theorem source_eq_iff : source h.toDigests cfg = source h.toDigests cfg' ↔
    cfg.origin = cfg'.origin := by
  -- The text of a group starts with a letter, and that of a config has digits only.
  have hletter : ∀ (n : ℕ) (s : String), toString n ≠ "g" ++ s := by
    intro n s heq
    have hg : 'g' ∈ (toString n).toList := by simp [heq]
    exact absurd (isDigit_of_mem_toString hg) (by decide)
  cases hgroup : cfg.group with
  | none =>
    cases hgroup' : cfg'.group with
    | none =>
      simp only [source, IntegrationConfig.origin, hgroup, hgroup', Source.config.injEq]
      exact ⟨fun heq => toString_injective (congrArg String.toList heq), congrArg toString⟩
    | some name' =>
      simp only [source, IntegrationConfig.origin, hgroup, hgroup', reduceCtorEq, iff_false]
      exact hletter _ _
  | some name =>
    cases hgroup' : cfg'.group with
    | none =>
      simp only [source, IntegrationConfig.origin, hgroup, hgroup', reduceCtorEq, iff_false]
      exact (hletter _ _).symm
    | some name' =>
      simp only [source, IntegrationConfig.origin, hgroup, hgroup', Source.group.injEq]
      constructor
      · intro heq
        have htext := h.injective12 ((String.append_right_inj "g").mp heq)
        have hlist : cfg.type.toList ++ '/' :: name.toList =
            cfg'.type.toList ++ '/' :: name'.toList := by
          simpa using congrArg String.toList htext
        obtain ⟨htype, hname⟩ := (Text.append_cons_inj cfg.noSlash cfg'.noSlash).mp hlist
        exact ⟨String.toList_injective htype, String.toList_injective hname⟩
      · rintro ⟨htype, rfl⟩
        rw [htype]

theorem startsWith_iff {start : String} :
    startsWith start key = true ↔ start.toList <+: key.toList := by
  simp [startsWith]

/-- A key belongs to one source only. -/
theorem origin_eq_of_startsWith (hkey : startsWith (alertPrefix h.toDigests cfg) key = true)
    (hkey' : startsWith (alertPrefix h.toDigests cfg') key = true) : cfg.origin = cfg'.origin := by
  obtain ⟨rest, hrest⟩ := startsWith_iff.mp hkey
  obtain ⟨rest', hrest'⟩ := startsWith_iff.mp hkey'
  have heq : (source h.toDigests cfg).toList ++ ':' :: rest =
      (source h.toDigests cfg').toList ++ ':' :: rest' := by
    simpa [alertPrefix] using hrest.trans hrest'.symm
  obtain ⟨hsource, -⟩ := (Text.append_cons_inj colon_not_mem_source colon_not_mem_source).mp heq
  exact source_eq_iff.mp (String.toList_injective hsource)

theorem alertPrefix_congr (horigin : cfg.origin = cfg'.origin) :
    alertPrefix h.toDigests cfg = alertPrefix h.toDigests cfg' := by
  rw [alertPrefix, alertPrefix, source_eq_iff.mpr horigin]

end Sources

/-! ### What an alert is about -/

/-- The title and the entity of an alert. -/
def Alert.about (a : Alert) : String × String := (a.title, a.entity)

/-- The key of alerts about a title and an entity. -/
def aboutKey (h : Digests) (cfg : IntegrationConfig) (p : String × String) : String :=
  alertPrefix h cfg ++ h.digest16 (p.1 ++ "|" ++ p.2)

theorem alertKey_eq (h : Digests) (cfg : IntegrationConfig) (a : Alert) :
    alertKey h cfg a = aboutKey h cfg a.about := rfl

section About

variable {h : Hashing} {cfg cfg' : IntegrationConfig} {p q : String × String}

theorem startsWith_aboutKey (h : Digests) (cfg : IntegrationConfig) (p : String × String) :
    startsWith (alertPrefix h cfg) (aboutKey h cfg p) = true := by
  rw [startsWith_iff, aboutKey, String.toList_append]
  exact List.prefix_append _ _

theorem aboutKey_ne_empty (h : Digests) (cfg : IntegrationConfig) (p : String × String) :
    aboutKey h cfg p ≠ "" := by
  intro heq
  have := congrArg String.toList heq
  simp [aboutKey, alertPrefix] at this

/-- Among the titles without the separator, a key is about one title and one entity. -/
theorem aboutKey_inj (hp : '|' ∉ p.1.toList) (hq : '|' ∉ q.1.toList) :
    aboutKey h.toDigests cfg p = aboutKey h.toDigests cfg q ↔ p = q := by
  refine ⟨fun heq => ?_, fun hpq => by rw [hpq]⟩
  have htext := h.injective16 ((String.append_right_inj _).mp heq)
  have hlist : p.1.toList ++ '|' :: p.2.toList = q.1.toList ++ '|' :: q.2.toList := by
    simpa using congrArg String.toList htext
  obtain ⟨htitle, hentity⟩ := (Text.append_cons_inj hp hq).mp hlist
  exact Prod.ext (String.toList_injective htitle) (String.toList_injective hentity)

theorem aboutKey_congr (horigin : cfg.origin = cfg'.origin) (p : String × String) :
    aboutKey h.toDigests cfg p = aboutKey h.toDigests cfg' p := by
  rw [aboutKey, aboutKey, alertPrefix_congr horigin]

end About

/-! ### The current alerts -/

section Current

variable {h : Digests} {r : Report} {key : String} {a : Alert}

/-- The alerts that are worth an incident. -/
def Report.worthy (r : Report) : List Alert :=
  r.alerts.filter fun a => a.severity = .critical ∨ a.severity = .warning

/-- The keys of the current alerts. -/
def Report.keys (h : Digests) (r : Report) : List String := (r.current h).map Prod.fst

theorem current_eq (h : Digests) (r : Report) :
    r.current h = firstByKey (alertKey h r.cfg) r.worthy := rfl

theorem mem_keys : key ∈ r.keys h ↔ ∃ a ∈ r.worthy, alertKey h r.cfg a = key :=
  mem_keys_firstByKey

theorem startsWith_of_mem_keys (hkey : key ∈ r.keys h) :
    startsWith (alertPrefix h r.cfg) key = true := by
  obtain ⟨a, -, rfl⟩ := mem_keys.mp hkey
  exact startsWith_aboutKey h r.cfg a.about

theorem ne_empty_of_mem_keys (hkey : key ∈ r.keys h) : key ≠ "" := by
  obtain ⟨a, -, rfl⟩ := mem_keys.mp hkey
  exact aboutKey_ne_empty h r.cfg a.about

end Current

/-! ### What is open, and what is left alone -/

/-- There is an open incident with a rule and a key. -/
def Found (s : Store) (rule key : String) : Prop := ∃ i ∈ s.rows, i.Has rule key

instance (s : Store) (rule key : String) : Decidable (Found s rule key) :=
  inferInstanceAs (Decidable (∃ i ∈ s.rows, i.Has rule key))

/-- The incidents that do not have a property are the same. -/
def SameOutside (P : Incident → Prop) (s s' : Store) : Prop :=
  ∀ i, ¬ P i → (i ∈ s'.rows ↔ i ∈ s.rows)

/-- An incident of the alerts of a source. -/
def Incident.OfSource (h : Digests) (cfg : IntegrationConfig) (i : Incident) : Prop :=
  i.rule = alertRule ∧ ∃ key, i.hostIdsHash = some key ∧ startsWith (alertPrefix h cfg) key = true

section Tables

variable {P Q : Incident → Prop} {s s' s'' : Store} {t : Session} {rule key : String}

theorem SameOutside.refl (P : Incident → Prop) (s : Store) : SameOutside P s s :=
  fun _ _ => Iff.rfl

theorem SameOutside.trans (hs : SameOutside P s s') (hs' : SameOutside P s' s'') :
    SameOutside P s s'' := fun i hi => (hs' i hi).trans (hs i hi)

theorem SameOutside.mono (hs : SameOutside P s s') (hPQ : ∀ i, P i → Q i) : SameOutside Q s s' :=
  fun i hi => hs i fun hP => hi (hPQ i hP)

theorem SameOutside.of_rows (hrows : s'.rows = s.rows) : SameOutside P s s' :=
  fun i _ => by rw [hrows]

theorem SameOutside.found (hs : SameOutside P s s') (hP : ∀ i, i.Has rule key → ¬ P i) :
    Found s' rule key ↔ Found s rule key := by
  constructor
  · rintro ⟨i, hi, hhas⟩
    exact ⟨i, (hs i (hP i hhas)).mp hi, hhas⟩
  · rintro ⟨i, hi, hhas⟩
    exact ⟨i, (hs i (hP i hhas)).mpr hi, hhas⟩

/-- Opening or extending an incident leaves one open that has the rule and the key. -/
theorem openOrExtend_spec (h : Digests) (now : ℚ) (rule title : String) (severity : Severity)
    (hostIds : List ℕ) (hvalid : t.store.Valid) (hkey : key ≠ "") :
    ∃ t', openOrExtend h now rule title severity key hostIds t = some t' ∧ t'.store.Valid ∧
      (∀ rule' key', Found t'.store rule' key' ↔
        Found t.store rule' key' ∨ rule' = rule ∧ key' = key) ∧
      SameOutside (fun i => i.rule = rule ∧ i.hostIdsHash = some key) t.store t'.store := by
  let e : Evaluation := ⟨rule, title, severity, [], some key, false, some hostIds⟩
  have hhash : e.hash h.digest16 = key := if_neg hkey
  obtain ⟨⟨store, id, notes⟩, hs⟩ := hvalid.exists_findOrCreate h.digest16 now e
  have hfind : findOrCreate h.digest16 now
      ⟨rule, title, severity, [], some key, false, some hostIds⟩ t.store =
        some (store, id, notes) := hs
  rw [openOrExtend, hfind]
  refine ⟨_, rfl, hvalid.findOrCreate hs, ?_⟩
  dsimp only
  rcases findOrCreate_cases hs with ⟨i, hi, hhas, rfl, rfl, -⟩ | ⟨hnone, rfl, rfl, -⟩
  · -- An open incident is extended.
    have hiff : ∀ rule' key', Found (t.store.modify i.id (Incident.extend now e)) rule' key' ↔
        Found t.store rule' key' := by
      intro rule' key'
      constructor
      · rintro ⟨j, hj, hjhas⟩
        rcases Store.mem_modify.mp hj with ⟨k, hk, -, rfl⟩ | ⟨hj, -⟩
        · exact ⟨k, hk, hjhas⟩
        · exact ⟨j, hj, hjhas⟩
      · rintro ⟨j, hj, hjhas⟩
        by_cases hid : j.id = i.id
        · exact ⟨j.extend now e, Store.mem_modify.mpr (.inl ⟨j, hj, hid, rfl⟩), hjhas⟩
        · exact ⟨j, Store.mem_modify.mpr (.inr ⟨hj, hid⟩), hjhas⟩
    rw [hhash] at hhas
    refine ⟨fun rule' key' => (hiff rule' key').trans ?_, fun j hj => ?_⟩
    · refine (or_iff_left_of_imp ?_).symm
      rintro ⟨rfl, rfl⟩
      exact ⟨i, hi, hhas⟩
    · rw [Store.mem_modify]
      constructor
      · rintro (⟨k, hk, hid, rfl⟩ | ⟨hj, -⟩)
        · obtain rfl := hvalid.eq_of_id hk hi hid
          exact absurd hhas.2 hj
        · assumption
      · intro hjmem
        refine .inr ⟨hjmem, fun hid => ?_⟩
        obtain rfl := hvalid.eq_of_id hjmem hi hid
        exact hj hhas.2
  · -- A new incident is opened.
    have hnew : ∀ rule' key', (e.incident h.digest16 now t.store.next).Has rule' key' ↔
        rule' = rule ∧ key' = key := by
      intro rule' key'
      simp only [Incident.Has, Evaluation.incident, hhash, Option.some.injEq, Incident.live, e]
      constructor
      · rintro ⟨-, rfl, rfl⟩
        exact ⟨rfl, rfl⟩
      · rintro ⟨rfl, rfl⟩
        exact ⟨by decide, rfl, rfl⟩
    refine ⟨fun rule' key' => ?_, fun j hj => ?_⟩
    · simp only [Found, List.mem_append, List.mem_singleton, or_and_right, exists_or,
        exists_eq_left, hnew]
    · simp only [List.mem_append, List.mem_singleton]
      refine or_iff_left ?_
      rintro rfl
      exact hj ⟨rfl, congrArg some hhash⟩

/-- Resolving incidents leaves the others alone. -/
theorem sameOutside_resolveIncidents {now : ℚ} {incidents : List Incident}
    (hvalid : t.store.Valid) (hP : ∀ i, P i → P (i.resolve now))
    (hincidents : ∀ i ∈ incidents, i ∈ t.store.rows ∧ P i) :
    SameOutside P t.store (resolveIncidents now incidents t).store := by
  have hresolved : ∀ i ∈ t.store.rows, i.id ∈ incidents.map Incident.id → P i := by
    intro i hi hid
    obtain ⟨j, hj, hij⟩ := List.mem_map.mp hid
    obtain rfl := hvalid.eq_of_id (hincidents j hj).1 hi hij
    exact (hincidents j hj).2
  intro j hj
  rw [store_resolveIncidents, Store.change, List.mem_map]
  constructor
  · rintro ⟨i, hi, rfl⟩
    split at hj
    · rename_i hid
      exact absurd (hP i (hresolved i hi hid)) hj
    · rename_i hid
      rwa [if_neg hid]
  · exact fun hmem => ⟨j, hmem, if_neg fun hid => hj (hresolved j hmem hid)⟩

end Tables

/-! ### One evaluation -/

/-- What an evaluation does with the alert of a key, when `opened` are the keys that had an open
incident and `streak` is the new streak: whether it leaves an open incident. -/
def Report.Opens (r : Report) (opened : Prop) (streak : ℕ) (a : Alert) : Prop :=
  opened ∨ alertMinCycles ≤ streak ∧ r.heldBack a = false

section Evaluation

variable {h : Digests} {r : Report} {t : Session} {streaks : Streaks} {openKeys : List String}
  {fault : Fault}

/-- **What the loop does** when nothing raises on the way: each alert is counted, and those that
open an incident have one. -/
theorem evaluateLoop_spec {current : List (String × Alert)} (hvalid : t.store.Valid)
    (hnodup : (current.map Prod.fst).Nodup) (hne : ∀ key ∈ current.map Prod.fst, key ≠ "") :
    ∃ streaks' t', evaluateLoop h r openKeys current none (streaks, t) = (false, streaks', t') ∧
      t'.store.Valid ∧
      (∀ key, streaks' key =
        if key ∈ current.map Prod.fst then streaks key + 1 else streaks key) ∧
      (∀ rule key, Found t'.store rule key ↔ Found t.store rule key ∨
        rule = alertRule ∧ ∃ a, (key, a) ∈ current ∧
          r.Opens (key ∈ openKeys) (streaks key + 1) a) ∧
      SameOutside (fun i => i.rule = alertRule ∧ ∃ key ∈ current.map Prod.fst,
        i.hostIdsHash = some key) t.store t'.store := by
  induction current generalizing streaks t with
  | nil =>
    exact ⟨streaks, t, rfl, hvalid, by simp, by simp, .refl _ _⟩
  | cons entry rest ih =>
    obtain ⟨key, a⟩ := entry
    rw [List.map_cons, List.nodup_cons] at hnodup
    obtain ⟨hkey, hnodup⟩ := hnodup
    obtain ⟨hkeyne, hne⟩ := List.forall_mem_cons.mp hne
    -- The alerts after it have other keys, whose streaks are as before.
    have hrest : ∀ k, (∃ b, (k, b) ∈ rest ∧ r.Opens (k ∈ openKeys)
        (Function.update streaks key (streaks key + 1) k + 1) b) ↔
        ∃ b, (k, b) ∈ rest ∧ r.Opens (k ∈ openKeys) (streaks k + 1) b := by
      intro k
      refine exists_congr fun b => and_congr_right fun hb => ?_
      have hk : k ≠ key := by
        rintro rfl
        exact hkey (List.mem_map.mpr ⟨_, hb, rfl⟩)
      rw [Function.update_of_ne hk]
    have hcount : ∀ k, (if k ∈ rest.map Prod.fst then
        Function.update streaks key (streaks key + 1) k + 1
        else Function.update streaks key (streaks key + 1) k) =
        if k ∈ key :: rest.map Prod.fst then streaks k + 1 else streaks k := by
      intro k
      by_cases hk : k = key
      · subst hk
        rw [if_neg hkey, if_pos List.mem_cons_self, Function.update_self]
      · rw [Function.update_of_ne hk]
        simp only [List.mem_cons, hk, false_or]
    have hmem : ∀ k, (∃ b, (k, b) ∈ (key, a) :: rest ∧ r.Opens (k ∈ openKeys) (streaks k + 1) b) ↔
        (k = key ∧ r.Opens (key ∈ openKeys) (streaks key + 1) a) ∨
          ∃ b, (k, b) ∈ rest ∧ r.Opens (k ∈ openKeys) (streaks k + 1) b := by
      intro k
      simp only [List.mem_cons, Prod.mk.injEq, or_and_right, exists_or]
      refine or_congr_left ⟨?_, ?_⟩
      · rintro ⟨b, ⟨rfl, rfl⟩, hb⟩
        exact ⟨rfl, hb⟩
      · rintro ⟨rfl, ha⟩
        exact ⟨a, ⟨rfl, rfl⟩, ha⟩
    have hlarger : ∀ i : Incident, (i.rule = alertRule ∧ ∃ k ∈ rest.map Prod.fst,
        i.hostIdsHash = some k) → i.rule = alertRule ∧ ∃ k ∈ key :: rest.map Prod.fst,
          i.hostIdsHash = some k := by
      rintro i ⟨hrule, k, hk, hhash⟩
      exact ⟨hrule, k, List.mem_cons_of_mem _ hk, hhash⟩
    simp only [evaluateLoop, reduceCtorEq, if_false, Option.map_none, List.map_cons]
    have hopens : r.Opens (key ∈ openKeys) (streaks key + 1) a ↔
        ¬ (key ∉ openKeys ∧ (streaks key + 1 < alertMinCycles ∨ r.heldBack a = true)) := by
      rw [Report.Opens]
      by_cases hopen : key ∈ openKeys <;> simp [hopen]
    split
    · rename_i hskip
      obtain ⟨streaks', t', heq, hvalid', hstreaks, hfound, hsame⟩ :=
        @ih t (Function.update streaks key (streaks key + 1)) hvalid hnodup hne
      refine ⟨streaks', t', heq, hvalid', fun k => (hstreaks k).trans (hcount k),
        fun rule k => ?_, hsame.mono hlarger⟩
      have hnot : ¬ (k = key ∧ r.Opens (key ∈ openKeys) (streaks key + 1) a) :=
        fun hk => hopens.mp hk.2 hskip
      rw [hfound, hrest, hmem, or_iff_right hnot]
    · rename_i hopen
      obtain ⟨t₁, ht₁, hvalid₁, hfound₁, hsame₁⟩ := openOrExtend_spec h r.now alertRule
        (alertTitle r.cfg a) a.severity (r.hostIds a) hvalid hkeyne
      rw [ht₁]
      obtain ⟨streaks', t', heq, hvalid', hstreaks, hfound, hsame⟩ :=
        @ih t₁ (Function.update streaks key (streaks key + 1)) hvalid₁ hnodup hne
      refine ⟨streaks', t', heq, hvalid', fun k => (hstreaks k).trans (hcount k),
        fun rule k => ?_, (hsame₁.mono ?_).trans (hsame.mono hlarger)⟩
      · rw [hfound, hfound₁, hrest, hmem, and_iff_left (hopens.mpr hopen), or_assoc,
          ← and_or_left]
      · rintro i ⟨hrule, hhash⟩
        exact ⟨hrule, key, List.mem_cons_self, hhash⟩

/-- The open incidents of the source, as an evaluation reads them. -/
theorem mem_openLike_iff {s : Store} {cfg : IntegrationConfig} {i : Incident} :
    i ∈ openLike alertRule (alertPrefix h cfg) s ↔
      i ∈ s.rows ∧ i.live = true ∧ i.OfSource h cfg := by
  simp only [openLike, List.mem_filter, decide_eq_true_eq, Incident.OfSource, Option.any_eq_true]

theorem mem_openKeys_iff {s : Store} {cfg : IntegrationConfig} {key : String}
    (hkey : startsWith (alertPrefix h cfg) key = true) :
    key ∈ (openLike alertRule (alertPrefix h cfg) s).filterMap Incident.hostIdsHash ↔
      Found s alertRule key := by
  simp only [List.mem_filterMap, mem_openLike_iff, Found]
  constructor
  · rintro ⟨i, ⟨hi, hlive, hrule, -⟩, hhash⟩
    exact ⟨i, hi, hlive, hrule, hhash⟩
  · rintro ⟨i, hi, hlive, hrule, hhash⟩
    exact ⟨i, ⟨hi, hlive, hrule, key, hhash, hkey⟩, hhash⟩

/-- **What an evaluation does** when nothing raises on the way. It counts its alerts and ends the
other streaks of its source. Open incidents of the source are those of the alerts that had one, or
open one. -/
theorem evaluateAlerts_spec (hvalid : t.store.Valid) (streaks : Streaks) :
    ∃ streaks' t', evaluateAlerts h r .never (streaks, t) = (false, streaks', t') ∧
      t'.store.Valid ∧
      (∀ key, streaks' key =
        if startsWith (alertPrefix h r.cfg) key = true then
          if key ∈ r.keys h then streaks key + 1 else 0
        else streaks key) ∧
      (∀ key, startsWith (alertPrefix h r.cfg) key = true → (Found t'.store alertRule key ↔
        ∃ a, (key, a) ∈ r.current h ∧
          r.Opens (Found t.store alertRule key) (streaks key + 1) a)) ∧
      SameOutside (Incident.OfSource h r.cfg) t.store t'.store := by
  generalize hopened : openLike alertRule (alertPrefix h r.cfg) t.store = opened
  obtain ⟨streaks', t₁, hloop, hvalid₁, hstreaks, hfound, hsame⟩ := @evaluateLoop_spec h r t
    (endStreaks h r streaks) (opened.filterMap Incident.hostIdsHash) (r.current h) hvalid
    (nodup_firstByKey _ _) fun _ => ne_empty_of_mem_keys
  generalize hgone : (opened.filter fun i =>
    i.hostIdsHash.all fun key => key ∉ (r.current h).map Prod.fst) = gone
  have heq : evaluateAlerts h r .never (streaks, t) =
      (false, streaks', resolveIncidents r.now gone t₁) := by
    simp only [evaluateAlerts, reduceCtorEq, if_false, Fault.fuse, hopened, hloop, hgone,
      Bool.false_eq_true]
  -- What is gone has been open, and the loop has left it alone.
  have hmemgone : ∀ i, i ∈ gone ↔ (i ∈ t.store.rows ∧ i.live = true ∧ i.OfSource h r.cfg) ∧
      ∀ key, i.hostIdsHash = some key → key ∉ r.keys h := by
    intro i
    simp only [← hgone, List.mem_filter, ← hopened, mem_openLike_iff, Option.all_eq_true,
      decide_eq_true_eq, Report.keys]
  have hkept : ∀ i, (∀ key, i.hostIdsHash = some key → key ∉ r.keys h) →
      (i ∈ t₁.store.rows ↔ i ∈ t.store.rows) := by
    intro i hi
    refine hsame i ?_
    rintro ⟨-, key, hkey, hhash⟩
    exact hi key hhash hkey
  have hgonerows : ∀ i ∈ gone, i ∈ t₁.store.rows ∧ i.OfSource h r.cfg := fun i hi =>
    ⟨(hkept i ((hmemgone i).mp hi).2).mpr ((hmemgone i).mp hi).1.1, ((hmemgone i).mp hi).1.2.2⟩
  have hrows := store_resolveIncidents r.now gone t₁
  refine ⟨streaks', _, heq, ?_, fun key => ?_, fun key hkey => ?_, ?_⟩
  · rw [hrows]
    exact hvalid₁.change ((keeps_resolve r.now).ite fun i => i.id ∈ gone.map Incident.id)
  · rw [hstreaks, endStreaks]
    by_cases hstart : startsWith (alertPrefix h r.cfg) key = true
    · by_cases hkey : key ∈ (r.current h).map Prod.fst <;> simp [hstart, hkey, Report.keys]
    · have hkey : key ∉ (r.current h).map Prod.fst := fun hkey =>
        hstart (startsWith_of_mem_keys hkey)
      simp [hstart, hkey]
  · have hresolved : Found (resolveIncidents r.now gone t₁).store alertRule key ↔
        Found t₁.store alertRule key ∧ key ∈ r.keys h := by
      rw [hrows]
      constructor
      · rintro ⟨j, hj, hhas⟩
        obtain ⟨i, hi, rfl⟩ := List.mem_map.mp hj
        have hihas : i.Has alertRule key :=
          ((keeps_resolve r.now).ite fun i => i.id ∈ gone.map Incident.id).has hhas
        refine ⟨⟨i, hi, hihas⟩, ?_⟩
        by_contra hnot
        have hnone : ∀ k, i.hostIdsHash = some k → k ∉ r.keys h := by
          intro k hk
          rwa [← Option.some.inj (hihas.2.2.symm.trans hk)]
        have higone : i ∈ gone := (hmemgone i).mpr
          ⟨⟨(hkept i hnone).mp hi, hihas.1, hihas.2.1, key, hihas.2.2, hkey⟩, hnone⟩
        rw [if_pos (List.mem_map_of_mem higone)] at hhas
        exact absurd hhas.1 (by simp [Incident.live, Incident.resolve])
      · rintro ⟨⟨i, hi, hihas⟩, hcurrent⟩
        refine ⟨_, List.mem_map_of_mem hi, ?_⟩
        rw [if_neg]
        · exact hihas
        · intro hid
          obtain ⟨j, hj, hij⟩ := List.mem_map.mp hid
          obtain rfl := hvalid₁.eq_of_id (hgonerows j hj).1 hi hij
          exact ((hmemgone j).mp hj).2 key hihas.2.2 hcurrent
    rw [hresolved, hfound]
    have hends : key ∈ r.keys h → endStreaks h r streaks key = streaks key := fun hcurrent =>
      if_neg fun hgone => hgone.2 hcurrent
    constructor
    · rintro ⟨hopen | ⟨-, a, ha, hopens⟩, hcurrent⟩
      · obtain ⟨⟨_, a⟩, ha, rfl⟩ := List.mem_map.mp hcurrent
        exact ⟨a, ha, .inl hopen⟩
      · rw [← hopened, mem_openKeys_iff hkey, hends hcurrent] at hopens
        exact ⟨a, ha, hopens⟩
    · rintro ⟨a, ha, hopens⟩
      have hcurrent : key ∈ r.keys h := List.mem_map.mpr ⟨_, ha, rfl⟩
      refine ⟨.inr ⟨rfl, a, ha, ?_⟩, hcurrent⟩
      rwa [← hopened, mem_openKeys_iff hkey, hends hcurrent]
  · refine SameOutside.trans (hsame.mono ?_) (sameOutside_resolveIncidents hvalid₁
      (fun i hi => hi) hgonerows)
    rintro i ⟨hrule, key, hkey, hhash⟩
    exact ⟨hrule, key, hhash, startsWith_of_mem_keys hkey⟩

/-- A loop that is to raise does so. -/
theorem evaluateLoop_raises {current : List (String × Alert)} {n : ℕ} {p : Streaks × Session} :
    (evaluateLoop h r openKeys current (some n) p).1 = true := by
  induction current generalizing n p with
  | nil => rfl
  | cons entry rest ih =>
    obtain ⟨streaks, t⟩ := p
    simp only [evaluateLoop]
    split
    · rfl
    split
    · exact ih
    split
    · rfl
    · exact ih

theorem evaluateAlerts_raises {p : Streaks × Session} (hfault : fault ≠ .never) :
    (evaluateAlerts h r fault p).1 = true := by
  cases fault with
  | never => exact absurd rfl hfault
  | before => rfl
  | reading => rfl
  | «at» n => simp [evaluateAlerts, Fault.fuse, evaluateLoop_raises]

end Evaluation

end Nodeglow.Incidents
