import Nodeglow.Foundation.Counter
import Nodeglow.Foundation.Run

/-!
# The counts of log templates

Each log message is counted in memory for its template; a template that is neither in the cache of
known templates nor among the new ones is noted as new. A flush takes the counts and the new
templates out of memory, inserts the new ones or adds to their rows, and adds the counts of all
others to their rows, in a number of statements and one commit. When it fails, what it took is
handed back. Messages are counted on between its statements. A cleanup deletes the rows that were
not seen for long, and the cache is read again.

A flush adds nothing where it takes a template for known that has no row. So the counts are
conserved as long as a cleanup deletes rows of idle templates only, no flush commits a count of a
template that has no row and is not new, and no commit takes effect that is reported as failed. The
second holds as long as no message is counted for a template whose row was deleted before the cache
is read again.

The templates are those of one tenant, in one process. A flush locks the rows that it has written,
and a cleanup waits for them.

## Main results

* `Inv.apply` — the steps that meet the condition conserve the counts.
* `guarded_keeps_of_prompt` — runs in which no flush meets a template without a row.
* `counts_conserved` — all runs of steps that meet the condition conserve the counts.
* `not_conserved_pending` — a cleanup of a template with a count in memory.

Source: `backend/services/log_intelligence.py`, lines 331–353, 412–463, 468–566, 594–599 and
1847–1888; `backend/scheduler.py`, lines 723–732.
-/

namespace Nodeglow.LogIntelligence.Templates

variable {τ : Type} [DecidableEq τ]

/-! ### Counting -/

/-- A new template: its text, a message, and its tags. -/
structure NewTemplate where
  template : String
  message : String
  tags : List String

/-- `LogTemplate`: the columns that a flush and a cleanup write and read. -/
structure LogTemplate where
  template : String
  message : String
  count : ℕ
  firstSeen : ℤ
  lastSeen : ℤ
  tags : String
deriving DecidableEq, Repr

/-- `_TenantLogState`: the known templates, the counts since the last flush, and the new templates.
The ids in the cache are not read here. -/
structure Memory (τ : Type) where
  templateCache : τ → Bool
  templateCounts : Counter τ
  newTemplates : AList fun _ : τ => NewTemplate

/-- `extract_template` and `auto_tag`. -/
structure Extraction (τ : Type) where
  extractTemplate : String → String × τ
  autoTag : String → List String

/-- `process_message`: the memory, and whether the template is new. -/
def processMessage (x : Extraction τ) (m : Memory τ) (message : String) : Memory τ × Bool :=
  let (template, h) := x.extractTemplate message
  let isNew := !m.templateCache h && h ∉ m.newTemplates
  ({ m with
      templateCounts := m.templateCounts.add h 1
      newTemplates :=
        if isNew then m.newTemplates.insert h ⟨template, message, x.autoTag message⟩
        else m.newTemplates },
    isNew)

/-! ### Flushing -/

/-- What a flush took out of memory, the time of the flush, and the templates whose statement has
not been executed. -/
structure Batch (τ : Type) where
  counts : Counter τ
  newTpls : AList fun _ : τ => NewTemplate
  now : ℤ
  todo : List τ

/-- The start of `flush_templates`. The statements insert the new templates first. -/
def Memory.take (m : Memory τ) (now : ℤ) : Memory τ × Batch τ :=
  ({ m with templateCounts := ∅, newTemplates := ∅ },
    { counts := m.templateCounts
      newTpls := m.newTemplates
      now := now
      todo := m.newTemplates.keys ++ m.templateCounts.keys.filter (· ∉ m.newTemplates) })

/-- The row that is inserted for a new template. -/
def NewTemplate.row (t : NewTemplate) (count : ℕ) (now : ℤ) : LogTemplate where
  template := t.template
  message := t.message
  count := count
  firstSeen := now
  lastSeen := now
  tags := String.ofList ((",".intercalate t.tags).toList.take 256)

/-- The rows after the statements of a flush: `_write_template_batch`. -/
def Batch.store (b : Batch τ) (rows : τ → Option LogTemplate) : τ → Option LogTemplate := fun h =>
  match b.newTpls.lookup h with
  | some t =>
    let count := (b.counts.lookup h).getD 1
    match rows h with
    | some r => some { r with count := r.count + count, lastSeen := max r.lastSeen b.now }
    | none => some (t.row count b.now)
  | none =>
    match b.counts.lookup h with
    | some count => (rows h).map fun r => { r with count := r.count + count, lastSeen := b.now }
    | none => rows h

/-- What `flush_templates` hands back when it fails. -/
def Memory.restore (m : Memory τ) (b : Batch τ) : Memory τ :=
  { m with
    templateCounts := m.templateCounts.merge b.counts
    newTemplates := m.newTemplates ∪ b.newTpls }

/-- The rows that the statements of a flush have written are locked. -/
def Batch.locks (b : Batch τ) (h : τ) : Bool := (h ∈ b.counts || h ∈ b.newTpls) && h ∉ b.todo

/-! ### Cleaning up -/

/-- One day, in microseconds. -/
def oneDay : ℤ := 24 * 60 * 60 * 1000000

/-- The arguments of `cleanup_log_templates`, the time, and the templates of learned patterns. -/
structure Cleanup (τ : Type) where
  retentionDays : ℤ
  singletonRetentionDays : ℤ
  now : ℤ
  isProtected : τ → Bool

/-- A row that is expired, and of no learned pattern. -/
def Cleanup.deletes (c : Cleanup τ) (h : τ) (r : LogTemplate) : Bool :=
  0 < c.retentionDays && !c.isProtected h &&
    (r.lastSeen < c.now - c.retentionDays * oneDay ||
      0 < c.singletonRetentionDays && r.count ≤ 1 &&
        r.lastSeen < c.now - c.singletonRetentionDays * oneDay)

/-- `cleanup_log_templates`: the rows that are left. -/
def cleanupLogTemplates (c : Cleanup τ) (rows : τ → Option LogTemplate) : τ → Option LogTemplate :=
  fun h => (rows h).filter fun r => !c.deletes h r

/-- The templates whose rows are deleted. -/
def Cleanup.removes (c : Cleanup τ) (rows : τ → Option LogTemplate) (h : τ) : Bool :=
  (rows h).any (c.deletes h)

/-! ### Side by side -/

/-- The templates of a tenant. `selected` is what `load_template_cache` has read, and `processed` is
the number of messages of each template, since it was removed while idle. -/
structure State (τ : Type) where
  memory : Memory τ
  rows : τ → Option LogTemplate
  flush : Option (Batch τ)
  selected : Option (τ → Bool)
  processed : τ → ℕ

/-- What happens: a message, the steps of a flush, a cleanup with its commit, and the two steps of
`load_template_cache`. -/
inductive Event (τ : Type)
  | message (text : String)
  | take (now : ℤ)
  | execute (n : ℕ)
  | commit
  /-- The commit takes effect, but is reported as failed. -/
  | commitUnreported
  | fail
  | cleanup (c : Cleanup τ)
  | select
  | assign

/-- The stored count of a template. -/
def State.stored (s : State τ) (h : τ) : ℕ := (s.rows h).elim 0 LogTemplate.count

/-- The count of a template that a flush has taken. -/
def State.inFlight (s : State τ) (h : τ) : ℕ := s.flush.elim 0 fun b => b.counts.get h

/-- The count of a template in memory. -/
def State.pending (s : State τ) (h : τ) : ℕ := s.memory.templateCounts.get h + s.inFlight h

/-- The state after an event, if it can happen. One flush runs at a time. -/
def Event.apply (x : Extraction τ) (s : State τ) : Event τ → Option (State τ)
  | message text =>
    some
      { s with
        memory := (processMessage x s.memory text).1
        processed := fun h =>
          if h = (x.extractTemplate text).2 then s.processed h + 1 else s.processed h }
  | take now =>
    if s.flush.isSome ∨ s.memory.templateCounts.keys = [] ∧ s.memory.newTemplates.keys = [] then
      none
    else
      let taken := s.memory.take now
      some { s with memory := taken.1, flush := some taken.2 }
  | execute n =>
    s.flush.map fun b =>
      { s with
        memory :=
          { s.memory with
            templateCache := fun h =>
              s.memory.templateCache h || (h ∈ b.todo.take n && h ∈ b.newTpls) }
        flush := some { b with todo := b.todo.drop n } }
  | commit =>
    match s.flush with
    | some b => if b.todo = [] then some { s with rows := b.store s.rows, flush := none } else none
    | none => none
  | commitUnreported =>
    match s.flush with
    | some b =>
      if b.todo = [] then
        some { s with rows := b.store s.rows, memory := s.memory.restore b, flush := none }
      else none
    | none => none
  | fail => s.flush.map fun b => { s with memory := s.memory.restore b, flush := none }
  | cleanup c =>
    -- The statement waits for rows that are locked.
    if s.flush.any (fun b => (b.counts.keys ++ b.newTpls.keys).any fun h =>
        b.locks h && c.removes s.rows h) then none
    else
      some
        { s with
          rows := cleanupLogTemplates c s.rows
          processed := fun h =>
            if c.removes s.rows h ∧ s.pending h = 0 then 0 else s.processed h }
  | select => some { s with selected := some fun h => (s.rows h).isSome }
  | assign =>
    s.selected.map fun cache =>
      { s with memory := { s.memory with templateCache := cache }, selected := none }

/-- The start of a process, with the rows of a table. -/
def State.init (rows : τ → Option LogTemplate) : State τ where
  memory := ⟨fun _ => false, ∅, ∅⟩
  rows := rows
  flush := none
  selected := none
  processed h := (rows h).elim 0 LogTemplate.count

/-- The stored and the pending counts are those of the messages. -/
def Conserved (s : State τ) : Prop := ∀ h, s.stored h + s.pending h = s.processed h

/-- A cleanup removes idle templates only, a flush commits no count of a template that is not new
and has no row, and a commit that takes effect is reported. -/
def Event.Keeps (s : State τ) : Event τ → Prop
  | cleanup c => ∀ h, c.removes s.rows h = true → s.pending h = 0
  | commit => ∀ b ∈ s.flush, ∀ h ∈ b.counts, h ∈ b.newTpls ∨ (s.rows h).isSome = true
  | commitUnreported => False
  | _ => True

/-- A cleanup removes idle templates only, no message is counted for a template that is in the cache
though it has no row, unless it is new, and a commit that takes effect is reported. -/
def Event.Prompt (x : Extraction τ) (s : State τ) : Event τ → Prop
  | cleanup c => ∀ h, c.removes s.rows h = true → s.pending h = 0
  | message text =>
    let h := (x.extractTemplate text).2
    s.memory.templateCache h = true →
      h ∈ s.memory.newTemplates ∨ (s.rows h).isSome = true ∨ ∃ b ∈ s.flush, h ∈ b.newTpls
  | commitUnreported => False
  | _ => True

/-- The steps of a tenant. -/
def Step (x : Extraction τ) (s : State τ) (e : Event τ) (s' : State τ) : Prop :=
  e.apply x s = some s'

/-! ### Counting and flushing -/

variable {x : Extraction τ} {s s' : State τ} {m : Memory τ} {b : Batch τ} {c : Cleanup τ}
  {rows : τ → Option LogTemplate} {h : τ} {text : String}

theorem get_processMessage (x : Extraction τ) (m : Memory τ) (text : String) (h : τ) :
    (processMessage x m text).1.templateCounts.get h =
      m.templateCounts.get h + if h = (x.extractTemplate text).2 then 1 else 0 :=
  Counter.get_add ..

theorem mem_newTemplates_processMessage :
    h ∈ (processMessage x m text).1.newTemplates ↔ h ∈ m.newTemplates ∨
      h = (x.extractTemplate text).2 ∧ m.templateCache h = false := by
  simp only [processMessage, Bool.and_eq_true, Bool.not_eq_true', decide_eq_true_eq]
  split_ifs with hnew
  · rw [AList.mem_insert]
    constructor
    · rintro (rfl | hmem)
      · exact .inr ⟨rfl, hnew.1⟩
      · exact .inl hmem
    · rintro (hmem | ⟨rfl, -⟩)
      · exact .inr hmem
      · exact .inl rfl
  · refine (or_iff_left_of_imp ?_).symm
    rintro ⟨rfl, hcache⟩
    by_contra hmem
    exact hnew ⟨hcache, hmem⟩

/-- A flush adds the counts that it has taken, where it inserts or finds a row. -/
theorem count_store (hnew : ∀ h ∈ b.newTpls, h ∈ b.counts)
    (hrow : h ∈ b.counts → h ∈ b.newTpls ∨ (rows h).isSome = true) :
    (b.store rows h).elim 0 LogTemplate.count =
      (rows h).elim 0 LogTemplate.count + b.counts.get h := by
  unfold Batch.store Counter.get
  cases htpl : b.newTpls.lookup h with
  | some t =>
    have hmem : h ∈ b.newTpls := AList.lookup_isSome.mp (by simp [htpl])
    obtain ⟨count, hcount⟩ := Option.isSome_iff_exists.mp (AList.lookup_isSome.mpr (hnew h hmem))
    cases rows h with
    | some r => simp [hcount]
    | none => simp [hcount, NewTemplate.row]
  | none =>
    cases hcount : b.counts.lookup h with
    | some count =>
      have hmem : h ∈ b.counts := AList.lookup_isSome.mp (by simp [hcount])
      have hnot : h ∉ b.newTpls := AList.lookup_eq_none.mp htpl
      obtain ⟨r, hr⟩ := Option.isSome_iff_exists.mp ((hrow hmem).resolve_left hnot)
      simp [hr]
    | none => simp

/-- After a flush every new template has a row, and no row is gone. -/
theorem isSome_store (hrow : h ∈ b.newTpls ∨ (rows h).isSome = true) :
    (b.store rows h).isSome = true := by
  unfold Batch.store
  cases htpl : b.newTpls.lookup h with
  | some t => cases rows h <;> rfl
  | none =>
    have hnot : h ∉ b.newTpls := AList.lookup_eq_none.mp htpl
    have hsome := hrow.resolve_left hnot
    cases b.counts.lookup h with
    | some count => simpa using hsome
    | none => exact hsome

omit [DecidableEq τ] in
/-- A row that is not removed is left as it is. -/
theorem cleanup_of_not_removes (h' : c.removes rows h = false) :
    cleanupLogTemplates c rows h = rows h := by
  unfold Cleanup.removes at h'
  unfold cleanupLogTemplates
  cases hrow : rows h with
  | none => rfl
  | some r =>
    rw [hrow, Option.any_some] at h'
    simp [Option.filter, h']

omit [DecidableEq τ] in
theorem cleanup_of_removes (h' : c.removes rows h = true) :
    cleanupLogTemplates c rows h = none := by
  unfold Cleanup.removes at h'
  unfold cleanupLogTemplates
  cases hrow : rows h with
  | none => simp [hrow] at h'
  | some r =>
    rw [hrow, Option.any_some] at h'
    simp [Option.filter, h']

/-! ### Steps -/

theorem apply_take {now : ℤ} (he : (Event.take now).apply x s = some s') :
    s.flush = none ∧
      s' = { s with memory := (s.memory.take now).1, flush := some (s.memory.take now).2 } := by
  simp only [Event.apply] at he
  split at he
  · cases he
  next hidle =>
    rw [not_or] at hidle
    exact ⟨by simpa using hidle.1, (Option.some.inj he).symm⟩

theorem apply_commit (he : Event.commit.apply x s = some s') :
    ∃ b, s.flush = some b ∧ s' = { s with rows := b.store s.rows, flush := none } := by
  simp only [Event.apply] at he
  split at he
  next b hb =>
    obtain ⟨-, he⟩ := Option.ite_none_right_eq_some.mp he
    exact ⟨b, hb, (Option.some.inj he).symm⟩
  · cases he

theorem apply_cleanup (he : (Event.cleanup c).apply x s = some s') :
    s' = { s with
      rows := cleanupLogTemplates c s.rows
      processed := fun h =>
        if c.removes s.rows h ∧ s.pending h = 0 then 0 else s.processed h } := by
  simp only [Event.apply] at he
  split at he
  · cases he
  · exact (Option.some.inj he).symm

/-! ### Conservation -/

/-- The counts are conserved, and new templates are counted. -/
structure Inv (s : State τ) : Prop where
  conserved : Conserved s
  new : ∀ h ∈ s.memory.newTemplates, h ∈ s.memory.templateCounts
  batch : ∀ b ∈ s.flush, ∀ h ∈ b.newTpls, h ∈ b.counts

theorem inv_init (rows : τ → Option LogTemplate) : Inv (State.init rows) where
  conserved h := by simp [State.init, State.stored, State.pending, State.inFlight]
  new h hh := absurd hh (AList.notMem_empty h)
  batch b hb := by cases hb

/-- What is handed back is what was taken. -/
theorem Inv.restore (hs : Inv s) (hb : s.flush = some b) :
    Inv { s with memory := s.memory.restore b, flush := none } where
  conserved h := by
    have hcounts := hs.conserved h
    simp only [State.stored, State.pending, State.inFlight, hb, Option.elim, Memory.restore,
      Counter.get_merge] at hcounts ⊢
    exact hcounts
  new h hh := by
    simp only [Memory.restore, AList.mem_union, Counter.mem_merge] at hh ⊢
    exact hh.imp (hs.new h) (hs.batch b hb h)
  batch b' hb' := by cases hb'

/-- A step that meets the condition conserves the counts. -/
theorem Inv.apply (hs : Inv s) {e : Event τ} (hkeeps : e.Keeps s) (he : e.apply x s = some s') :
    Inv s' := by
  cases e with
  | message text =>
    obtain rfl := Option.some.inj he
    refine ⟨fun h => ?_, fun h hh => ?_, hs.batch⟩
    · have hcounts := hs.conserved h
      simp only [State.stored, State.pending, State.inFlight, get_processMessage] at hcounts ⊢
      split
      · omega
      · omega
    · rcases mem_newTemplates_processMessage.mp hh with hh | ⟨rfl, -⟩
      · exact Counter.mem_add.mpr (.inr (hs.new h hh))
      · exact Counter.mem_add.mpr (.inl rfl)
  | take now =>
    obtain ⟨hnone, rfl⟩ := apply_take he
    refine ⟨fun h => ?_, fun h hh => absurd hh (AList.notMem_empty h), fun b hb => ?_⟩
    · have hcounts := hs.conserved h
      simp only [State.stored, State.pending, State.inFlight, hnone, Option.elim, Memory.take,
        Counter.get_empty, Nat.add_zero, Nat.zero_add] at hcounts ⊢
      exact hcounts
    · obtain rfl := Option.some.inj hb
      exact hs.new
  | execute n =>
    obtain ⟨b, hb, rfl⟩ := Option.map_eq_some_iff.mp he
    refine ⟨fun h => ?_, hs.new, fun b' hb' => ?_⟩
    · have hcounts := hs.conserved h
      simp only [State.stored, State.pending, State.inFlight, hb, Option.elim] at hcounts ⊢
      exact hcounts
    · obtain rfl := Option.some.inj hb'
      exact hs.batch b hb
  | commit =>
    obtain ⟨b, hb, rfl⟩ := apply_commit he
    refine ⟨fun h => ?_, hs.new, fun b' hb' => by cases hb'⟩
    have hcounts := hs.conserved h
    have hstore := count_store (hs.batch b hb) (hkeeps b hb h)
    simp only [State.stored, State.pending, State.inFlight, hb, Option.elim] at hcounts hstore ⊢
    omega
  | commitUnreported => exact hkeeps.elim
  | fail =>
    obtain ⟨b, hb, rfl⟩ := Option.map_eq_some_iff.mp he
    exact hs.restore hb
  | cleanup c =>
    obtain rfl := apply_cleanup he
    refine ⟨fun h => ?_, hs.new, hs.batch⟩
    have hcounts := hs.conserved h
    cases hremoves : c.removes s.rows h with
    | true =>
      have hidle := hkeeps h hremoves
      simp only [State.pending, State.inFlight, State.stored, cleanup_of_removes hremoves,
        hremoves, Option.elim] at hidle ⊢
      simp [hidle]
    | false =>
      simp only [State.pending, State.inFlight, State.stored, cleanup_of_not_removes hremoves,
        hremoves] at hcounts ⊢
      simpa using hcounts
  | select =>
    obtain rfl := Option.some.inj he
    exact ⟨hs.conserved, hs.new, hs.batch⟩
  | assign =>
    obtain ⟨cache, -, rfl⟩ := Option.map_eq_some_iff.mp he
    exact ⟨hs.conserved, hs.new, hs.batch⟩

/-! ### Prompt reloads -/

/-- Every counted template has a row or is going to be inserted, and no count is zero. -/
structure Known (s : State τ) : Prop where
  memory : ∀ h ∈ s.memory.templateCounts, h ∈ s.memory.newTemplates ∨ (s.rows h).isSome = true ∨
    ∃ b ∈ s.flush, h ∈ b.newTpls
  batch : ∀ b ∈ s.flush, ∀ h ∈ b.counts, h ∈ b.newTpls ∨ (s.rows h).isSome = true
  memory_pos : s.memory.templateCounts.Positive
  batch_pos : ∀ b ∈ s.flush, b.counts.Positive

theorem known_init (rows : τ → Option LogTemplate) : Known (State.init rows) where
  memory h hh := absurd hh (AList.notMem_empty h)
  batch b hb := by cases hb
  memory_pos := .empty
  batch_pos b hb := by cases hb

/-- A template with a count is not idle. -/
theorem Known.pending_ne_zero (hs : Known s)
    (hh : h ∈ s.memory.templateCounts ∨ ∃ b ∈ s.flush, h ∈ b.counts) : s.pending h ≠ 0 := by
  unfold State.pending State.inFlight
  rcases hh with hh | ⟨b, hb, hh⟩
  · have hpos := hs.memory_pos h hh
    omega
  · have hpos := hs.batch_pos b hb h hh
    rw [Option.mem_def.mp hb, Option.elim]
    omega

/-- Where a cleanup removes idle templates only, counted templates keep their rows. -/
theorem Known.isSome_cleanup (hs : Known s)
    (hidle : ∀ h, c.removes s.rows h = true → s.pending h = 0)
    (hh : h ∈ s.memory.templateCounts ∨ ∃ b ∈ s.flush, h ∈ b.counts)
    (hrow : (s.rows h).isSome = true) : (cleanupLogTemplates c s.rows h).isSome = true := by
  have hnot : c.removes s.rows h = false :=
    Bool.eq_false_iff.mpr fun hremoves => hs.pending_ne_zero hh (hidle h hremoves)
  rwa [cleanup_of_not_removes hnot]

/-- What is handed back is counted, and new where it has no row. -/
theorem Known.restore (hs : Known s) (hb : s.flush = some b) :
    Known { s with memory := s.memory.restore b, flush := none } where
  memory h hh := by
    simp only [Memory.restore, Counter.mem_merge, AList.mem_union] at hh ⊢
    rcases hh with hh | hh
    · rcases hs.memory h hh with hnew | hrow | ⟨b', hb', hnew⟩
      · exact .inl (.inl hnew)
      · exact .inr (.inl hrow)
      · obtain rfl := Option.some.inj (hb.symm.trans hb')
        exact .inl (.inr hnew)
    · rcases hs.batch b hb h hh with hnew | hrow
      · exact .inl (.inr hnew)
      · exact .inr (.inl hrow)
  batch b' hb' := by cases hb'
  memory_pos := hs.memory_pos.merge (hs.batch_pos b hb)
  batch_pos b' hb' := by cases hb'

theorem Known.apply (hs : Known s) {e : Event τ} (hprompt : e.Prompt x s)
    (he : e.apply x s = some s') : Known s' := by
  cases e with
  | message text =>
    obtain rfl := Option.some.inj he
    refine ⟨fun h hh => ?_, hs.batch, hs.memory_pos.add Nat.one_pos, hs.batch_pos⟩
    simp only [mem_newTemplates_processMessage]
    rcases Counter.mem_add.mp hh with rfl | hh
    · cases hcache : s.memory.templateCache (x.extractTemplate text).2 with
      | true => exact (hprompt hcache).imp_left .inl
      | false => exact .inl (.inr ⟨rfl, rfl⟩)
    · exact (hs.memory h hh).imp_left .inl
  | take now =>
    obtain ⟨hnone, rfl⟩ := apply_take he
    refine ⟨fun h hh => absurd hh (AList.notMem_empty h), fun b hb h hh => ?_, .empty,
      fun b hb => ?_⟩
    · obtain rfl := Option.some.inj hb
      rcases hs.memory h hh with hnew | hrow | ⟨b', hb', -⟩
      · exact .inl hnew
      · exact .inr hrow
      · rw [hnone] at hb'
        cases hb'
    · obtain rfl := Option.some.inj hb
      exact hs.memory_pos
  | execute n =>
    obtain ⟨b, hb, rfl⟩ := Option.map_eq_some_iff.mp he
    refine ⟨fun h hh => ?_, fun b' hb' => ?_, hs.memory_pos, fun b' hb' => ?_⟩
    · refine (hs.memory h hh).imp_right (Or.imp_right ?_)
      rintro ⟨b', hb', hnew⟩
      obtain rfl := Option.some.inj (hb.symm.trans hb')
      exact ⟨_, rfl, hnew⟩
    · obtain rfl := Option.some.inj hb'
      exact hs.batch b hb
    · obtain rfl := Option.some.inj hb'
      exact hs.batch_pos b hb
  | commit =>
    obtain ⟨b, hb, rfl⟩ := apply_commit he
    refine ⟨fun h hh => ?_, fun b' hb' => (by cases hb'), hs.memory_pos,
      fun b' hb' => (by cases hb')⟩
    rcases hs.memory h hh with hnew | hrow | ⟨b', hb', hnew⟩
    · exact .inl hnew
    · exact .inr (.inl (isSome_store (.inr hrow)))
    · obtain rfl := Option.some.inj (hb.symm.trans hb')
      exact .inr (.inl (isSome_store (.inl hnew)))
  | commitUnreported => exact hprompt.elim
  | fail =>
    obtain ⟨b, hb, rfl⟩ := Option.map_eq_some_iff.mp he
    exact hs.restore hb
  | cleanup c =>
    obtain rfl := apply_cleanup he
    refine ⟨fun h hh => ?_, fun b hb h hh => ?_, hs.memory_pos, hs.batch_pos⟩
    · exact (hs.memory h hh).imp_right (Or.imp_left (hs.isSome_cleanup hprompt (.inl hh)))
    · exact (hs.batch b hb h hh).imp_right (hs.isSome_cleanup hprompt (.inr ⟨b, hb, hh⟩))
  | select =>
    obtain rfl := Option.some.inj he
    exact ⟨hs.memory, hs.batch, hs.memory_pos, hs.batch_pos⟩
  | assign =>
    obtain ⟨cache, -, rfl⟩ := Option.map_eq_some_iff.mp he
    exact ⟨hs.memory, hs.batch, hs.memory_pos, hs.batch_pos⟩

/-- Where the cache is read again before a message of a deleted template comes, no flush meets a
template without a row. -/
theorem guarded_keeps_of_prompt {events : List (Event τ)}
    (hrun : Run (Guarded (Event.Prompt x) (Step x)) (State.init rows) events s) :
    Run (Guarded Event.Keeps (Step x)) (State.init rows) events s := by
  refine hrun.guarded_mono (I := Known) (fun _ _ _ hs hstep => hs.apply hstep.1 hstep.2)
    (fun s e hs hprompt => ?_) (known_init rows)
  cases e with
  | commit => exact hs.batch
  | cleanup c => exact hprompt
  | commitUnreported => exact hprompt
  | message | take | execute | fail | select | assign => trivial

/-! ### Runs -/

/-- **Template counts are conserved.** In every run in which a cleanup removes idle templates only,
no flush commits a count of a template that is not new and has no row, and every commit that takes
effect is reported, the stored and the pending counts of each template are those of its messages. -/
theorem counts_conserved {events : List (Event τ)}
    (hrun : Run (Guarded Event.Keeps (Step x)) (State.init rows) events s) (h : τ) :
    s.stored h + s.pending h = s.processed h :=
  (hrun.invariant (fun _ _ _ hs hstep => hs.apply hstep.1 hstep.2) (inv_init rows)).conserved h

/-- Templates that are their own hashes. -/
def verbatim : Extraction String where
  extractTemplate message := (message, message)
  autoTag _ := []

/-- A message, a flush that fails, and another flush. -/
def retriedFlush : List (Event String) :=
  [.message "link up", .take 0, .execute 1, .fail, .take 30000000, .execute 1, .commit]

theorem counts_conserved_retriedFlush :
    ∃ s, Run (Step verbatim) (State.init fun _ => none) retriedFlush s ∧
      s.stored "link up" + s.pending "link up" = 1 := by
  have hend : (retriedFlush.foldlM (Event.apply verbatim) (State.init fun _ => none)).any
      (fun s => s.processed "link up" = 1) = true := by
    decide
  obtain ⟨s, hs, hprocessed⟩ := (Option.any_eq_true _ _).mp hend
  have hrun : Run (Guarded (Event.Prompt verbatim) (Step verbatim)) (State.init fun _ => none)
      retriedFlush s := by
    obtain ⟨t, ht, hs⟩ := Option.bind_eq_some_iff.mp (List.foldlM_cons.symm.trans hs)
    refine .cons ⟨?_, ht⟩ ((Run.of_foldlM hs).guarded_of_forall ?_)
    · simp [Event.Prompt, State.init]
    · simp [Event.Prompt]
  refine ⟨s, Run.of_foldlM hs, ?_⟩
  rw [counts_conserved (guarded_keeps_of_prompt hrun) "link up"]
  exact of_decide_eq_true hprocessed

/-- A template with one message, that was last seen at the beginning. -/
def seenOnce : LogTemplate where
  template := "link up"
  message := "link up"
  count := 1
  firstSeen := 0
  lastSeen := 0
  tags := ""

/-- A message of a template comes before the cleanup that deletes its row, and is flushed after the
cache is read again. -/
def cleanedPending : List (Event String) :=
  [.select, .assign, .message "link up", .cleanup ⟨90, 7, 8 * oneDay, fun _ => false⟩, .select,
    .assign, .take (8 * oneDay), .execute 1, .commit]

/-- **A cleanup of a template with a count in memory** loses that count, and the stored one. -/
theorem not_conserved_pending :
    ¬∀ (x : Extraction String) (rows : String → Option LogTemplate) (events : List (Event String))
      (s : State String), Run (Step x) (State.init rows) events s →
      ∀ h, s.stored h + s.pending h = s.processed h := by
  intro hall
  have hend : (cleanedPending.foldlM (Event.apply verbatim)
      (State.init fun h => if h = "link up" then some seenOnce else none)).any
      (fun s => s.stored "link up" = 0 ∧ s.pending "link up" = 0 ∧ s.processed "link up" = 2) =
        true := by
    decide
  obtain ⟨s, hs, hcounts⟩ := (Option.any_eq_true _ _).mp hend
  obtain ⟨hstored, hpending, hprocessed⟩ := of_decide_eq_true hcounts
  have hlost := hall verbatim _ _ s (Run.of_foldlM hs) "link up"
  rw [hstored, hpending, hprocessed] at hlost
  cases hlost

end Nodeglow.LogIntelligence.Templates
