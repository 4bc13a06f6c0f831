import Nodeglow.Foundation.LocalValue
import Nodeglow.Backend.Tenancy.SessionFilter

/-!
# The settings of row-level security

The policies of the database read two settings, the tenant and whether the system is acting. Before
each statement a hook compares the settings that the statement needs with those that the connection
remembers to have sent, and sends them only if they differ. They are local to the transaction, so
listeners drop the memory where the database drops the settings: at the boundaries of transactions,
when the connection goes back to the pool, and at a rollback to a savepoint, which may restore
anything.

The invariant is that the remembered settings, unless they are marked as unknown, are those of the
database (`Connection.Coherent`). So every statement runs with the settings it needs
(`Connection.settings_in_force`). The hook leaves savepoint commands alone and tells them by their
text, which it gets right for the commands that the mapper sends
(`isSavepointStatement_of_command`): settings sent ahead of a rollback would be remembered and lost.

## Main results

* `Connection.Coherent.step` — one event.

Source: `backend/services/pg_rls.py`, lines 386–495.
-/

namespace Nodeglow.Tenancy.Rls

/-- `nodeglow.tenant_id` and `nodeglow.system`. -/
abbrev Settings := String × String

/-- What a transaction that set nothing sees. -/
def clean : Settings := ("", "off")

/-- After a rollback to a savepoint the settings may be any. -/
def unknown : Settings := ("?", "?")

/-- `wanted_settings`: the ambient context, else the session's binding, else nothing. -/
def wantedSettings (ctx : Option TenantContext) (boundTenant : Option ℕ) : Settings :=
  match ctx with
  | none =>
      match boundTenant with
      | some tenant => (toString tenant, "off")
      | none => clean
  | some (.system _ _ _) => ("", "on")
  | some (.tenant tenant) => (toString tenant, "off")

/-- `set_config_sql`: the settings that the statement sets. -/
def setConfigSql (settings : Settings) : Except String Settings :=
  if settings.1 ≠ "" ∧ ¬settings.1.toList.all Char.isDigit then
    .error s!"invalid tenant setting {settings.1}"
  else if settings.2 ≠ "on" ∧ settings.2 ≠ "off" then
    .error s!"invalid system setting {settings.2}"
  else .ok settings

def savepointPrefixes : List (List Char) :=
  ["SAVEPOINT".toList, "RELEASE SAVEPOINT".toList, "ROLLBACK TO SAVEPOINT".toList]

/-- `_is_savepoint_statement`, by the first 24 characters. -/
def isSavepointStatement (statement : List Char) : Bool :=
  let head := ((statement.take 24).dropWhile Char.isWhitespace).map Char.toUpper
  savepointPrefixes.any fun p => p.isPrefixOf head

/-- A statement. -/
inductive Statement
  | savepoint (name : String)
  | release (name : String)
  | rollbackTo (name : String)
  /-- Any other statement. No other statement of SQL starts like a savepoint command. -/
  | other (text : List Char) (h : isSavepointStatement text = false)

/-- The text of a statement, for savepoint commands that of the mapper. -/
def Statement.text : Statement → List Char
  | .savepoint name => "SAVEPOINT ".toList ++ name.toList
  | .release name => "RELEASE SAVEPOINT ".toList ++ name.toList
  | .rollbackTo name => "ROLLBACK TO SAVEPOINT ".toList ++ name.toList
  | .other text _ => text

/-- A transaction in the database. -/
structure Transaction where
  settings : LocalValue Settings
  /-- A statement has failed; only a rollback is possible. -/
  aborted : Bool
  deriving DecidableEq, Repr

/-- A pooled connection, with the code and the sessions that use it. -/
structure Connection where
  transaction : Option Transaction
  /-- The remembered settings. -/
  state : Option Settings
  /-- The entry of the session's tenant; the session may have none. -/
  bound : Option (Option ℕ)
  /-- The ambient context. -/
  current : Option TenantContext
  /-- The tenants that the sessions are bound to. -/
  binding : ℕ → Option ℕ
  /-- The binding of the session that uses the connection, when it last began a transaction. -/
  began : Option ℕ

namespace Connection

def init : Connection where
  transaction := none
  state := none
  bound := none
  current := none
  binding _ := none
  began := none

variable (c : Connection)

/-- The settings that the policies read. -/
def inForce : Settings := c.transaction.elim clean fun t => t.settings.value

/-- Send settings; the database refuses if the transaction is aborted. -/
def sendSettings (settings : Settings) : Except String Connection :=
  match c.transaction with
  | some t =>
      if t.aborted then .error "current transaction is aborted"
      else
        .ok { c with
          transaction := some { t with settings := t.settings.set settings }
          state := some settings }
  | none => .error "no transaction"

/-- `_before_cursor_execute`. -/
def beforeCursorExecute (statement : List Char) : Except String Connection :=
  if isSavepointStatement statement then .ok c
  else
    let want := wantedSettings c.current c.bound.join
    if c.state.getD clean = want then .ok c
    else
      match setConfigSql want with
      | .error error => .error error
      | .ok settings => c.sendSettings settings

/-- `_transaction_boundary`. -/
def transactionBoundary : Connection := { c with state := some clean }

/-- `_savepoint_rollback`. -/
def savepointRollback : Connection := { c with state := some unknown }

/-- `_pool_clear`. -/
def poolClear : Connection := { c with state := none, bound := none }

/-- `_after_begin`. -/
def afterBegin (session : ℕ) : Connection :=
  { c with bound := some (c.binding session), began := c.binding session }

/-- The database runs a statement. A savepoint command with a name it does not know fails. -/
def run (t : Transaction) (ok : Bool) : Statement → Transaction
  | .savepoint name =>
      if ok && !t.aborted then { t with settings := t.settings.savepoint name }
      else { t with aborted := true }
  | .release name =>
      match t.settings.release name with
      | some settings =>
          if ok && !t.aborted then { t with settings := settings } else { t with aborted := true }
      | none => { t with aborted := true }
  | .rollbackTo name =>
      match t.settings.rollbackTo name with
      | some settings => ⟨settings, false⟩
      | none => { t with aborted := true }
  | .other _ _ => if ok then t else { t with aborted := true }

/-- A statement is executed: the connection afterwards and, for other statements than savepoint
commands, the settings in force when the database runs it. -/
def execute (ok : Bool) (statement : Statement) : Connection × Option Settings :=
  -- the listener of a rollback to a savepoint comes before its statement
  let c := match statement with
    | .rollbackTo _ => c.savepointRollback
    | _ => c
  match c.beforeCursorExecute statement.text with
  | .error _ => (c, none)
  | .ok c =>
      match c.transaction with
      | none => (c, none)
      | some t =>
          ({ c with transaction := some (run t ok statement) },
            match statement with
            | .other _ _ => if t.aborted then none else some c.inForce
            | _ => none)

end Connection

/-- What can happen to a connection. -/
inductive Event
  /-- A scope is entered or left. -/
  | setContext (ctx : Option TenantContext)
  | bindSession (session : ℕ) (tenant : Option ℕ)
  | begin
  /-- A session has begun a transaction of its own, or a nested one, or joins a transaction. -/
  | afterBegin (session : ℕ)
  | execute (ok : Bool) (statement : Statement)
  | commit
  | rollback
  /-- The connection goes back to the pool. -/
  | checkin

namespace Connection

variable (c : Connection)

/-- One event; it has no value where the event cannot happen. -/
def step : Event → Option Connection
  | .setContext ctx => some { c with current := ctx }
  | .bindSession session tenant =>
      some { c with binding := Function.update c.binding session tenant }
  | .begin =>
      if c.transaction.isNone then
        some { c.transactionBoundary with transaction := some ⟨.start clean, false⟩ }
      else none
  | .afterBegin session => some (c.afterBegin session)
  | .execute ok statement =>
      -- a statement without a transaction begins one first
      if c.transaction.isSome then some (c.execute ok statement).1 else none
  | .commit => some { c.transactionBoundary with transaction := none }
  | .rollback => some { c.transactionBoundary with transaction := none }
  | .checkin => some { c.poolClear with transaction := none, began := none }

/-- The transition relation of `Connection.step`. -/
def Step (c : Connection) (e : Event) (c' : Connection) : Prop := c.step e = some c'

end Connection

/-! ### The texts of settings and statements -/

section Texts

variable {ctx : Option TenantContext} {boundTenant : Option ℕ}

/-- Wanted settings are never the mark of unknown ones. -/
theorem wantedSettings_ne_unknown : wantedSettings ctx boundTenant ≠ unknown := by
  unfold wantedSettings
  split
  · split <;> simp [clean, unknown]
  · simp [unknown]
  · simp [unknown]

/-- `set_config_sql` takes all wanted settings. -/
theorem setConfigSql_wantedSettings :
    setConfigSql (wantedSettings ctx boundTenant) = .ok (wantedSettings ctx boundTenant) := by
  have hdigits (n : ℕ) (c : Char) (hc : c ∈ Nat.toDigits 10 n) : c.isDigit = true :=
    Nat.isDigit_of_mem_toDigits (by decide) (by decide) hc
  unfold wantedSettings
  split
  · split
    · simpa [setConfigSql] using hdigits _
    · simp [setConfigSql, clean]
  · simp [setConfigSql]
  · simpa [setConfigSql] using hdigits _

/-- A text that starts with a savepoint command is taken for one. -/
theorem isSavepointStatement_append {p : List Char} (hp : p ∈ savepointPrefixes) (l : List Char) :
    isSavepointStatement (p ++ l) = true := by
  obtain ⟨hlength, hempty, hdrop, hupper⟩ : p.length ≤ 24 ∧ p.isEmpty = false ∧
      p.dropWhile Char.isWhitespace = p ∧ p.map Char.toUpper = p := by
    revert p
    decide
  refine List.any_eq_true.mpr ⟨p, hp, ?_⟩
  rw [List.take_append, List.take_of_length_le hlength, List.dropWhile_append, hdrop, hempty,
    if_neg Bool.false_ne_true, List.map_append, hupper, List.isPrefixOf_iff_prefix]
  exact List.prefix_append p _

/-- The hook knows the savepoint commands. -/
theorem isSavepointStatement_of_command (name : String) :
    isSavepointStatement (Statement.savepoint name).text = true ∧
      isSavepointStatement (Statement.release name).text = true ∧
      isSavepointStatement (Statement.rollbackTo name).text = true := by
  have hcommand (p q : List Char) (hp : p ∈ savepointPrefixes) (hq : q = p ++ [' ']) :
      isSavepointStatement (q ++ name.toList) = true := by
    rw [hq, List.append_assoc]
    exact isSavepointStatement_append hp _
  exact ⟨hcommand "SAVEPOINT".toList "SAVEPOINT ".toList (by decide) (by decide),
    hcommand "RELEASE SAVEPOINT".toList "RELEASE SAVEPOINT ".toList (by decide) (by decide),
    hcommand "ROLLBACK TO SAVEPOINT".toList "ROLLBACK TO SAVEPOINT ".toList (by decide) (by decide)⟩

end Texts

namespace Connection

/-! ### Remembered settings -/

/-- The remembered settings are those of the database, unless they are unknown, and the entry of
the session's tenant is the binding with which the session began. -/
structure Coherent (c : Connection) : Prop where
  remembered : c.state.getD clean = unknown ∨ c.state.getD clean = c.inForce
  bound : c.bound.join = c.began

variable {c c' : Connection}

theorem coherent_init : init.Coherent := ⟨Or.inr rfl, rfl⟩

/-- **The hook** leaves the wanted settings in force. -/
theorem Coherent.beforeCursorExecute {statement : List Char} (h : c.Coherent)
    (hsavepoint : isSavepointStatement statement = false)
    (hok : c.beforeCursorExecute statement = .ok c') :
    c'.Coherent ∧ c'.inForce = wantedSettings c.current c.began := by
  rw [Connection.beforeCursorExecute, hsavepoint, if_neg Bool.false_ne_true, h.bound] at hok
  dsimp only at hok
  split_ifs at hok with hsame
  · -- the remembered settings are not unknown, so they are those of the database
    obtain rfl := Except.ok.inj hok
    refine ⟨h, ?_⟩
    rcases h.remembered with hunknown | hremembered
    · exact absurd (hsame.symm.trans hunknown) wantedSettings_ne_unknown
    · exact hremembered.symm.trans hsame
  · rw [setConfigSql_wantedSettings] at hok
    dsimp only [sendSettings] at hok
    split at hok
    · split_ifs at hok
      obtain rfl := Except.ok.inj hok
      exact ⟨⟨Or.inr rfl, h.bound⟩, rfl⟩
    · cases hok

/-- The hook fails only in a transaction that is aborted, and does not change that. -/
theorem exists_beforeCursorExecute {t : Transaction} (ht : c.transaction = some t)
    (statement : List Char) :
    (t.aborted = true ∧ ∃ error, c.beforeCursorExecute statement = .error error) ∨
      ∃ c' t', c.beforeCursorExecute statement = .ok c' ∧ c'.transaction = some t' ∧
        t'.aborted = t.aborted := by
  unfold Connection.beforeCursorExecute
  dsimp only
  rw [setConfigSql_wantedSettings]
  split_ifs
  · exact Or.inr ⟨c, t, rfl, ht, rfl⟩
  · exact Or.inr ⟨c, t, rfl, ht, rfl⟩
  · cases haborted : t.aborted with
    | true =>
      refine Or.inl ⟨rfl, "current transaction is aborted", ?_⟩
      simp [sendSettings, ht, haborted]
    | false =>
      refine Or.inr ⟨{ c with
        transaction :=
          some { t with settings := t.settings.set (wantedSettings c.current c.bound.join) }
        state := some (wantedSettings c.current c.bound.join) }, _, ?_, rfl, haborted⟩
      simp [sendSettings, ht, haborted]

/-- Savepoints do not change the settings in force, but a rollback to one may. -/
theorem value_run (t : Transaction) (ok : Bool) (statement : Statement)
    (hrollback : ∀ name, statement ≠ .rollbackTo name) :
    (run t ok statement).settings.value = t.settings.value := by
  cases statement with
  | savepoint name =>
    simp only [run]
    split_ifs <;> rfl
  | release name =>
    simp only [run]
    split
    · next settings hrelease =>
      split_ifs
      · exact LocalValue.release_value hrelease
      · rfl
    · rfl
  | rollbackTo name => exact absurd rfl (hrollback name)
  | other text htext =>
    simp only [run]
    split_ifs <;> rfl

theorem Coherent.of_inForce {t : Transaction} (h : c.Coherent) (ht : t.settings.value = c.inForce) :
    { c with transaction := some t }.Coherent :=
  ⟨h.remembered.imp_right (·.trans ht.symm), h.bound⟩

/-- A savepoint command is sent as it is. -/
theorem beforeCursorExecute_of_savepoint {statement : List Char}
    (h : isSavepointStatement statement = true) (c : Connection) :
    c.beforeCursorExecute statement = .ok c := by
  rw [Connection.beforeCursorExecute, if_pos h]

theorem execute_of_ok {t : Transaction} {statement : Statement}
    (hrollback : ∀ name, statement ≠ .rollbackTo name)
    (hok : c.beforeCursorExecute statement.text = .ok c') (ht : c'.transaction = some t)
    (ok : Bool) :
    (c.execute ok statement).1 = { c' with transaction := some (run t ok statement) } := by
  cases statement with
  | rollbackTo name => exact absurd rfl (hrollback name)
  | savepoint | release | other => simp only [Connection.execute, hok, ht]

/-- **A statement** keeps the memory of the connection true. -/
theorem Coherent.execute {t : Transaction} (h : c.Coherent) (ht : c.transaction = some t) (ok : Bool)
    (statement : Statement) : (c.execute ok statement).1.Coherent := by
  cases statement with
  | savepoint name =>
    have hhook := beforeCursorExecute_of_savepoint (isSavepointStatement_of_command name).1 c
    rw [execute_of_ok (fun _ => by simp) hhook ht]
    refine h.of_inForce ((value_run t ok _ fun _ => by simp).trans ?_)
    simp [inForce, ht]
  | release name =>
    have hhook := beforeCursorExecute_of_savepoint (isSavepointStatement_of_command name).2.1 c
    rw [execute_of_ok (fun _ => by simp) hhook ht]
    refine h.of_inForce ((value_run t ok _ fun _ => by simp).trans ?_)
    simp [inForce, ht]
  | rollbackTo name =>
    have hhook := beforeCursorExecute_of_savepoint (isSavepointStatement_of_command name).2.2
      c.savepointRollback
    have ht' : c.savepointRollback.transaction = some t := ht
    simp only [Connection.execute, hhook, ht']
    exact ⟨Or.inl rfl, h.bound⟩
  | other text htext =>
    rcases exists_beforeCursorExecute ht text with ⟨-, error, herror⟩ | ⟨c', t', hok, ht', -⟩
    · have htext' : (Statement.other text htext).text = text := rfl
      simpa only [Connection.execute, htext', herror] using h
    · obtain ⟨hc', -⟩ := h.beforeCursorExecute htext hok
      rw [execute_of_ok (fun _ => by simp) hok ht']
      refine hc'.of_inForce ((value_run t' ok _ fun _ => by simp).trans ?_)
      simp [inForce, ht']

/-- **Another statement than a savepoint command** runs with the wanted settings. -/
theorem Coherent.execute_other {t : Transaction} {text : List Char} (h : c.Coherent)
    (ht : c.transaction = some t) (htext : isSavepointStatement text = false) (ok : Bool) :
    (c.execute ok (.other text htext)).2 =
      if t.aborted then none else some (wantedSettings c.current c.began) := by
  have htext' : (Statement.other text htext).text = text := rfl
  rcases exists_beforeCursorExecute ht text with ⟨haborted, error, herror⟩ | ⟨c', t', hok, ht', heq⟩
  · simp only [Connection.execute, htext', herror, haborted, if_true]
  · obtain ⟨-, hwanted⟩ := h.beforeCursorExecute htext hok
    simp only [Connection.execute, htext', hok, ht', heq, hwanted]

/-- **One event.** -/
theorem Coherent.step {e : Event} (h : c.Coherent) (hstep : Step c e c') : c'.Coherent := by
  unfold Step Connection.step at hstep
  cases e with
  | setContext ctx | bindSession session tenant =>
    obtain rfl := Option.some.inj hstep
    exact ⟨h.remembered, h.bound⟩
  | begin =>
    obtain ⟨-, rfl⟩ := made_of_guard hstep
    exact ⟨Or.inr rfl, h.bound⟩
  | afterBegin session =>
    obtain rfl := Option.some.inj hstep
    exact ⟨h.remembered, rfl⟩
  | execute ok statement =>
    obtain ⟨hsome, rfl⟩ := made_of_guard hstep
    obtain ⟨t, ht⟩ := Option.isSome_iff_exists.mp hsome
    exact h.execute ht ok statement
  | commit | rollback =>
    obtain rfl := Option.some.inj hstep
    exact ⟨Or.inr rfl, h.bound⟩
  | checkin =>
    obtain rfl := Option.some.inj hstep
    exact ⟨Or.inr rfl, rfl⟩

/-- **The settings in force.** In every state of every run, a statement other than a savepoint
command that is executed in a transaction is run by the database, unless the transaction is aborted,
and with the settings wanted for the context of the moment and the binding with which the session
began. -/
theorem settings_in_force {l : List Event} {t : Transaction} {text : List Char}
    (hrun : Run Step init l c) (ht : c.transaction = some t)
    (htext : isSavepointStatement text = false) (ok : Bool) :
    (c.execute ok (.other text htext)).2 =
      if t.aborted then none else some (wantedSettings c.current c.began) := by
  have h : c.Coherent := hrun.invariant (fun _ _ _ hinv hstep => hinv.step hstep) coherent_init
  exact h.execute_other ht htext ok

/-- A statement, for the samples. -/
def sampleSelect : Statement := .other "SELECT 1".toList (by decide)

/-- The tenant changes inside a savepoint that is then rolled back. -/
def sampleSavepoint : List Event :=
  [.begin, .setContext (some (.tenant 1)), .execute true sampleSelect,
    .execute true (.savepoint "a"), .setContext (some (.tenant 2)), .execute true sampleSelect,
    .execute true (.rollbackTo "a")]

/-- The rollback has restored the settings of tenant 1; the next statement runs with those of
tenant 2. -/
theorem settings_in_force_after_rollback :
    ∃ c : Connection, Run Step init sampleSavepoint c ∧ c.inForce = ("1", "off") ∧
      (c.execute true sampleSelect).2 = some ("2", "off") := by
  have hview : (sampleSavepoint.foldlM (fun c e => Connection.step c e) init).bind
      (fun c => some (c.inForce, c.transaction.map (·.aborted), c.current, c.began)) =
        some (("1", "off"), some false, some (.tenant 2), none) := by decide
  obtain ⟨c, hc, hview⟩ := Option.bind_eq_some_iff.mp hview
  have hrun : Run Step init sampleSavepoint c := Run.of_foldlM hc
  simp only [Option.some.injEq, Prod.mk.injEq] at hview
  obtain ⟨hforce, haborted, hcurrent, hbegan⟩ := hview
  obtain ⟨t, ht, haborted⟩ := Option.map_eq_some_iff.mp haborted
  refine ⟨c, hrun, hforce, ?_⟩
  have htext : isSavepointStatement "SELECT 1".toList = false := by decide
  have hwanted : wantedSettings (some (.tenant 2)) none = ("2", "off") := by decide
  have hexecute := settings_in_force hrun ht htext true
  rw [haborted, hcurrent, hbegan, hwanted, if_neg Bool.false_ne_true] at hexecute
  exact hexecute

end Connection

end Nodeglow.Tenancy.Rls
