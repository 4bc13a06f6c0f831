import Nodeglow.Backend.Integrations.Nut
import Nodeglow.Foundation.Loop

/-!
# Reading a UPS

The client logs in, asks a NUT server for the variables of a UPS, and reads lines until the list
ends or an error comes. It skips blank lines. After the server has closed the connection every line
that is read is empty, so a list that is cut off is read for ever (`not_fetchAll_dom`).

The server answers in time and takes what is sent to it: a line that comes later, and a connection
that breaks, end the loop with an error.

## Main results

* `readLoop_ends_iff` — the loop ends exactly at a line that stops it.
* `fetchAll_dom_iff` — so does reading.

Source: `backend/integrations/nut.py`, lines 77–123.
-/

namespace Nodeglow.Integrations.Nut

variable {F : Type} (py : Python F)

/-! ### The client -/

/-- What `fetch_all` raises: a `ValueError` of its own, one of `readline` on a line over the limit,
the error of `decode`, and that of `int` on a runtime that is not finite. -/
inductive FetchError where
  | valueError (message : String)
  | tooLong
  | unicodeDecodeError
  | notFinite
deriving DecidableEq, Repr

/-- The limit of a `StreamReader`, in bytes. -/
def streamLimit : ℕ := 2 ^ 16

/-- A line is over the limit, its newline not counted. -/
def tooLong (line : ByteArray) : Bool :=
  streamLimit < if line.data.back? = some 10 then line.size - 1 else line.size

/-- The text of a line, without the white space around it. -/
def readline (line : ByteArray) : Except FetchError String :=
  if tooLong line then .error .tooLong
  else (String.fromUTF8? line).elim (.error .unicodeDecodeError) fun text => .ok (Text.strip text)

/-- `(await reader.readline()).decode().strip()`, and the lines that are still to come. -/
def receive : List ByteArray → Except FetchError (String × List ByteArray)
  | [] => .ok ("", [])
  | line :: rest => (readline line).map fun text => (text, rest)

/-- `line.startswith(start)`. -/
def startsWith (line start : String) : Bool := start.toList <+: line.toList

/-- One command of the login. -/
def send (what : String) (stream : List ByteArray) : Except FetchError (List ByteArray) :=
  match receive stream with
  | .error e => .error e
  | .ok (resp, rest) =>
    if startsWith resp "ERR" then
      .error (.valueError ("NUT auth error (" ++ what ++ "): " ++ resp))
    else .ok rest

/-- The login, without one where there is no username. -/
def login (username : Option String) (stream : List ByteArray) :
    Except FetchError (List ByteArray) :=
  if username.getD "" = "" then .ok stream
  else (send "username" stream).bind (send "password")

/-- One turn of the loop over the lines still to come and those that are collected. -/
def readTurn : List ByteArray × List String →
    Except FetchError (List String) ⊕ (List ByteArray × List String)
  | (stream, lines) =>
    match receive stream with
    | .error e => .inl (.error e)
    | .ok (line, rest) =>
      if line = "" then .inr (rest, lines)
      else if startsWith line "END LIST VAR" then .inl (.ok lines)
      else if startsWith line "ERR" then .inl (.error (.valueError ("NUT error: " ++ line)))
      else .inr (rest, lines ++ [line])

/-- What becomes of the collected lines. -/
def parsed (lines : Except FetchError (List String)) : Except FetchError (NutData F) :=
  lines.bind fun lines => (parseNutVars py lines).elim (.error .notFinite) .ok

/-- `NutClient.fetch_all` on the lines that the server sends, if it ends. -/
def fetchAll (username : Option String) (stream : List ByteArray) :
    Part (Except FetchError (NutData F)) :=
  match login username stream with
  | .error e => .some (.error e)
  | .ok rest => (Loop.run readTurn (rest, [])).map (parsed py)

/-! ### Lines that end it -/

/-- A line that cannot be read, or is an error. -/
def Rejects (line : ByteArray) : Prop :=
  ∀ text, readline line = .ok text → startsWith text "ERR"

/-- A line that ends the list. -/
def Stops (line : ByteArray) : Prop :=
  Rejects line ∨ ∃ text, readline line = .ok text ∧ startsWith text "END LIST VAR"

/-- How many lines answer the login. -/
def loginLines (username : Option String) : ℕ := if username.getD "" = "" then 0 else 2

/-! ### Reading ends at such a line -/

section Ends

variable {line : ByteArray} {rest stream : List ByteArray} {lines : List String} {what : String}
  {username : Option String}

theorem rejects_of_error {e : FetchError} (h : readline line = .error e) : Rejects line := by
  intro text hok
  rw [h] at hok
  cases hok

theorem rejects_iff_of_ok {text : String} (h : readline line = .ok text) :
    Rejects line ↔ startsWith text "ERR" := by
  simp [Rejects, h]

theorem stops_iff_of_ok {text : String} (h : readline line = .ok text) :
    Stops line ↔ startsWith text "ERR" ∨ startsWith text "END LIST VAR" := by
  simp [Stops, rejects_iff_of_ok h, h]

/-- A blank line stops nothing. -/
theorem not_startsWith_empty {start : String} (h : start ≠ "") : startsWith "" start = false := by
  have hlist : start.toList ≠ [] := fun heq => h (String.toList_eq_nil_iff.mp heq)
  simp [startsWith, hlist]

/-- What a turn does with a line. -/
theorem readTurn_cons (line : ByteArray) (rest : List ByteArray) (lines : List String) :
    (Stops line ∧ ∃ r, readTurn (line :: rest, lines) = .inl r) ∨
      ¬Stops line ∧ ∃ lines', readTurn (line :: rest, lines) = .inr (rest, lines') := by
  rw [readTurn, receive]
  cases hread : readline line with
  | error e => exact .inl ⟨.inl (rejects_of_error hread), _, rfl⟩
  | ok text =>
    rw [stops_iff_of_ok hread]
    simp only [Except.map]
    by_cases hblank : text = ""
    · subst hblank
      refine .inr ⟨?_, lines, if_pos rfl⟩
      simp [not_startsWith_empty]
    · rw [if_neg hblank]
      by_cases hend : startsWith text "END LIST VAR" = true
      · exact .inl ⟨.inr hend, _, if_pos hend⟩
      · rw [if_neg hend]
        by_cases herr : startsWith text "ERR" = true
        · exact .inl ⟨.inl herr, _, if_pos herr⟩
        · exact .inr ⟨by simp [hend, herr], _, if_neg herr⟩

/-- After the server has closed the connection the loop turns for ever. -/
theorem not_ends_nil (lines : List String) : ¬Loop.Ends readTurn ([], lines) := by
  have hturn : readTurn ([], lines) = .inr ([], lines) := rfl
  refine Loop.not_ends (I := (· = ([], lines))) (fun s hs => ?_) rfl
  exact ⟨_, hs ▸ hturn, hs⟩

/-- **The loop ends** exactly at a line that stops it. -/
theorem readLoop_ends_iff :
    Loop.Ends readTurn (stream, lines) ↔ ∃ line ∈ stream, Stops line := by
  induction stream generalizing lines with
  | nil => simpa using not_ends_nil lines
  | cons line rest ih =>
    rw [List.exists_mem_cons_iff]
    obtain ⟨hstops, r, hturn⟩ | ⟨hgoes, lines', hturn⟩ := readTurn_cons line rest lines
    · exact iff_of_true (Loop.ends_of_inl hturn) (.inl hstops)
    · rw [Loop.ends_iff hturn, ih, or_iff_right hgoes]

/-- A command of the login takes one line, and fails exactly where that rejects it. -/
theorem send_cons (what : String) (line : ByteArray) (rest : List ByteArray) :
    (Rejects line ∧ ∃ e, send what (line :: rest) = .error e) ∨
      ¬Rejects line ∧ send what (line :: rest) = .ok rest := by
  rw [send, receive]
  cases hread : readline line with
  | error e => exact .inl ⟨rejects_of_error hread, e, rfl⟩
  | ok text =>
    rw [rejects_iff_of_ok hread]
    simp only [Except.map]
    by_cases herr : startsWith text "ERR" = true
    · exact .inl ⟨herr, _, if_pos herr⟩
    · exact .inr ⟨herr, if_neg herr⟩

/-- The login fails exactly at a line that rejects it, and takes its lines otherwise. -/
theorem login_cases (username : Option String) (stream : List ByteArray) :
    ((∃ line ∈ stream.take (loginLines username), Rejects line) ∧
        ∃ e, login username stream = .error e) ∨
      (¬∃ line ∈ stream.take (loginLines username), Rejects line) ∧
        login username stream = .ok (stream.drop (loginLines username)) := by
  rw [login, loginLines]
  split_ifs with hname
  · simp
  · match stream with
    | [] => exact .inr ⟨by simp, rfl⟩
    | [first] =>
      obtain ⟨hrej, e, hsend⟩ | ⟨hrej, hsend⟩ := send_cons "username" first []
      · exact .inl ⟨⟨first, by simp, hrej⟩, e, by rw [hsend]; rfl⟩
      · exact .inr ⟨by simpa using hrej, by rw [hsend]; rfl⟩
    | first :: second :: rest =>
      obtain ⟨hrej, e, hsend⟩ | ⟨hrej, hsend⟩ := send_cons "username" first (second :: rest)
      · exact .inl ⟨⟨first, by simp, hrej⟩, e, by rw [hsend]; rfl⟩
      · obtain ⟨hrej', e, hsend'⟩ | ⟨hrej', hsend'⟩ := send_cons "password" second rest
        · exact .inl ⟨⟨second, by simp, hrej'⟩, e, by rw [hsend]; exact hsend'⟩
        · exact .inr ⟨by simp [hrej, hrej'], by rw [hsend]; exact hsend'⟩

end Ends

/-- **Reading ends** exactly where a line rejects the login, or a line behind it stops the list. -/
theorem fetchAll_dom_iff (username : Option String) (stream : List ByteArray) :
    (fetchAll py username stream).Dom ↔
      (∃ line ∈ stream.take (loginLines username), Rejects line) ∨
        ∃ line ∈ stream.drop (loginLines username), Stops line := by
  rw [fetchAll]
  obtain ⟨hrej, e, hlogin⟩ | ⟨hrej, hlogin⟩ := login_cases username stream
  · rw [hlogin]
    exact iff_of_true trivial (.inl hrej)
  · rw [hlogin, or_iff_right hrej]
    exact readLoop_ends_iff

/-! ### A connection that is closed at once -/

/-- **A server that says nothing** is read for ever. -/
theorem not_fetchAll_dom : ¬(fetchAll Python.sample none []).Dom := not_ends_nil []

end Nodeglow.Integrations.Nut
