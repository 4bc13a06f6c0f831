import Nodeglow.Backend.AiRedaction.Patterns

/-!
# Redaction

A text is redacted in passes. Each pass goes through the text that the one before has left, for
secrets first, then for addresses and names of users, and last for names of hosts. A pass takes the
text apart into what it keeps and the values that it replaces; the redactor writes the placeholders.

## Main results

* `takesApart_of_mem` — the passes for identities and hosts take the text apart.
* `Redactor.write_spec` — what the redactor writes, and the redactor after it.
* `Redactor.Valid.redact` — redactors stay valid.

Source: `backend/services/ai_redaction.py`, lines 47–62, 128–144 and 238–319.
-/

namespace Nodeglow.AiRedaction

/-- A value of a kind. -/
abbrev Value := Kind × List Char

/-- What a pass makes of a text. -/
abbrev Pass := List Char → List (Piece Value)

/-! ### Replacements -/

/-- A text that stays. -/
def keep (s : List Char) : List (Piece Value) := s.map .kept

/-- `Match.group`, of a group. -/
def groupText (m : List (Captured Group)) (k : Group) : List Char :=
  ((m.find? fun x => x.group = some k).map Captured.text).getD []

/-- The whole match is replaced. -/
def whole (kind : Kind) (m : List (Captured Group)) : List (Piece Value) :=
  [.put (kind, Captured.texts m)]

/-- The replacement for `_URL_CREDS_RE`. -/
def urlCreds (m : List (Captured Group)) : List (Piece Value) :=
  keep (groupText m .first) ++ [.put (.user, groupText m .second), .kept ':',
    .put (.secret, groupText m .third), .kept '@']

/-- The replacement for `_BEARER_RE`. -/
def bearer (m : List (Captured Group)) : List (Piece Value) :=
  keep (groupText m .first) ++ [.kept ' ', .put (.secret, groupText m .second)]

/-- `_secret_kv`. -/
def secretKv (m : List (Captured Group)) : List (Piece Value) :=
  let val := groupText m .val
  if isPlaceholder val then keep (Captured.texts m)
  else if groupText m .key = "PWD".toList ∧ val.head? = some '/' then keep (Captured.texts m)
  else keep (groupText m .key) ++ keep (groupText m .sep) ++ keep (groupText m .q) ++
    [.put (.secret, val)]

/-- `_EMPTY_VALUES`. -/
def emptyValues : List (List Char) :=
  ["-", "", "n/a", "na", "none", "null", "unknown", "(null)", "nobody"].map String.toList

/-- `_GENERIC_ACCOUNTS`. -/
def genericAccounts : List (List Char) :=
  ["root", "admin", "administrator", "guest", "user", "test", "daemon", "bin", "sys", "www-data",
    "nginx", "apache", "postgres", "mysql", "oracle", "ubuntu", "debian", "pi", "ec2-user", "centos",
    "git", "ftp", "operator", "support", "system", "local service", "network service", "anonymous",
    "dwm-1", "umfd-0"].map String.toList

/-- `_NOT_TLDS`. -/
def notTlds : List (List Char) :=
  ["conf", "cfg", "ini", "log", "txt", "json", "yaml", "yml", "xml", "html", "htm", "php", "py", "js",
    "ts", "css", "sh", "exe", "dll", "sys", "so", "ko", "pid", "sock", "socket", "service", "timer",
    "mount", "target", "slice", "scope", "path", "gz", "zip", "tar", "tgz", "bz2", "xz", "png", "jpg",
    "jpeg", "gif", "svg", "ico", "md", "rs", "go", "java", "class", "jar", "rb", "pl", "c", "h", "cpp",
    "lock", "tmp", "bak", "old", "db", "sqlite", "csv", "pem", "crt", "key", "cer", "d", "deb", "rpm",
    "msi", "bin", "img", "iso", "ps1", "bat", "cmd", "vbs", "env", "local"].map String.toList

/-- `s.rsplit(c, 1)[-1]`. -/
def afterLast (c : Char) (s : List Char) : List Char := s.rtakeWhile (· ≠ c)

section Replacements

variable (py : Python)

/-- `_group_sub`. -/
def groupSub (kind : Kind) (m : List (Captured Group)) : List (Piece Value) :=
  let val := groupText m .v
  let low := lower py.toLower val
  if low ∈ emptyValues ∨ isPlaceholder val ∨ val.head? = some '<' then keep (Captured.texts m)
  else if kind = .user ∧ (low ∈ genericAccounts ∨ afterLast '\\' low ∈ genericAccounts) then
    keep (Captured.texts m)
  else m.flatMap fun x => if x.group = some .v then [.put (kind, x.text)] else keep x.text

/-- `_ipv4`. -/
def ipv4 (m : List (Captured Group)) : List (Piece Value) :=
  let raw := Captured.texts m
  match py.ip.ipAddress (String.ofList raw) with
  | some (.v4 n) =>
    let addr := NetSafety.Ip.v4 n
    if addr.isUnspecified || addr.isLoopback || raw = "255.255.255.255".toList then keep raw
    else [.put (.ip, raw)]
  | _ => keep raw

/-- The address in a match, without a separator that was swallowed: `2001:db8::1: message`. -/
def ipv6Core (raw : List Char) : List Char :=
  if [':', ':'] <:+ raw then raw else raw.rdropWhile (· = ':')

/-- `_ipv6`. -/
def ipv6 (m : List (Captured Group)) : List (Piece Value) :=
  let raw := Captured.texts m
  let core := ipv6Core raw
  let tail := raw.drop core.length
  if core.count ':' < 2 then keep raw
  else
    match py.ip.ipAddress (String.ofList core) with
    | some (.v6 n) =>
      let addr := NetSafety.Ip.v6 n
      if addr.isUnspecified || addr.isLoopback then keep raw else .put (.ipv6, core) :: keep tail
    | _ => keep raw

/-- `_fqdn`. -/
def fqdn (m : List (Captured Group)) : List (Piece Value) :=
  let raw := Captured.texts m
  let tld := lower py.toLower (afterLast '.' raw)
  if tld ∈ notTlds ∨ tld ≠ [] ∧ tld.all isDigit then keep raw else [.put (.host, raw)]

/-! ### Passes -/

/-- The substitution for a pattern. -/
def passOf (r : Pattern Group) (f : List (Captured Group) → List (Piece Value)) : Pass :=
  r.sub .kept f

/-- The passes for secrets. -/
def secretPasses : List Pass :=
  passOf (urlCredsRe py) urlCreds :: passOf (bearerRe py) bearer ::
    ((tokenFormats py).map (passOf · (whole .secret)) ++ [passOf (secretKvRe py) secretKv])

/-- The passes for identities and addresses. -/
def identityPasses : List Pass :=
  passOf (emailRe py) (whole .email) :: passOf (sidRe py) (whole .sid) ::
    ((userPatterns py).map (passOf · (groupSub py .user)) ++
      [passOf (winHostRe py) (groupSub py .host), passOf macRe (whole .mac), passOf ipv4Re (ipv4 py),
        passOf ipv6Re (ipv6 py)])

/-- The passes for names of hosts. -/
def hostPasses (redactHostnames : Bool) (knownHosts : List (List Char)) : List Pass :=
  if redactHostnames then
    (if knownHosts = [] then [] else [passOf (knownHostsRe py knownHosts) (whole .host)]) ++
      [passOf (fqdnRe py) (fqdn py)]
  else []

end Replacements

namespace Redactor

variable (py : Python)

/-- The text with placeholders, and the redactor after it. -/
def write (st : Redactor) : List (Piece Value) → List Char × Redactor
  | [] => ([], st)
  | .kept c :: parts => (c :: (write st parts).1, (write st parts).2)
  | .put x :: parts =>
    let issued := st.placeholder py.toLower x.1 x.2
    (issued.1 ++ (write issued.2 parts).1, (write issued.2 parts).2)

/-- The passes, one after the other. -/
def runPasses : Redactor → List Pass → List Char → List Char × Redactor
  | st, [], t => (t, st)
  | st, pass :: passes, t =>
    runPasses (st.write py (pass t)).2 passes (st.write py (pass t)).1

/-- `Redactor.redact`. -/
def redact (st : Redactor) (text : List Char) : List Char × Redactor :=
  if !st.enabled || text.isEmpty then (text, st)
  else st.runPasses py
    (secretPasses py ++ identityPasses py ++ hostPasses py st.redactHostnames st.knownHosts) text

/-- The redactor after some texts of a request. -/
def afterRedacting (st : Redactor) (texts : List (List Char)) : Redactor :=
  texts.foldl (fun st t => (st.redact py t).2) st

end Redactor

/-! ### What passes do -/

section Passes

variable {py : Python} {kind : Kind} {m : List (Captured Group)} {x : Value} {pass : Pass}

theorem write_keep (code : Value → List Char) (s : List Char) : Piece.write code (keep s) = s :=
  Piece.write_map_kept code s

theorem put_notMem_keep (s : List Char) : .put x ∉ keep s := by
  intro h
  obtain ⟨c, -, hc⟩ := List.mem_map.mp h
  cases hc

/-- Parts of a text, without secrets. -/
structure PartsOf (t : List Char) (parts : List (Piece Value)) : Prop where
  write_eq : Piece.write Prod.snd parts = t
  kind_of_put : ∀ x, .put x ∈ parts → x.1 ∉ noRestore

theorem partsOf_keep (t : List Char) : PartsOf t (keep t) where
  write_eq := write_keep _ t
  kind_of_put _ hx := absurd hx (put_notMem_keep t)

theorem partsOf_put (hkind : kind ∉ noRestore) (t : List Char) : PartsOf t [.put (kind, t)] where
  write_eq := List.append_nil t
  kind_of_put x hx := by
    obtain rfl : x = (kind, t) := by simpa using hx
    exact hkind

theorem PartsOf.append {t t' : List Char} {parts parts' : List (Piece Value)} (h : PartsOf t parts)
    (h' : PartsOf t' parts') : PartsOf (t ++ t') (parts ++ parts') where
  write_eq := by rw [Piece.write_append, h.write_eq, h'.write_eq]
  kind_of_put x hx := (List.mem_append.mp hx).elim (h.kind_of_put x) (h'.kind_of_put x)

/-- A pass that takes each text apart. -/
def TakesApart (pass : Pass) : Prop := ∀ t, PartsOf t (pass t)

theorem takesApart_passOf {r : Pattern Group} {f : List (Captured Group) → List (Piece Value)}
    (h : ∀ m, PartsOf (Captured.texts m) (f m)) : TakesApart (passOf r f) := fun t =>
  { write_eq := Piece.write_sub (fun m => (h m).write_eq) t
    kind_of_put := fun x hx => by
      obtain ⟨m, hm⟩ := Piece.exists_of_mem_subFrom hx
      exact (h m).kind_of_put x hm }

theorem partsOf_groupSub (hkind : kind ∉ noRestore) (m : List (Captured Group)) :
    PartsOf (Captured.texts m) (groupSub py kind m) := by
  have hparts (m : List (Captured Group)) : PartsOf (Captured.texts m) (m.flatMap fun x =>
      if x.group = some .v then [.put (kind, x.text)] else keep x.text) := by
    induction m with
    | nil => exact partsOf_keep []
    | cons x m ih =>
      rw [List.flatMap_cons]
      refine PartsOf.append ?_ ih
      split_ifs
      · exact partsOf_put hkind x.text
      · exact partsOf_keep x.text
  simp only [groupSub]
  split_ifs
  · exact partsOf_keep _
  · exact partsOf_keep _
  · exact hparts m

theorem partsOf_ipv4 (m : List (Captured Group)) : PartsOf (Captured.texts m) (ipv4 py m) := by
  simp only [ipv4]
  split
  · split_ifs
    · exact partsOf_keep _
    · exact partsOf_put (by decide) _
  · exact partsOf_keep _

theorem partsOf_ipv6 (m : List (Captured Group)) : PartsOf (Captured.texts m) (ipv6 py m) := by
  have hcore (raw : List Char) : ipv6Core raw ++ raw.drop (ipv6Core raw).length = raw := by
    rw [ipv6Core]
    split_ifs
    · rw [List.drop_length, List.append_nil]
    · exact (List.prefix_iff_eq_append.mp (List.rdropWhile_prefix _ raw))
  have hparts (raw : List Char) : PartsOf raw
      (.put (.ipv6, ipv6Core raw) :: keep (raw.drop (ipv6Core raw).length)) := by
    have happend := (partsOf_put (by decide : Kind.ipv6 ∉ noRestore) (ipv6Core raw)).append
      (partsOf_keep (raw.drop (ipv6Core raw).length))
    rwa [hcore] at happend
  simp only [ipv6]
  split_ifs
  · exact partsOf_keep _
  · split
    · split_ifs
      · exact partsOf_keep _
      · exact hparts _
    · exact partsOf_keep _

theorem partsOf_fqdn (m : List (Captured Group)) : PartsOf (Captured.texts m) (fqdn py m) := by
  simp only [fqdn]
  split_ifs
  · exact partsOf_keep _
  · exact partsOf_put (by decide) _

/-- **The passes** after those for secrets take texts apart. -/
theorem takesApart_of_mem {redactHostnames : Bool} {hosts : List (List Char)}
    (h : pass ∈ identityPasses py ++ hostPasses py redactHostnames hosts) : TakesApart pass := by
  have hwhole (r : Pattern Group) {kind : Kind} (hkind : kind ∉ noRestore) :
      TakesApart (passOf r (whole kind)) :=
    takesApart_passOf fun m => partsOf_put hkind (Captured.texts m)
  have hgroup (r : Pattern Group) {kind : Kind} (hkind : kind ∉ noRestore) :
      TakesApart (passOf r (groupSub py kind)) :=
    takesApart_passOf (partsOf_groupSub hkind)
  rcases List.mem_append.mp h with h | h
  · simp only [identityPasses, List.mem_cons, List.mem_append, List.mem_map, List.not_mem_nil,
      or_false] at h
    rcases h with rfl | rfl | ⟨r, -, rfl⟩ | rfl | rfl | rfl | rfl
    · exact hwhole _ (by decide)
    · exact hwhole _ (by decide)
    · exact hgroup _ (by decide)
    · exact hgroup _ (by decide)
    · exact hwhole _ (by decide)
    · exact takesApart_passOf partsOf_ipv4
    · exact takesApart_passOf partsOf_ipv6
  · rw [hostPasses] at h
    split_ifs at h
    · obtain rfl := List.mem_singleton.mp h
      exact takesApart_passOf partsOf_fqdn
    · simp only [List.cons_append, List.nil_append, List.mem_cons, List.not_mem_nil, or_false] at h
      rcases h with rfl | rfl
      · exact hwhole _ (by decide)
      · exact takesApart_passOf partsOf_fqdn
    · cases h

end Passes

/-! ### What the redactor writes -/

namespace Redactor

variable {py : Python} {st st' st'' : Redactor} {parts : List (Piece Value)} {x : Value}

/-- The placeholder of a value. -/
def code (py : Text.Lower) (st : Redactor) (x : Value) : List Char :=
  (st.forward.get (x.1, norm py x.1 x.2)).getD []

/-- The value has a placeholder. -/
def Issued (py : Text.Lower) (st : Redactor) (x : Value) : Prop :=
  ∃ ph, st.forward.get (x.1, norm py x.1 x.2) = some ph

/-- Every placeholder is one of another redactor. -/
def Extends (st st' : Redactor) : Prop :=
  ∀ k w ph, st.forward.get (k, w) = some ph → st'.forward.get (k, w) = some ph

theorem Extends.trans (h : st.Extends st') (h' : st'.Extends st'') : st.Extends st'' :=
  fun k w ph hget => h' k w ph (h k w ph hget)

theorem Issued.of_extends {py : Text.Lower} (hx : st.Issued py x) (h : st.Extends st') :
    st'.Issued py x := hx.imp fun ph hget => h _ _ ph hget

theorem code_of_extends {py : Text.Lower} (hx : st.Issued py x) (h : st.Extends st') :
    st'.code py x = st.code py x := by
  obtain ⟨ph, hget⟩ := hx
  rw [code, code, hget, h _ _ ph hget]

theorem Valid.isPlaceholder_code {py : Text.Lower} (h : st.Valid py) (hx : st.Issued py x) :
    IsPlaceholder (st.code py x) := by
  obtain ⟨ph, hget⟩ := hx
  obtain ⟨n, -, rfl⟩ := h.numbered hget
  rw [code, hget]
  exact isPlaceholder_placeholderText x.1 n

/-- One placeholder. -/
theorem placeholder_spec (py : Text.Lower) (st : Redactor) (k : Kind) (v : List Char) :
    st.Extends (st.placeholder py k v).2 ∧ (st.placeholder py k v).2.forward.get (k, norm py k v) =
      some (st.placeholder py k v).1 := by
  cases hget : st.forward.get (k, norm py k v) with
  | some ph =>
    rw [placeholder_of_get hget]
    exact ⟨fun _ _ _ h => h, hget⟩
  | none =>
    rw [placeholder_of_none hget]
    exact ⟨fun _ _ _ h => get_issue_of_get hget h, by rw [forward_issue, if_pos rfl]; rfl⟩

/-- **What is written** are the parts with the placeholders of the redactor afterwards. -/
theorem write_spec (py : Python) (st : Redactor) (parts : List (Piece Value)) :
    st.Extends (st.write py parts).2 ∧
      (∀ x, .put x ∈ parts → (st.write py parts).2.Issued py.toLower x) ∧
      (st.write py parts).1 = Piece.write ((st.write py parts).2.code py.toLower) parts := by
  induction parts generalizing st with
  | nil => exact ⟨fun _ _ _ h => h, nofun, rfl⟩
  | cons part parts ih =>
    cases part with
    | kept c =>
      obtain ⟨hext, hissued, hwrite⟩ := ih st
      refine ⟨hext, fun x hx => hissued x ((List.mem_cons.mp hx).resolve_left nofun), ?_⟩
      rw [Piece.write_kept, write, ← hwrite]
    | put x =>
      obtain ⟨hfirst, hget⟩ := placeholder_spec py.toLower st x.1 x.2
      obtain ⟨hext, hissued, hwrite⟩ := ih (st.placeholder py.toLower x.1 x.2).2
      have hget' := hext _ _ _ hget
      refine ⟨hfirst.trans hext, fun y hy => ?_, ?_⟩
      · rcases List.mem_cons.mp hy with heq | hy
        · obtain rfl : y = x := by simpa using heq
          exact ⟨_, hget'⟩
        · exact hissued y hy
      · rw [Piece.write_put, write, ← hwrite, code, hget']
        rfl

theorem Valid.write (h : st.Valid py.toLower) (parts : List (Piece Value)) :
    (st.write py parts).2.Valid py.toLower := by
  induction parts generalizing st with
  | nil => exact h
  | cons part parts ih =>
    cases part with
    | kept c => exact ih h
    | put x => exact ih (h.placeholder x.1 x.2)

theorem Valid.runPasses (h : st.Valid py.toLower) (passes : List Pass) (t : List Char) :
    (st.runPasses py passes t).2.Valid py.toLower := by
  induction passes generalizing st t with
  | nil => exact h
  | cons pass passes ih => exact ih (h.write (pass t)) _

theorem Valid.redact (h : st.Valid py.toLower) (text : List Char) :
    (st.redact py text).2.Valid py.toLower := by
  rw [Redactor.redact]
  split_ifs
  · exact h
  · exact h.runPasses _ text

/-- **Redactors stay valid** over a request. -/
theorem Valid.afterRedacting (h : st.Valid py.toLower) (texts : List (List Char)) :
    (st.afterRedacting py texts).Valid py.toLower := by
  induction texts generalizing st with
  | nil => exact h
  | cons t texts ih => exact ih (h.redact t)

/-! ### Texts without secrets -/

theorem runPasses_append (py : Python) (st : Redactor) (ps ps' : List Pass) (t : List Char) :
    st.runPasses py (ps ++ ps') t =
      (st.runPasses py ps t).2.runPasses py ps' (st.runPasses py ps t).1 := by
  induction ps generalizing st t with
  | nil => rfl
  | cons p ps ih => exact ih _ _

theorem write_keep (py : Python) (st : Redactor) (t : List Char) : st.write py (keep t) = (t, st) := by
  induction t with
  | nil => rfl
  | cons c t ih =>
    change (c :: (st.write py (keep t)).1, (st.write py (keep t)).2) = _
    rw [ih]

/-- Passes that find nothing. -/
theorem runPasses_eq_self {ps : List Pass} {t : List Char} (h : ∀ p ∈ ps, p t = keep t) :
    st.runPasses py ps t = (t, st) := by
  induction ps with
  | nil => rfl
  | cons p ps ih =>
    obtain ⟨hp, hps⟩ := List.forall_mem_cons.mp h
    rw [runPasses, hp, write_keep]
    exact ih hps

end Redactor

/-- Whether one of the patterns for secrets is found in a text. -/
def hasSecret (py : Python) (text : List Char) : Bool :=
  (secretPatterns py).any fun r => r.foundIn none text

/-- The passes for secrets find nothing in a text without secrets. -/
theorem secretPasses_keep {py : Python} {t : List Char} (h : hasSecret py t = false) :
    ∀ p ∈ secretPasses py, p t = keep t := by
  have hnone (r : Pattern Group) (hr : r ∈ secretPatterns py)
      (f : List (Captured Group) → List (Piece Value)) : passOf r f t = keep t :=
    Pattern.subFrom_of_not_foundIn (eq_false_of_ne_true (List.any_eq_false.mp h r hr))
  intro p hp
  simp only [secretPasses, List.mem_cons, List.mem_append, List.mem_map, List.not_mem_nil,
    or_false] at hp
  rcases hp with rfl | rfl | ⟨r, hr, rfl⟩ | rfl
  · exact hnone _ (by simp [secretPatterns]) _
  · exact hnone _ (by simp [secretPatterns]) _
  · exact hnone _ (by simp [secretPatterns, hr]) _
  · exact hnone _ (by simp [secretPatterns]) _

end Nodeglow.AiRedaction
