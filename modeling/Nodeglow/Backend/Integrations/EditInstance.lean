import Nodeglow.Backend.Integrations.ConfigFields
import Mathlib.Data.List.Nodup

/-!
# Editing an integration

An edit keeps the stored value of every field that the request leaves out, and of a secret that it
sends empty. When the address changes, or the check of certificates is turned off, the request must
supply every stored secret again. The address is compared by the field `host` alone, without case,
blanks at its ends and slashes at its end.

So an edit can redirect a stored secret where the target depends on more: on the port of a NUT or a
Synology, and on the case of the scheme where a client adds a scheme that it does not see. It can
turn off a check that the guard does not know to be on: that of a text which `httpx` takes for a
certificate store.

## Main results

* `secure_iff_safe` — exactly when an edit is secure.
* `not_secure_port` — the port of a NUT server is changed.

Source: `backend/routers/integrations.py`, lines 49–127, 230–261 and 276–371;
`backend/services/integration.py`, lines 89–117.
-/

namespace Nodeglow.Integrations

/-! ### Creating -/

/-- The number that is stored for a value: its default where it is none. -/
def numberValue (py : Python) (field : ConfigField) (val : Json) : Json :=
  let default := field.default.getD (.num 0)
  if val.truthy then ((py.int val).map fun n => Json.num n).getD default else default

/-- A value of a new configuration. -/
def createValue (py : Python) (body : Dict) (field : ConfigField) : Json :=
  let val := (body field.key).getD (.str "")
  match field.fieldType with
  | .checkbox => .bool val.truthy
  | .number => numberValue py field val
  | _ =>
    if val.truthy then .str (Text.strip (py.str val))
    else .str (field.default.elim "" py.str)

/-- The values of the fields. -/
def dictOf (fields : List ConfigField) (value : ConfigField → Json) : Dict := fun key =>
  (fields.find? fun f => f.key = key).map value

/-- `config_dict` of `api_create_instance`. -/
def createConfigDict (py : Python) (t : IntegrationType) (body : Dict) : Dict :=
  dictOf t.configFields (createValue py body)

/-- A configuration whose texts have no blanks at their ends. -/
structure StoredConfig where
  dict : Dict
  stripped : ∀ key s, dict key = some (.str s) → Text.strip s = s

/-! ### The guard -/

/-- `ENDPOINT_FIELD_KEYS`. -/
def endpointFieldKeys : List String := ["host", "url", "base_url", "server", "address", "endpoint"]

/-- `TLS_VERIFY_FIELD_KEYS`. -/
def tlsVerifyFieldKeys : List String := ["verify_ssl"]

/-- `_normalise_endpoint`. -/
def normaliseEndpoint (py : Python) (value : Option Json) : String :=
  py.lower (rstripSlash (Text.strip (py.str (orEmpty value))))

/-- `_endpoint_changed`. -/
def endpointChanged (py : Python) (fields : List ConfigField) (old new : Dict) : List String :=
  (fields.filter fun f => f.key ∈ endpointFieldKeys &&
    normaliseEndpoint py (old f.key) ≠ normaliseEndpoint py (new f.key)).map ConfigField.key

/-- `_truthy`. -/
def truthy (py : Python) : Json → Bool
  | .str s => py.lower (Text.strip s) ∈ ["1", "true", "on", "yes"]
  | value => value.truthy

/-- `_tls_verification_disabled`. -/
def tlsVerificationDisabled (py : Python) (fields : List ConfigField) (old new : Dict) : Bool :=
  fields.any fun f =>
    let default := f.default.getD (.bool true)
    f.key ∈ tlsVerifyFieldKeys && truthy py ((old f.key).getD default) &&
      !truthy py ((new f.key).getD default)

/-! ### Editing -/

/-- The value of a field after an edit. -/
def editValue (py : Python) (existing body : Dict) (field : ConfigField) : Json :=
  let kept := (existing field.key).getD (.str "")
  match body field.key with
  | none | some .null => kept
  | some val =>
    match field.fieldType, val with
    | .password, .str "" => kept
    | .checkbox, val => .bool val.truthy
    | .number, val => numberValue py field val
    | _, val => .str (Text.strip (py.str val))

/-- `config_dict` of `api_edit_instance`. -/
def editConfigDict (py : Python) (t : IntegrationType) (existing body : Dict) : Dict :=
  dictOf t.configFields (editValue py existing body)

/-- The request supplies a value of a field. -/
def supplied (py : Python) (body : Dict) (key : String) : Bool :=
  Text.strip (py.str (orEmpty (body key))) ≠ ""

/-- The stored secrets that a request does not supply. -/
def missingSecrets (py : Python) (t : IntegrationType) (existing body : Dict) : List ConfigField :=
  t.configFields.filter fun f =>
    f.isSecret && (existing f.key).any Json.truthy && !supplied py body f.key

/-- Why an edit is rejected. -/
inductive EditError
  | secretsRequired (error : String) (missingFields : List String)
  | invalidHost (error : String)
deriving DecidableEq, Repr

/-- What `update_config` is called with. A group is changed if there is one. -/
structure Edited where
  name : String
  configDict : Dict
  clusterGroup : Option (Option String)

/-- `_validate_config_hosts`. -/
def validateConfigHosts (py : Python) (validateHost : String → Option String)
    (fields : List ConfigField) (cfg : Dict) : Option String :=
  fields.findSome? fun f =>
    if f.key ∈ endpointFieldKeys then
      (validateHost (py.str ((cfg f.key).getD (.str "")))).map fun err => f.label ++ ": " ++ err
    else none

/-- `api_edit_instance`, of an integration of a type with a name. -/
def editInstance (py : Python) (validateHost : String → Option String) (t : IntegrationType)
    (name : String) (existing body : Dict) : Except EditError Edited :=
  let fields := t.configFields
  let configDict := editConfigDict py t existing body
  let newName := Text.strip (py.str ((body "name").getD (.str "")))
  let changed := endpointChanged py fields existing configDict
  let missing := missingSecrets py t existing body
  if (changed ≠ [] || tlsVerificationDisabled py fields existing configDict) && missing ≠ [] then
    let what :=
      if changed ≠ [] then "Changing the address of an integration"
      else "Disabling TLS certificate verification"
    .error (.secretsRequired
      (what ++ " requires entering its credentials again: " ++
        ", ".intercalate (missing.map ConfigField.label))
      (missing.map ConfigField.key))
  else
    match validateConfigHosts py validateHost fields configDict with
    | some err => .error (.invalidHost err)
    | none =>
      .ok
        { name := if newName ≠ "" then newName else name
          configDict := configDict
          clusterGroup := (body "cluster_group").map fun group =>
            (some (Text.strip (py.str (orEmpty (some group))))).filter (· ≠ "") }

/-! ### What an edit must not do -/

section Statement

variable (py : Python) (http : Http py) (t : IntegrationType)

/-- The client connects to another scheme, host or port. -/
def Redirects (old new : Dict) : Prop :=
  ∃ c c', t.client py old = some c ∧ t.client py new = some c' ∧
    ∃ a ∈ c.target http, ∃ b ∈ c'.target http, a ≠ b

/-- The client no longer checks the certificate. -/
def StopsVerifying (old new : Dict) : Prop :=
  ∃ c c', t.client py old = some c ∧ t.client py new = some c' ∧ c.verifies http = true ∧
    c'.verifies http = false

/-- A stored secret that an edit leaves in use. -/
def LeftInUse (old new : Dict) (f : ConfigField) : Prop :=
  f ∈ t.configFields ∧ f.isSecret = true ∧ (old f.key).any Json.truthy = true ∧
    new f.key = old f.key

/-- **Secure edits**: when an accepted request changes the target, or stops the check of the
certificate, it supplies every stored secret that is left in use. -/
def Secure (validateHost : String → Option String) (name : String) (old : StoredConfig)
    (body : Dict) : Prop :=
  ∀ edited, editInstance py validateHost t name old.dict body = .ok edited →
    Redirects py http t old.dict edited.configDict ∨
      StopsVerifying py http t old.dict edited.configDict →
    ∀ f, LeftInUse t old.dict edited.configDict f → supplied py body f.key = true

/-- The address stays the same where it is not that of the field `host`: host and port of a NUT, and
the target of the URL where a client completes it. -/
def SameAddress (old new : Dict) : Prop :=
  match t with
  | .ups => ∀ host port host' port', t.client py old = some (.tcp host port) →
      t.client py new = some (.tcp host' port') → py.lower host = py.lower host' ∧ port = port'
  | .firewall | .swisscom | .synology => ∀ base verify base' verify',
      t.client py old = some (.web base verify) → t.client py new = some (.web base' verify') →
      ∀ a ∈ http.target base, ∀ b ∈ http.target base', a = b
  | _ => True

/-- The guard knows a check of the certificate to be on that the request turns off. -/
def SeesVerification (old new : Dict) : Prop :=
  (t.client py old).isSome = true → (t.client py new).isSome = true →
    new "verify_ssl" = some (.bool false) → ∀ verify ∈ old "verify_ssl",
      http.verifies verify = true → truthy py verify = true

/-- When an edit is secure: it is rejected for its host, its guard sees a change, it leaves no
stored secret in use without supplying it, or nothing changes that the guard does not see. -/
def Safe (validateHost : String → Option String) (old : StoredConfig) (body : Dict) : Prop :=
  let new := editConfigDict py t old.dict body
  (validateConfigHosts py validateHost t.configFields new).isSome = true ∨
    endpointChanged py t.configFields old.dict new ≠ [] ∨
    tlsVerificationDisabled py t.configFields old.dict new = true ∨
    (∀ f, LeftInUse t old.dict new f → supplied py body f.key = true) ∨
    SameAddress py http t old.dict new ∧ SeesVerification py http t old.dict new

end Statement

/-! ### The values of an edit -/

variable {py : Python} {http : Http py} {t : IntegrationType} {old : StoredConfig}
  {body cfg new : Dict} {f : ConfigField} {c : Client}

theorem dictOf_apply {value : ConfigField → Json} (hf : f ∈ t.configFields) :
    dictOf t.configFields value f.key = some (value f) := by
  have hfind : t.configFields.find? (fun g => g.key = f.key) = some f := by
    refine List.find?_eq_some_iff_append.mpr ⟨by simp, ?_⟩
    obtain ⟨front, back, hsplit⟩ := List.append_of_mem hf
    refine ⟨front, back, hsplit, fun g hg => ?_⟩
    have hnodup := t.nodup_configFields
    rw [hsplit, List.map_append, List.map_cons, List.nodup_middle, List.nodup_cons] at hnodup
    have hne : g.key ≠ f.key := fun heq =>
      hnodup.1 (heq ▸ List.mem_append_left _ (List.mem_map_of_mem hg))
    simpa using hne
  rw [dictOf, hfind, Option.map_some]

theorem exists_field_of_dictOf {value : ConfigField → Json} {key : String} {val : Json}
    (h : dictOf t.configFields value key = some val) :
    ∃ f ∈ t.configFields, f.key = key ∧ val = value f := by
  obtain ⟨f, hf, rfl⟩ := Option.map_eq_some_iff.mp h
  exact ⟨f, List.mem_of_find?_eq_some hf, by simpa using List.find?_some hf, rfl⟩

/-- A number field gets a number. -/
theorem exists_numberValue (py : Python) (hf : f.hasDefault = true)
    (hnumber : f.fieldType = .number) {val : Json} : ∃ q, numberValue py f val = .num q := by
  have hdefault : ∃ q, f.default.getD (.num 0) = .num q := by
    rw [ConfigField.hasDefault, hnumber] at hf
    dsimp only at hf
    split at hf
    · rename_i q hq
      exact ⟨q, by rw [hq, Option.getD_some]⟩
    · cases hf
  obtain ⟨q, hq⟩ := hdefault
  simp only [numberValue, hq]
  split
  · cases py.int val with
    | none => exact ⟨q, rfl⟩
    | some n => exact ⟨n, rfl⟩
  · exact ⟨q, rfl⟩

/-- A text that is not given gets a default without blanks at its ends. -/
theorem strip_default (hf : f.hasDefault = true) (hcheckbox : f.fieldType ≠ .checkbox)
    (hnumber : f.fieldType ≠ .number) :
    Text.strip (f.default.elim "" py.str) = f.default.elim "" py.str := by
  unfold ConfigField.hasDefault at hf
  split at hf
  · contradiction
  · contradiction
  · split at hf
    · rename_i hnone
      rw [hnone]
      rfl
    · rename_i s hs
      rw [hs, Option.elim_some, py.str_str]
      exact of_decide_eq_true hf
    · cases hf

/-- A new configuration is stripped. -/
theorem stripped_createConfigDict (key s : String)
    (h : createConfigDict py t body key = some (.str s)) : Text.strip s = s := by
  obtain ⟨f, hf, -, hval⟩ := exists_field_of_dictOf h
  have hdefault := IntegrationType.hasDefault_of_mem hf
  simp only [createValue] at hval
  split at hval
  · cases hval
  · rename_i hnumber
    obtain ⟨q, hq⟩ := exists_numberValue py hdefault hnumber
    cases hval.trans hq
  · rename_i hcheckbox hnumber
    split at hval
    · obtain rfl := Json.str.inj hval
      exact Text.strip_strip _
    · obtain rfl := Json.str.inj hval
      exact strip_default hdefault hcheckbox hnumber

/-- An edited configuration is stripped. -/
theorem stripped_editConfigDict (key s : String)
    (h : editConfigDict py t old.dict body key = some (.str s)) : Text.strip s = s := by
  obtain ⟨f, hf, -, hval⟩ := exists_field_of_dictOf h
  have hkept (hs : .str s = (old.dict f.key).getD (.str "")) : Text.strip s = s := by
    cases hold : old.dict f.key with
    | none =>
      rw [hold] at hs
      obtain rfl := Json.str.inj hs
      rfl
    | some val =>
      rw [hold] at hs
      exact old.stripped f.key s (hold.trans (congrArg some hs.symm))
  simp only [editValue] at hval
  split at hval
  · exact hkept hval
  · exact hkept hval
  · split at hval
    · exact hkept hval
    · cases hval
    · have hnumber : f.fieldType = .number := ‹_›
      obtain ⟨q, hq⟩ := exists_numberValue py (IntegrationType.hasDefault_of_mem hf) hnumber
      cases hval.trans hq
    · obtain rfl := Json.str.inj hval
      exact Text.strip_strip _

/-! ### The address -/

theorem normaliseEndpoint_str {s : String} (hs : Text.strip s = s) :
    normaliseEndpoint py (some (.str s)) = py.lower (rstripSlash s) := by
  have htext : orEmpty (some (.str s)) = .str s := by
    by_cases hempty : s = ""
    · subst hempty
      rfl
    · have htruthy : Json.truthy (.str s) = true := by simpa [Json.truthy] using hempty
      simp [orEmpty, Option.filter, htruthy]
  rw [normaliseEndpoint, htext, py.str_str, hs]

theorem normaliseEndpoint_none :
    normaliseEndpoint py none = py.lower (rstripSlash "") := by
  have htext : orEmpty none = .str "" := rfl
  have hstrip : Text.strip "" = "" := rfl
  rw [normaliseEndpoint, htext, py.str_str, hstrip]

/-- The clients that take the URL from the field `host` as it is. -/
def IntegrationType.isPlain (t : IntegrationType) : Bool :=
  t ∉ [cloudflare, firewall, ups, speedtest, swisscom, synology]

/-- The URL of such a client is the address that the guard compares, up to case. -/
theorem exists_base_of_isPlain (hplain : t.isPlain = true)
    (hcfg : ∀ key s, cfg key = some (.str s) → Text.strip s = s) (hc : t.client py cfg = some c) :
    ∃ base verify, c = .web base verify ∧ py.lower base = normaliseEndpoint py (cfg "host") := by
  have hweb {required : List String} (hc : webClient rstripSlash required cfg = some c) :
      ∃ base verify, c = .web base verify ∧ py.lower base = normaliseEndpoint py (cfg "host") := by
    obtain ⟨host, hhost, hc⟩ := Option.bind_eq_some_iff.mp hc
    obtain ⟨-, hc⟩ := Option.ite_none_right_eq_some.mp hc
    obtain ⟨val, hval, hstr⟩ := Option.bind_eq_some_iff.mp hhost
    obtain rfl : val = .str host := by
      cases val <;> simp_all [Json.str?]
    refine ⟨_, _, (Option.some.inj hc).symm, ?_⟩
    rw [hval, normaliseEndpoint_str (hcfg _ _ hval)]
  cases t with
  | cloudflare | firewall | ups | speedtest | swisscom | synology => cases hplain
  | phpipam =>
    obtain ⟨host, hhost, hc⟩ := Option.bind_eq_some_iff.mp hc
    refine ⟨_, _, (Option.some.inj hc).symm, ?_⟩
    cases hval : cfg "host" with
    | none =>
      rw [hval] at hhost
      obtain rfl := Option.some.inj hhost
      exact normaliseEndpoint_none.symm
    | some val =>
      rw [hval] at hhost
      obtain rfl : val = .str host := by
        cases val <;> simp_all [Json.str?]
      rw [normaliseEndpoint_str (hcfg _ _ hval)]
  | adguard | gitea | hass | npm | pihole | portainer | proxmox | redfish | technitium | truenas
  | unas | unifi => exact hweb hc

/-- A client that completes the URL has one. -/
theorem exists_base_of_completes (ht : t ∈ [.firewall, .swisscom, .synology])
    (hc : t.client py cfg = some c) : ∃ base verify, c = .web base verify := by
  have hweb {base : String → String} {required : List String}
      (hc : webClient base required cfg = some c) : ∃ base verify, c = .web base verify := by
    obtain ⟨host, -, hc⟩ := Option.bind_eq_some_iff.mp hc
    obtain ⟨-, hc⟩ := Option.ite_none_right_eq_some.mp hc
    exact ⟨_, _, (Option.some.inj hc).symm⟩
  simp only [List.mem_cons, List.not_mem_nil, or_false] at ht
  rcases ht with rfl | rfl | rfl
  · exact hweb hc
  · obtain ⟨host, -, hc⟩ := Option.bind_eq_some_iff.mp hc
    exact ⟨_, _, (Option.some.inj hc).symm⟩
  · obtain ⟨port, -, hc⟩ := Option.bind_eq_some_iff.mp hc
    exact hweb hc

theorem exists_host_of_isPlain (hplain : t.isPlain = true) :
    ∃ f ∈ t.configFields, f.key = "host" := by
  have hall : t.isPlain = true → t.configFields.any (fun f => f.key = "host") = true := by
    cases t <;> decide
  simpa using hall hplain

/-- Where the guard sees no change of the address, and no other part of the address changes, the
target stays the same. -/
theorem not_redirects {new : StoredConfig}
    (hguard : endpointChanged py t.configFields old.dict new.dict = [])
    (hsame : SameAddress py http t old.dict new.dict) :
    ¬Redirects py http t old.dict new.dict := by
  rintro ⟨c, c', hc, hc', a, ha, b, hb, hne⟩
  by_cases hplain : t.isPlain = true
  · obtain ⟨base, verify, rfl, hbase⟩ := exists_base_of_isPlain hplain old.stripped hc
    obtain ⟨base', verify', rfl, hbase'⟩ := exists_base_of_isPlain hplain new.stripped hc'
    obtain ⟨f, hf, hkey⟩ := exists_host_of_isPlain hplain
    have hnormal :
        normaliseEndpoint py (old.dict "host") = normaliseEndpoint py (new.dict "host") := by
      have hfilter := List.filter_eq_nil_iff.mp (List.map_eq_nil_iff.mp hguard) f hf
      by_contra hne
      exact hfilter (by simp [hkey, hne, endpointFieldKeys])
    have htarget := http.target_eq_of_lower base base' (hbase.trans (hnormal.trans hbase'.symm))
    exact hne (Option.some.inj (ha.symm.trans (htarget.trans hb)))
  · cases t with
    | ups =>
      obtain ⟨host, -, hc₁⟩ := Option.bind_eq_some_iff.mp hc
      obtain ⟨port, -, hc₁⟩ := Option.bind_eq_some_iff.mp hc₁
      obtain ⟨host', -, hc₂⟩ := Option.bind_eq_some_iff.mp hc'
      obtain ⟨port', -, hc₂⟩ := Option.bind_eq_some_iff.mp hc₂
      obtain rfl := Option.some.inj hc₁
      obtain rfl := Option.some.inj hc₂
      obtain ⟨hhost, rfl⟩ := hsame host port host' port' hc hc'
      obtain rfl := Option.some.inj ha
      obtain rfl := Option.some.inj hb
      exact hne (by rw [hhost])
    | cloudflare =>
      obtain ⟨-, hc⟩ := Option.ite_none_right_eq_some.mp hc
      obtain ⟨-, hc'⟩ := Option.ite_none_right_eq_some.mp hc'
      obtain rfl := Option.some.inj hc
      obtain rfl := Option.some.inj hc'
      exact hne (Option.some.inj (ha.symm.trans hb))
    | speedtest => cases hc
    | firewall | swisscom | synology =>
      obtain ⟨base, verify, rfl⟩ := exists_base_of_completes (by decide) hc
      obtain ⟨base', verify', rfl⟩ := exists_base_of_completes (by decide) hc'
      exact hne (hsame base verify base' verify' hc hc' a ha b hb)
    | _ => exact hplain rfl

/-- Where no other part of the address could change, only the guard tells of a change. -/
theorem redirects_of_not_sameAddress {old new : Dict} (h : ¬SameAddress py http t old new) :
    Redirects py http t old new := by
  cases t with
  | ups =>
    simp only [SameAddress, not_forall] at h
    obtain ⟨host, port, host', port', hc, hc', hne⟩ := h
    refine ⟨_, _, hc, hc', _, rfl, _, rfl, fun heq => hne ?_⟩
    obtain ⟨-, hhost, hport⟩ := Target.mk.inj heq
    exact ⟨hhost, hport⟩
  | firewall | swisscom | synology =>
    simp only [SameAddress, not_forall] at h
    obtain ⟨base, verify, base', verify', hc, hc', a, ha, b, hb, hne⟩ := h
    exact ⟨_, _, hc, hc', a, ha, b, hb, hne⟩
  | _ => exact absurd trivial h

/-! ### The check of the certificate -/

/-- The default of the field `verify_ssl`. -/
def IntegrationType.verifyDefault : IntegrationType → Option Bool
  | cloudflare | ups | speedtest => none
  | swisscom => some false
  | _ => some true

theorem verifies_client (hc : t.client py cfg = some c) :
    c.verifies http =
      t.verifyDefault.elim (decide (t = .cloudflare)) fun default =>
        http.verifies (verifyOf default cfg) := by
  have hweb {base : String → String} {required : List String}
      (hc : webClient base required cfg = some c) :
      c.verifies http = http.verifies (verifyOf true cfg) := by
    obtain ⟨host, -, hc⟩ := Option.bind_eq_some_iff.mp hc
    obtain ⟨-, hc⟩ := Option.ite_none_right_eq_some.mp hc
    rw [← Option.some.inj hc, Client.verifies]
  cases t with
  | cloudflare =>
    obtain ⟨-, hc⟩ := Option.ite_none_right_eq_some.mp hc
    rw [← Option.some.inj hc]
    exact http.verifies_true
  | ups =>
    obtain ⟨host, -, hc⟩ := Option.bind_eq_some_iff.mp hc
    obtain ⟨port, -, hc⟩ := Option.bind_eq_some_iff.mp hc
    rw [← Option.some.inj hc]
    rfl
  | speedtest => cases hc
  | phpipam | swisscom =>
    obtain ⟨host, -, hc⟩ := Option.bind_eq_some_iff.mp hc
    rw [← Option.some.inj hc]
    rfl
  | synology =>
    obtain ⟨port, -, hc⟩ := Option.bind_eq_some_iff.mp hc
    exact hweb hc
  | _ => exact hweb hc

/-- The field `verify_ssl` of an integration that has one. -/
theorem checkbox_mem {default : Bool} (h : t.verifyDefault = some default) :
    IntegrationType.checkbox "verify_ssl" "Verify SSL" default ∈ t.configFields := by
  cases t with
  | cloudflare | ups | speedtest => cases h
  | _ =>
    obtain rfl := Option.some.inj h
    simp [IntegrationType.configFields, IntegrationType.verifySsl]

theorem exists_verifyDefault (hf : f ∈ t.configFields) (hkey : f.key = "verify_ssl") :
    ∃ default, t.verifyDefault = some default := by
  have hall : t.configFields.any (fun f => f.key = "verify_ssl") = true →
      t.verifyDefault.isSome = true := by
    cases t <;> decide
  exact Option.isSome_iff_exists.mp (hall (List.any_eq_true.mpr ⟨f, hf, by simpa using hkey⟩))

/-- An edit keeps the value of a checkbox, or stores whether it is checked. -/
theorem editValue_checkbox (hcheckbox : f.fieldType = .checkbox) :
    editValue py cfg body f = (cfg f.key).getD (.str "") ∨
      ∃ checked, editValue py cfg body f = .bool checked := by
  unfold editValue
  rw [hcheckbox]
  cases body f.key with
  | none => exact .inl rfl
  | some val =>
    cases val with
    | null => exact .inl rfl
    | _ => exact .inr ⟨_, rfl⟩

theorem truthy_empty : truthy py (.str "") = false := by
  have hlower : py.lower (Text.strip "") = "" := py.lower_empty
  simp [truthy, hlower]

/-- The guard lets no check pass that it knows to be on and that is turned off. -/
theorem truthy_of_guard {default : Bool} (hdefault : t.verifyDefault = some default)
    (hguard : tlsVerificationDisabled py t.configFields cfg new = false)
    (hon : truthy py (verifyOf default cfg) = true) : truthy py (verifyOf default new) = true := by
  by_contra hoff
  refine List.any_eq_false.mp hguard _ (checkbox_mem hdefault) ?_
  simp only [verifyOf] at hon hoff
  simp [IntegrationType.checkbox, tlsVerifyFieldKeys, hon, hoff]

/-- Where the guard sees no check turned off, and knows every check to be on that is, no check is
turned off. -/
theorem not_stopsVerifying
    (hguard : tlsVerificationDisabled py t.configFields cfg (editConfigDict py t cfg body) = false)
    (hsees : SeesVerification py http t cfg (editConfigDict py t cfg body)) :
    ¬StopsVerifying py http t cfg (editConfigDict py t cfg body) := by
  rintro ⟨c, c', hc, hc', hon, hoff⟩
  rw [verifies_client hc] at hon
  rw [verifies_client hc'] at hoff
  cases hdefault : t.verifyDefault with
  | none =>
    rw [hdefault] at hon hoff
    exact absurd (hon.symm.trans hoff) (by decide)
  | some default =>
    rw [hdefault, Option.elim_some] at hon hoff
    have hsilent := truthy_of_guard hdefault hguard
    have hnew : editConfigDict py t cfg body "verify_ssl" = some _ :=
      dictOf_apply (checkbox_mem hdefault)
    have hverify := congrArg (Option.getD · (Json.bool default)) hnew
    -- A check that is on where nothing is stored is on by default.
    have hdefaultOn (hnone : cfg "verify_ssl" = none) : verifyOf default cfg = .bool true := by
      rw [verifyOf, hnone, Option.getD_none] at hon ⊢
      cases default with
      | true => rfl
      | false => exact absurd (hon.symm.trans http.verifies_false) (by decide)
    have hedit :
        editValue py cfg body (IntegrationType.checkbox "verify_ssl" "Verify SSL" default) = _ ∨
          _ :=
      editValue_checkbox rfl
    rcases hedit with hkept | ⟨checked, hsent⟩
    · have hverify : verifyOf default (editConfigDict py t cfg body) =
          (cfg "verify_ssl").getD (.str "") := hverify.trans hkept
      cases hold : cfg "verify_ssl" with
      | none =>
        rw [hverify, hold, hdefaultOn hold] at hsilent
        exact absurd (truthy_empty.symm.trans (hsilent rfl)) (by decide)
      | some verify =>
        rw [hverify, hold] at hoff
        rw [verifyOf, hold] at hon
        exact absurd (hon.symm.trans hoff) (by decide)
    · have hverify : verifyOf default (editConfigDict py t cfg body) = .bool checked :=
        hverify.trans hsent
      cases checked with
      | true =>
        rw [hverify] at hoff
        exact absurd (http.verifies_true.symm.trans hoff) (by decide)
      | false =>
        rw [hverify] at hsilent
        have hunseen : truthy py (verifyOf default cfg) = false :=
          Bool.eq_false_iff.mpr fun htruthy =>
            absurd (hsilent htruthy) (by simp [truthy, Json.truthy])
        cases hold : cfg "verify_ssl" with
        | none =>
          rw [hdefaultOn hold] at hunseen
          cases hunseen
        | some verify =>
          rw [verifyOf, hold] at hon hunseen
          have hseen := hsees (Option.isSome_of_eq_some hc) (Option.isSome_of_eq_some hc')
            (hnew.trans (congrArg some hsent)) verify hold hon
          exact absurd (hunseen.symm.trans hseen) (by decide)

theorem stopsVerifying_of_not_seesVerification
    (h : ¬SeesVerification py http t cfg (editConfigDict py t cfg body)) :
    StopsVerifying py http t cfg (editConfigDict py t cfg body) := by
  simp only [SeesVerification, not_forall] at h
  obtain ⟨hc, hc', hfalse, verify, hverify, hon, hunseen⟩ := h
  obtain ⟨c, hc⟩ := Option.isSome_iff_exists.mp hc
  obtain ⟨c', hc'⟩ := Option.isSome_iff_exists.mp hc'
  obtain ⟨f, hf, hkey, -⟩ := exists_field_of_dictOf hfalse
  obtain ⟨default, hdefault⟩ := exists_verifyDefault hf hkey
  refine ⟨c, c', hc, hc', ?_, ?_⟩
  · rw [verifies_client hc, hdefault, Option.elim_some, verifyOf, Option.mem_def.mp hverify]
    exact hon
  · rw [verifies_client hc', hdefault, Option.elim_some, verifyOf, hfalse]
    exact http.verifies_false

/-! ### When an edit is secure -/

section Main

variable (py : Python) (http : Http py) (t : IntegrationType)
  (validateHost : String → Option String) (name : String) (old : StoredConfig) (body : Dict)

/-- What an accepted edit has passed. -/
theorem editInstance_eq_ok {existing : Dict} {edited : Edited}
    (h : editInstance py validateHost t name existing body = .ok edited) :
    edited.configDict = editConfigDict py t existing body ∧
      validateConfigHosts py validateHost t.configFields edited.configDict = none ∧
      (endpointChanged py t.configFields existing edited.configDict = [] ∧
          tlsVerificationDisabled py t.configFields existing edited.configDict = false ∨
        missingSecrets py t existing body = []) := by
  simp only [editInstance] at h
  split at h
  · cases h
  · rename_i hguard
    split at h
    · cases h
    · rename_i hhosts
      obtain rfl := Except.ok.inj h
      refine ⟨rfl, hhosts, ?_⟩
      by_cases hmissing : missingSecrets py t existing body = []
      · exact .inr hmissing
      · simp only [hmissing, ne_eq, not_false_eq_true, decide_true, Bool.and_true,
          Bool.or_eq_true, decide_eq_true_eq, not_or, not_not, Bool.not_eq_true] at hguard
        exact .inl hguard

/-- An edit that the guard does not see is accepted with its host. -/
theorem exists_editInstance {existing : Dict}
    (hhosts : validateConfigHosts py validateHost t.configFields
      (editConfigDict py t existing body) = none)
    (hchanged : endpointChanged py t.configFields existing (editConfigDict py t existing body) = [])
    (hverify : tlsVerificationDisabled py t.configFields existing
      (editConfigDict py t existing body) = false) :
    ∃ edited, editInstance py validateHost t name existing body = .ok edited ∧
      edited.configDict = editConfigDict py t existing body := by
  simp [editInstance, hhosts, hchanged, hverify]

/-- **When an edit is secure.** -/
theorem secure_iff_safe :
    Secure py http t validateHost name old body ↔ Safe py http t validateHost old body := by
  constructor
  · intro hsecure
    by_contra hunsafe
    simp only [Safe, not_or, not_and_or, Option.isSome_iff_ne_none, not_not,
      Bool.not_eq_true] at hunsafe
    obtain ⟨hhosts, hchanged, hverify, hleft, hdiff⟩ := hunsafe
    obtain ⟨edited, hok, hnew⟩ :=
      exists_editInstance py t validateHost name body hhosts hchanged hverify
    refine hleft fun f hf => hsecure edited hok ?_ f (hnew ▸ hf)
    rw [hnew]
    exact hdiff.imp redirects_of_not_sameAddress stopsVerifying_of_not_seesVerification
  · intro hsafe edited hok hdiff f hf
    obtain ⟨hnew, hhosts, hguard⟩ := editInstance_eq_ok py t validateHost name body hok
    rw [hnew] at hhosts hguard hdiff hf
    rcases hguard with ⟨hchanged, hverify⟩ | hmissing
    · rcases hsafe with hhost | hseen | hseen | hsupplied | ⟨hsame, hsees⟩
      · rw [hhosts] at hhost
        cases hhost
      · exact absurd hchanged hseen
      · exact absurd (hseen.symm.trans hverify) (by decide)
      · exact hsupplied f hf
      · let new : StoredConfig := ⟨editConfigDict py t old.dict body, stripped_editConfigDict⟩
        have hstays : ¬Redirects py http t old.dict new.dict := not_redirects hchanged hsame
        exact (hdiff.elim hstays (not_stopsVerifying hverify hsees)).elim
    · obtain ⟨hmem, hsecret, hstored, -⟩ := hf
      by_contra hunsupplied
      refine List.filter_eq_nil_iff.mp hmissing f hmem ?_
      simpa [hsecret, hstored] using hunsupplied

end Main

/-! ### The port of a NUT server -/

/-- Python on whole numbers and texts of ASCII letters. -/
def Python.sample : Python :=
  { Text.Lower.asciiOnly with
    str := fun
      | .str s => s
      | .num q => toString q.num
      | .bool true => "True"
      | .bool false => "False"
      | _ => "None"
    int := fun
      | .num q => some (q.num.tdiv q.den)
      | .str s => s.toInt?
      | .bool b => some b.toNat
      | _ => none
    str_str := fun _ => rfl
    int_num := fun n => congrArg some (Int.tdiv_one n) }

/-- `httpx` on values that are no URL. -/
def Http.sample : Http Python.sample where
  target _ := none
  verifies := Json.truthy
  target_eq_of_lower _ _ _ := rfl
  verifies_true := rfl
  verifies_false := rfl

/-- A NUT server with a password. -/
def nutServer : StoredConfig where
  dict := createConfigDict Python.sample .ups fun key =>
    if key = "host" then some (.str "ups") else if key = "password" then some (.str "s") else none
  stripped := stripped_createConfigDict

/-- **The port is not compared**: an edit that changes it alone sends the stored password there. -/
theorem not_secure_port :
    ¬Secure Python.sample Http.sample .ups (fun _ => none) "NUT" nutServer
      (fun key => if key = "port" then some (.num 4444) else none) := by
  intro hsecure
  have hmem :
      IntegrationType.password "password" "Password" ∈ IntegrationType.ups.configFields := by
    simp [IntegrationType.configFields]
  refine absurd (hsecure _ rfl
    (.inl ⟨.tcp "ups" 3493, .tcp "ups" 4444, rfl, rfl, _, rfl, _, rfl, ?_⟩)
    _ ⟨hmem, rfl, rfl, rfl⟩) ?_
  · decide
  · decide

end Nodeglow.Integrations
