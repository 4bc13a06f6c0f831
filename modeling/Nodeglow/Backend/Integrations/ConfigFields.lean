import Nodeglow.Foundation.Json
import Nodeglow.Foundation.Text

/-!
# The integrations and their clients

Every integration has a list of config fields, and a client that is built from the stored values of
these fields. Most clients talk to the URL of the field `host`. Some add a scheme to it where they
see none, that of a Synology adds the port, and the scheme that it adds depends on the port; a NUT
server is reached by host and port. Whether the certificate is checked is decided by the value of
`verify_ssl`.

What Python makes of values that are no texts or numbers (`Python`), and which target a URL has
(`Http`), is given.

## Main results

* `IntegrationType.nodup_configFields`, `IntegrationType.hasDefault_of_mem` — no key stands twice,
  and every default is a value of its field.

Source: `backend/integrations/`, the classes of all integrations; `backend/integrations/_base.py`,
lines 40–50.
-/

namespace Nodeglow.Integrations

/-! ### Values -/

/-- A dictionary with JSON values. -/
abbrev Dict := String → Option Json

/-- What Python makes of values: `str`, `int`, which may raise, and `str.lower`. -/
structure Python extends Text.Lower where
  str : Json → String
  int : Json → Option ℤ
  str_str : ∀ s, str (.str s) = s
  int_num : ∀ n : ℤ, int (.num n) = some n

/-- `value or ""`. -/
def orEmpty (value : Option Json) : Json := (value.filter Json.truthy).getD (.str "")

/-- `str.rstrip("/")`. -/
def rstripSlash (s : String) : String := Text.dropMatchesRight (· = '/') s

/-! ### Config fields -/

/-- `ConfigField.field_type`. -/
inductive FieldType
  | text | password | number | checkbox | url | select
deriving DecidableEq, Repr

/-- `ConfigField`. -/
structure ConfigField where
  key : String
  label : String
  fieldType : FieldType := .text
  encrypted : Bool := false
  default : Option Json := none

/-- The default is a value of the field's type; a text has no blanks at its ends. -/
def ConfigField.hasDefault (f : ConfigField) : Bool :=
  match f.fieldType with
  | .checkbox => match f.default with
    | some (.bool _) => true
    | _ => false
  | .number => match f.default with
    | some (.num _) => true
    | _ => false
  | _ => match f.default with
    | none => true
    | some (.str s) => Text.strip s = s
    | some _ => false

/-- `_is_secret_field`. -/
def ConfigField.isSecret (f : ConfigField) : Bool := f.fieldType = .password || f.encrypted

/-- The registered integrations. -/
inductive IntegrationType
  | adguard | cloudflare | firewall | gitea | hass | npm | ups | phpipam | pihole | portainer
  | proxmox | redfish | speedtest | swisscom | synology | technitium | truenas | unas | unifi
deriving DecidableEq, Repr

namespace IntegrationType

/-- An encrypted field of a password. -/
def password (key label : String) : ConfigField := ⟨key, label, .password, true, none⟩

def hostUrl (label : String) : ConfigField := ⟨"host", label, .url, false, none⟩

def plainText (key label : String) (default : Option Json) : ConfigField :=
  ⟨key, label, .text, false, default⟩

def checkbox (key label : String) (default : Bool) : ConfigField :=
  ⟨key, label, .checkbox, false, some (.bool default)⟩

def number (key label : String) (default : ℤ) : ConfigField :=
  ⟨key, label, .number, false, some (.num default)⟩

def verifySsl : ConfigField := checkbox "verify_ssl" "Verify SSL" true

/-- `config_fields`. -/
def configFields : IntegrationType → List ConfigField
  | adguard =>
    [hostUrl "Host URL", plainText "username" "Username" none, password "password" "Password",
      verifySsl]
  | cloudflare => [password "api_token" "API Token"]
  | firewall =>
    [hostUrl "Host URL", ⟨"fw_type", "Firewall Type", .select, false, some (.str "opnsense")⟩,
      plainText "api_key" "API Key / Username" none,
      password "api_secret" "API Secret / Password", verifySsl]
  | gitea => [hostUrl "Host URL", password "token" "API Token", verifySsl]
  | hass => [hostUrl "Host URL", password "token" "Long-Lived Access Token", verifySsl]
  | npm =>
    [hostUrl "NPM URL", plainText "email" "Admin Email" none, password "password" "Password",
      verifySsl]
  | ups =>
    [plainText "host" "NUT Host" none, number "port" "Port" 3493,
      plainText "ups_name" "UPS Name" (some (.str "ups")), plainText "username" "Username" none,
      password "password" "Password"]
  | phpipam =>
    [hostUrl "phpIPAM URL", plainText "app_id" "App ID" none,
      password "app_secret" "App Secret / API Token", plainText "username" "Username" none,
      password "password" "Password", verifySsl]
  | pihole => [hostUrl "Host URL", password "api_key" "API Key / Password", verifySsl]
  | portainer => [hostUrl "Host URL", password "api_key" "API Key", verifySsl]
  | proxmox =>
    [hostUrl "Host URL", plainText "token_id" "Token ID" none,
      password "token_secret" "Token Secret", verifySsl,
      plainText "ssh_user" "SSH User (for deploy)" (some (.str "root")),
      password "ssh_private_key" "SSH Private Key"]
  | redfish =>
    [hostUrl "Host URL", plainText "username" "Username" none, password "password" "Password",
      verifySsl]
  | speedtest => [plainText "server_id" "Server ID (optional)" none]
  | swisscom =>
    [plainText "host" "Box IP / Hostname" none, password "password" "Admin Password",
      checkbox "verify_ssl" "Verify SSL" false]
  | synology =>
    [plainText "host" "Host" none, number "port" "Port" 5001,
      plainText "username" "Username" none, password "password" "Password", verifySsl]
  | technitium => [hostUrl "Web API URL", password "api_token" "API Token", verifySsl]
  | truenas => [hostUrl "Host URL", password "api_key" "API Key", verifySsl]
  | unas =>
    [hostUrl "Host URL", plainText "username" "Username" none, password "password" "Password",
      verifySsl]
  | unifi =>
    [hostUrl "Controller URL", plainText "username" "Username" none,
      password "password" "Password", plainText "site" "Site" (some (.str "default")),
      checkbox "is_udm" "UniFi OS (UDM/UDR)" false, verifySsl]

theorem nodup_configFields (t : IntegrationType) : (t.configFields.map ConfigField.key).Nodup := by
  cases t <;> decide

theorem hasDefault_of_mem {t : IntegrationType} {f : ConfigField} (hf : f ∈ t.configFields) :
    f.hasDefault = true := by
  have hall : t.configFields.all ConfigField.hasDefault = true := by
    cases t <;> decide +kernel
  exact List.all_eq_true.mp hall f hf

end IntegrationType

/-! ### Clients -/

/-- Where a client connects. A scheme is that of a URL. -/
structure Target where
  scheme : Option String
  host : String
  port : ℤ
deriving DecidableEq, Repr

/-- `httpx`: the target of a URL, by what stands in front of its path, and whether the certificate
is checked for a value of `verify`. The scheme and the host of a URL are case-insensitive. -/
structure Http (py : Python) where
  target : String → Option Target
  verifies : Json → Bool
  target_eq_of_lower : ∀ a b, py.lower a = py.lower b → target a = target b
  verifies_true : verifies (.bool true) = true
  verifies_false : verifies (.bool false) = false

/-- What a client is built with: the URL and the value of `verify`, or host and port. -/
inductive Client
  | web (base : String) (verify : Json)
  | tcp (host : String) (port : ℤ)

namespace Client

variable {py : Python} (http : Http py)

def target : Client → Option Target
  | web base _ => http.target base
  | tcp host port => some ⟨none, py.lower host, port⟩

def verifies : Client → Bool
  | web _ verify => http.verifies verify
  | tcp _ _ => false

end Client

/-- `host.startswith("http://") or host.startswith("https://")`. -/
def hasScheme (host : String) : Bool := host.startsWith "http://" || host.startsWith "https://"

/-- `OPNsenseAPI.base`, `PfsenseAPI.base`. -/
def firewallBase (host : String) : String :=
  rstripSlash (if hasScheme host then host else "https://" ++ host)

/-- `InternetBoxAPI.base`. -/
def internetBoxBase (host : String) : String :=
  rstripSlash (if host.startsWith "http" then host else "https://" ++ host)

/-- `SynologyAPI.base`. -/
def synologyBase (host : String) (port : ℤ) : String :=
  let host :=
    if hasScheme host then host
    else (if port = 5001 then "https" else "http") ++ "://" ++ host
  rstripSlash host ++ ":" ++ toString port

/-- `API_BASE` of Cloudflare. -/
def cloudflareBase : String := "https://api.cloudflare.com/client/v4"

/-- `config.get("verify_ssl", default)`. -/
def verifyOf (default : Bool) (cfg : Dict) : Json := (cfg "verify_ssl").getD (.bool default)

/-- `int(config.get("port", default) or default)`. -/
def portOf (py : Python) (default : ℤ) (cfg : Dict) : Option ℤ :=
  let port := (cfg "port").getD (.num default)
  if port.truthy then py.int port else some default

/-- A client with the URL that a function makes of the host. It is not built where a key is missing
that it must have, or where the host is no text. -/
def webClient (base : String → String) (required : List String) (cfg : Dict) : Option Client := do
  let host ← (cfg "host").bind Json.str?
  if required.all fun key => (cfg key).isSome then some (.web (base host) (verifyOf true cfg))
  else none

/-- The client of a configuration. The speed test has none. -/
def IntegrationType.client (py : Python) (cfg : Dict) : IntegrationType → Option Client
  | adguard => webClient rstripSlash [] cfg
  | cloudflare => if (cfg "api_token").isSome then some (.web cloudflareBase (.bool true)) else none
  | firewall => webClient firewallBase ["api_key", "api_secret"] cfg
  | gitea => webClient rstripSlash [] cfg
  | hass => webClient rstripSlash ["token"] cfg
  | npm => webClient rstripSlash ["email", "password"] cfg
  | ups => do
    let host ← (cfg "host").bind Json.str?
    let port ← portOf py 3493 cfg
    some (.tcp host port)
  | phpipam => do
    let host ← ((cfg "host").getD (.str "")).str?
    some (.web (rstripSlash host) (verifyOf true cfg))
  | pihole => webClient rstripSlash [] cfg
  | portainer => webClient rstripSlash [] cfg
  | proxmox => webClient rstripSlash ["token_id", "token_secret"] cfg
  | redfish => webClient rstripSlash ["username", "password"] cfg
  | speedtest => none
  | swisscom => do
    let host ← ((cfg "host").getD (.str "192.168.1.1")).str?
    some (.web (internetBoxBase host) (verifyOf false cfg))
  | synology => do
    let port ← portOf py 5001 cfg
    webClient (synologyBase · port) ["username", "password"] cfg
  | technitium => webClient rstripSlash [] cfg
  | truenas => webClient rstripSlash ["api_key"] cfg
  | unas => webClient rstripSlash ["username", "password"] cfg
  | unifi => webClient rstripSlash ["username", "password"] cfg

end Nodeglow.Integrations
