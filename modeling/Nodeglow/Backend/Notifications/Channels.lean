import Nodeglow.Backend.Secrets.TenantCipher
import Nodeglow.Foundation.Text

/-!
# The channels of a notification

A notification of a tenant goes to the channels that the tenant has configured: those whose settings
are complete, whose minimum severity it reaches, and whose secrets decrypt; and of these, where the
caller names channels, to those only. Nothing is sent where notifications are not enabled, and
nothing where the dispatcher raises, as it does for a port of the mail server that is no number.

The texts that are sent are not part of this file.

Source: `backend/notifications.py`, lines 211–234 and 256–345; `backend/notification_channels.py`,
lines 27, 245–275, 278–306, 309–356 and 402–419.
-/

namespace Nodeglow.Notifications

inductive Channel
  | telegram | discord | webhook | email | teams | slack | ntfy
deriving DecidableEq, Repr

def Channel.name : Channel → String
  | telegram => "telegram"
  | discord => "discord"
  | webhook => "webhook"
  | email => "email"
  | teams => "teams"
  | slack => "slack"
  | ntfy => "ntfy"

/-- The channels in the order in which they are handed a notification. -/
def Channel.all : List Channel := [telegram, discord, webhook, email, teams, slack, ntfy]

/-- Python's part: lower case, and numbers. -/
structure Python extends Text.Lower where
  int : String → Option ℤ

/-- The settings of a tenant that are stored, and its keys: the text of a value under one of them,
if it decrypts, and of a value under the key of the installation. -/
structure Config where
  stored : String → Option (Option String)
  decrypt : String → Option String
  legacyDecrypt : String → Option String

namespace Config

variable (cfg : Config)

/-- `get_setting`; a NULL is as good as an empty text here. -/
def get (key default : String) : String :=
  match cfg.stored key with
  | none => default
  | some value => value.getD ""

/-- `TenantCipher.reveal`, and `reveal` for what is not under a tenant's key. -/
def reveal (value : String) : Option String :=
  if value = "" then some ""
  else if Secrets.isV2 value then cfg.decrypt value
  else some ((cfg.legacyDecrypt value).getD value)

/-- `ChannelSecrets.get`, without the error. -/
def secret (key : String) : String := (cfg.reveal (cfg.get key "")).getD ""

/-- The stored secret does not decrypt. -/
def fails (key : String) : Bool := (cfg.reveal (cfg.get key "")).isNone

end Config

/-! ### Severities -/

/-- `_SEVERITY_LEVELS`; unknown severities count as the least. -/
def severityLevel : String → ℕ
  | "critical" => 2
  | "error" => 3
  | "warning" => 4
  | _ => 7

/-- `_severity_passes`. -/
def severityPasses (incidentSeverity minSeverity : String) : Bool :=
  if minSeverity = "" ∨ minSeverity = "all" then true
  else severityLevel incidentSeverity ≤ severityLevel minSeverity

/-! ### The dispatcher -/

section Dispatch

variable (cfg : Config) (severity : String)

/-- The settings of a channel are complete. -/
def isConfigured : Channel → Bool
  | .telegram => cfg.secret "telegram_bot_token" ≠ "" && cfg.get "telegram_chat_id" "" ≠ ""
  | .discord => cfg.secret "discord_webhook_url" ≠ ""
  | .webhook => cfg.secret "webhook_url" ≠ ""
  | .email =>
    cfg.get "smtp_host" "" ≠ "" && cfg.get "smtp_user" "" ≠ "" && cfg.get "smtp_password" "" ≠ "" &&
      cfg.get "smtp_to" "" ≠ ""
  | .teams => cfg.get "teams_enabled" "0" = "1" && cfg.secret "teams_webhook_url" ≠ ""
  | .slack => cfg.get "slack_enabled" "0" = "1" && cfg.secret "slack_webhook_url" ≠ ""
  | .ntfy => cfg.get "ntfy_enabled" "0" = "1" && Text.strip (cfg.get "ntfy_topic" "") ≠ ""

/-- A secret of a channel does not decrypt. -/
def failsSecret : Channel → Bool
  | .telegram => cfg.fails "telegram_bot_token"
  | .discord => cfg.fails "discord_webhook_url"
  | .webhook => cfg.fails "webhook_url" || cfg.fails "webhook_secret"
  | .email => cfg.fails "smtp_password"
  | .teams => cfg.fails "teams_webhook_url"
  | .slack => cfg.fails "slack_webhook_url"
  | .ntfy => cfg.fails "ntfy_token"

def minSeverity (c : Channel) : String := cfg.get ("notify_" ++ c.name ++ "_min_severity") "all"

/-- A channel can be handed a notification of a severity. -/
def isReady (c : Channel) : Bool :=
  isConfigured cfg c && severityPasses severity (minSeverity cfg c) && !failsSecret cfg c

/-- The channels that a caller names; an empty list stands for all. -/
def isRequested (channels : List String) (c : Channel) : Bool := channels = [] || c.name ∈ channels

/-- The channels that `_notify_tenant_channels` hands a notification to, unless it raises. -/
def sends (py : Python) (channels : List String) : Option (List Channel) :=
  if cfg.get "notify_enabled" "0" ≠ "1" then some []
  else if isReady cfg severity .email && (py.int (cfg.get "smtp_port" "587")).isNone then none
  else
    some (Channel.all.filter fun c => isReady cfg severity c && isRequested channels c)

end Dispatch

end Nodeglow.Notifications
