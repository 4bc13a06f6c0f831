import Nodeglow.Foundation.Regex
import Nodeglow.Foundation.Text

/-!
# Parsing a syslog message

A message is tried in this order: RFC 5424, which has a version after the priority; RFC 3164; a
priority and any text; an RFC 3164 timestamp without a priority; any text. Each format is a regular
expression that is matched at the start of the message, without the white space around it.

What a timestamp denotes, and which characters are letters or digits, are parameters (`ParserEnv`):
nothing else is read from them.

Source: `backend/services/syslog.py`, lines 108–162 and 184–300.
-/

namespace Nodeglow.Syslog

/-- What is taken from elsewhere. -/
structure ParserEnv (τ : Type) where
  /-- `datetime.utcnow`. -/
  utcnow : τ
  /-- `_parse_5424_ts`. -/
  parse5424Ts : String → τ
  /-- `_parse_3164_ts`. -/
  parse3164Ts : String → τ
  /-- `str.isalnum`, of one character. -/
  isAlnum : Char → Bool

/-! ### Patterns -/

/-- `\d`, repeated. -/
def decimals (min : ℕ) (max : Option ℕ) : Regex := .chars Text.isDecimal min max true

/-- `\s`, repeated. -/
def spaces (min : ℕ) : Regex := .chars Text.isSpace min none true

/-- `\S+`, greedy or lazy. -/
def nonSpaces (greedy : Bool) : Regex := .chars (fun c => !Text.isSpace c) 1 none greedy

/-- `.`, repeated. -/
def line (min : ℕ) (greedy : Bool) : Regex := .chars (fun c => c ≠ '\n') min none greedy

/-- `.` with `re.DOTALL`, repeated. -/
def anything (min : ℕ) : Regex := .chars (fun _ => true) min none true

/-- `(?:\[.*?\]\s*)?`. -/
def structuredDataRe : Regex :=
  .opt (.concat [.lit '[', line 0 false, .lit ']', spaces 0])

/-- `_RFC5424_RE`. -/
def rfc5424Re : Regex :=
  .concat [.lit '<', .group (decimals 1 (some 3)), .lit '>',
    .group (decimals 1 none), spaces 1,
    .group (nonSpaces true), spaces 1,
    .group (nonSpaces true), spaces 1,
    .group (nonSpaces true), spaces 1,
    .group (nonSpaces true), spaces 1,
    .group (nonSpaces true), spaces 0,
    structuredDataRe,
    .group (line 0 true)]

/-- `<(\d{1,3})>`. -/
def priorityRe : List Regex := [.lit '<', .group (decimals 1 (some 3)), .lit '>']

/-- `(\w{3}\s+\d{1,2}\s+\d{2}:\d{2}:\d{2})\s+(\S+)\s+`. -/
def timestampHostRe (isAlnum : Char → Bool) : List Regex :=
  [.group (.concat [.chars (fun c => isAlnum c || c = '_') 3 (some 3) true, spaces 1,
      decimals 1 (some 2), spaces 1, decimals 2 (some 2), .lit ':', decimals 2 (some 2), .lit ':',
      decimals 2 (some 2)]), spaces 1,
    .group (nonSpaces true), spaces 1]

/-- `_RFC3164_RE`. -/
def rfc3164Re (isAlnum : Char → Bool) : Regex :=
  .concat (priorityRe ++ timestampHostRe isAlnum ++ [.group (line 1 true)])

/-- RFC 3164 without a priority. -/
def noPriorityRe (isAlnum : Char → Bool) : Regex :=
  .concat (timestampHostRe isAlnum ++ [.group (anything 1)])

/-- A priority and any text. -/
def fallbackRe : Regex := .concat (priorityRe ++ [.group (anything 0)])

/-- The pattern of `_split_app_message`. -/
def appMessageRe : Regex :=
  .concat [.group (nonSpaces false), .opt (.concat [.lit '[', decimals 1 none, .lit ']']), .lit ':',
    spaces 0, .group (anything 0)]

/-- The start of an ISO timestamp. -/
def isoDateRe : Regex :=
  .concat [decimals 4 (some 4), .lit '-', decimals 2 (some 2), .lit '-', decimals 2 (some 2),
    .lit 'T']

/-! ### The parser -/

/-- The result of `parse_syslog`. -/
structure Parsed (τ : Type) where
  timestamp : τ
  sourceIp : String
  hostname : Option String
  facility : Option ℕ
  severity : ℕ
  appName : Option String
  message : String
  deriving DecidableEq, Repr

/-- A captured text without the white space around it. -/
def stripped (text : List Char) : String := Text.strip (String.ofList text)

/-- `_split_app_message`. -/
def splitAppMessage (rest : List Char) : Option String × List Char :=
  match appMessageRe.firstMatch rest with
  | some ([app, message], _) => (some (String.ofList app), message)
  | _ => (none, rest)

/-- `rest.split(None, 1)`. -/
def splitFirstWord (rest : List Char) : Option (List Char × List Char) :=
  let rest := rest.dropWhile Text.isSpace
  if rest = [] then none
  else
    let word := rest.takeWhile fun c => !Text.isSpace c
    some (word, (rest.drop word.length).dropWhile Text.isSpace)

/-- Where two timestamps precede the host, what has matched as the host is the second of them. -/
def splitHost (hostname rest : List Char) : List Char × List Char :=
  if (isoDateRe.firstMatch hostname).isSome then (splitFirstWord rest).getD (hostname, rest)
  else (hostname, rest)

variable {τ : Type} (env : ParserEnv τ)

/-- The fields of a message of RFC 3164. -/
def parse3164 (ts hostname rest : List Char) (facility : Option ℕ) (severity : ℕ)
    (sourceIp : String) : Parsed τ :=
  let (hostname, rest) := splitHost hostname rest
  let (appName, message) := splitAppMessage rest
  { timestamp := env.parse3164Ts (String.ofList ts)
    sourceIp := sourceIp
    hostname := some (String.ofList hostname)
    facility := facility
    severity := severity
    appName := appName
    message := stripped message }

/-- A field of the header, which is `-` where it has no value. -/
def headerField (text : List Char) : Option String :=
  if text = ['-'] then none else some (String.ofList text)

/-- The message as RFC 5424. -/
def parse5424 (raw : List Char) (sourceIp : String) : Option (Parsed τ) :=
  match rfc5424Re.firstMatch raw with
  | some ([pri, _, ts, hostname, appName, _, _, message], _) =>
      let pri := min (Text.decimalInt pri) 191
      some {
        timestamp := env.parse5424Ts (String.ofList ts)
        sourceIp := sourceIp
        hostname := headerField hostname
        facility := some (pri / 8)
        severity := pri % 8
        appName := headerField appName
        message := stripped message }
  | _ => none

/-- The message as RFC 3164, or with a priority only. -/
def parseWithPriority (raw : List Char) (sourceIp : String) : Option (Parsed τ) :=
  match (rfc3164Re env.isAlnum).firstMatch raw with
  | some ([pri, ts, hostname, rest], _) =>
      let pri := min (Text.decimalInt pri) 191
      some (parse3164 env ts hostname rest (some (pri / 8)) (pri % 8) sourceIp)
  | _ =>
      match fallbackRe.firstMatch raw with
      | some ([pri, message], _) =>
          let pri := Text.decimalInt pri
          some {
            timestamp := env.utcnow
            sourceIp := sourceIp
            hostname := none
            facility := some (pri / 8)
            severity := pri % 8
            appName := none
            message := stripped message }
      | _ => none

/-- The message without a priority. -/
def parseWithoutPriority (raw : List Char) (sourceIp : String) : Parsed τ :=
  match (noPriorityRe env.isAlnum).firstMatch raw with
  | some ([ts, hostname, rest], _) => parse3164 env ts hostname rest none 6 sourceIp
  | _ =>
      { timestamp := env.utcnow
        sourceIp := sourceIp
        hostname := none
        facility := none
        severity := 6
        appName := none
        message := String.ofList raw }

/-- `parse_syslog`. -/
def parseSyslog (raw sourceIp : String) : Option (Parsed τ) :=
  let raw := (Text.strip raw).toList
  if raw = [] then none
  else some (((parse5424 env raw sourceIp).or (parseWithPriority env raw sourceIp)).getD
    (parseWithoutPriority env raw sourceIp))

end Nodeglow.Syslog
