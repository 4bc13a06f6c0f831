import Nodeglow.Backend.AiRedaction.Placeholders
import Nodeglow.Backend.NetSafety.Addresses

/-!
# What is redacted

The patterns for secrets, addresses, names of users and of hosts. Where a pattern ignores the case,
a character is compared as `fold` gives it.

Source: `backend/services/ai_redaction.py`, lines 45–146 and 168–178.
-/

namespace Nodeglow.AiRedaction

open Pattern

/-- Python: `str.lower`, the text form of addresses, `str.isalnum` of one character, and the
equality of characters for `re.IGNORECASE`. -/
structure Python extends Text.Lower where
  ip : NetSafety.IpText
  isAlnum : Char → Bool
  isAlnum_ascii : ∀ c : Char, c.toNat < 128 → isAlnum c = c.isAlphanum
  sameIgnoringCase : Char → Char → Bool
  sameIgnoringCase_self : ∀ c, sameIgnoringCase c c = true

/-! ### Classes of characters -/

/-- The lower case letter that a letter matches if the case is ignored. Beside those of ASCII these
are the dotted `I`, the dotless `i`, the long `s` and the sign for kelvin. -/
def fold (c : Char) : Char :=
  if c.isUpper then c.toLower
  else if c = 'İ' ∨ c = 'ı' then 'i'
  else if c = 'ſ' then 's'
  else if c.toNat = 0x212A then 'k'
  else c

/-- `[a-b]`. -/
def range (a b c : Char) : Bool := a ≤ c && c ≤ b

/-- `[a-z]`. -/
def isLower (c : Char) : Bool := range 'a' 'z' c

/-- `[A-Z]`. -/
def isUpper (c : Char) : Bool := range 'A' 'Z' c

/-- `[0-9]`. -/
def isDigit (c : Char) : Bool := range '0' '9' c

/-- `[a-z0-9]`. -/
def isLowerDigit (c : Char) : Bool := isLower c || isDigit c

/-- `[A-Za-z0-9]`. -/
def isLetterDigit (c : Char) : Bool := isLower c || isUpper c || isDigit c

/-- `[0-9a-f]`. -/
def isHex (c : Char) : Bool := isDigit c || range 'a' 'f' c

/-- A set that is written out. -/
def inSet (set : List Char) (c : Char) : Bool := set.contains c

/-- A class, ignoring the case. -/
def anyCase (p : Char → Bool) (c : Char) : Bool := p (fold c)

/-! ### Parts of patterns -/

/-- A given text. -/
def text (s : String) : Pattern Group := lits s.toList

/-- A given text, ignoring the case. -/
def textAnyCase (s : String) : Pattern Group :=
  concat (s.toList.map fun d => one fun c => fold c = fold d)

/-- One of some texts. -/
def anyOf (ss : List String) : Pattern Group := oneOf (ss.map text)

/-- One of some texts, ignoring the case. -/
def anyOfAnyCase (ss : List String) : Pattern Group := oneOf (ss.map textAnyCase)

/-- `\s`, repeated. -/
def spaces (min : ℕ) : Pattern Group := .chars Text.isSpace min none

/-- `\S+`. -/
def nonSpaces : Pattern Group := .chars (fun c => !Text.isSpace c) 1 none

/-- `\d`, repeated. -/
def decimals (min : ℕ) (max : Option ℕ) : Pattern Group := .chars Text.isDecimal min max

/-- Characters other than white space and those of a set. -/
def nonSpacesBut (set : List Char) (min : ℕ) (max : Option ℕ) : Pattern Group :=
  .chars (fun c => !Text.isSpace c && !inSet set c) min max

/-- `["']?`. -/
def quote : Pattern Group := .chars (inSet ['"', '\'']) 0 (some 1)

section Patterns

variable (py : Python)

/-- `\w`. -/
def isWord (c : Char) : Bool := py.isAlnum c || c = '_'

/-- `\b`. -/
def wordEnd : Pattern Group := .boundary (isWord py)

/-! ### Secrets -/

/-- `_SECRET_KEYS`. -/
def secretKeys : List String :=
  ["password", "passwd", "passphrase", "pwd", "pass", "secret", "client_secret", "client-secret",
    "token", "access_token", "refresh_token", "auth_token", "api_key", "api-key", "apikey",
    "access_key", "access-key", "secret_key", "private_key", "sessionid", "session_id",
    "authorization", "auth", "signature"]

/-- `(?:Bearer|Basic|Token)`. -/
def scheme : Pattern Group := anyOfAnyCase ["Bearer", "Basic", "Token"]

/-- `_SECRET_KV_RE`. -/
def secretKvRe : Pattern Group :=
  concat [
    .group .key (concat [quote, wordEnd py, anyOfAnyCase secretKeys, wordEnd py, quote]),
    .group .sep (concat [spaces 0, one (inSet ['=', ':']), spaces 0]),
    .group .q quote,
    .group .val (concat [
      .notAhead (.alt
        (concat [lit '<', .chars (anyCase isLowerDigit) 1 none, lit '_', decimals 1 none, lit '>'])
        (.seq scheme (wordEnd py))),
      nonSpacesBut ['"', '\'', ',', ';', '&', ')', '}', ']'] 1 (some 512)])]

/-- `_BEARER_RE`. -/
def bearerRe : Pattern Group :=
  concat [wordEnd py, .group .first scheme, spaces 1,
    .group .second (.chars (anyCase fun c =>
      isLowerDigit c || inSet ['.', '_', '~', '+', '/', '=', '-'] c) 8 none)]

/-- `_URL_CREDS_RE`. -/
def urlCredsRe : Pattern Group :=
  concat [wordEnd py,
    .group .first (concat [one (anyCase isLower),
      .chars (anyCase fun c => isLowerDigit c || inSet ['+', '.', '-'] c) 0 none, text "://"]),
    .group .second (nonSpacesBut [':', '/', '@'] 1 none), lit ':',
    .group .third (nonSpacesBut ['@', '/'] 1 none), lit '@']

/-- `[A-Za-z0-9_-]`. -/
def isTokenChar (c : Char) : Bool := isLetterDigit c || inSet ['_', '-'] c

/-- `_TOKEN_FORMATS`: Anthropic, OpenAI, AWS access key ids, GitHub, Slack, JWT and Nodeglow API
keys. -/
def tokenFormats : List (Pattern Group) :=
  [concat [wordEnd py, text "sk-ant-", .chars isTokenChar 10 none],
    concat [wordEnd py, text "sk-", .opt (text "proj-"), .chars isTokenChar 20 none],
    concat [wordEnd py, text "AKIA", .chars (fun c => isDigit c || isUpper c) 16 (some 16), wordEnd py],
    concat [wordEnd py, text "gh", one (inSet ['p', 'o', 'u', 's', 'r']), lit '_',
      .chars isLetterDigit 30 none, wordEnd py],
    concat [wordEnd py, text "xox", one (inSet ['a', 'b', 'p', 'r', 's']), lit '-',
      .chars (fun c => isLetterDigit c || c = '-') 10 none],
    concat [wordEnd py, text "eyJ", .chars isTokenChar 8 none, lit '.', .chars isTokenChar 8 none,
      lit '.', .chars isTokenChar 8 none],
    concat [wordEnd py, text "ng_", .chars isTokenChar 20 none]]

/-- The patterns for secrets, in the order of the passes. -/
def secretPatterns : List (Pattern Group) :=
  urlCredsRe py :: bearerRe py :: (tokenFormats py ++ [secretKvRe py])

/-! ### Addresses -/

/-- `_EMAIL_RE`. -/
def emailRe : Pattern Group :=
  concat [wordEnd py,
    .chars (anyCase fun c => isLowerDigit c || inSet ['.', '_', '%', '+', '-'] c) 1 none, lit '@',
    .chars (anyCase fun c => isLowerDigit c || inSet ['.', '-'] c) 1 none, lit '.',
    .chars (anyCase isLower) 2 (some 63), wordEnd py]

/-- Two hexadecimal digits. -/
def hexPair : Pattern Group := .chars (anyCase isHex) 2 (some 2)

/-- Four hexadecimal digits. -/
def hexQuad : Pattern Group := .chars (anyCase isHex) 4 (some 4)

/-- `_MAC_RE`. -/
def macRe : Pattern Group :=
  .alt
    (concat [.notBehind (anyCase fun c => isHex c || inSet [':', '.', '-'] c),
      times 5 (.seq hexPair (one (inSet [':', '-']))), hexPair,
      .notAhead (one (anyCase fun c => isHex c || inSet [':', '.', '-'] c))])
    (concat [.notBehind (anyCase fun c => isHex c || c = '.'), hexQuad, lit '.', hexQuad, lit '.',
      hexQuad, .notAhead (one (anyCase fun c => isHex c || c = '.'))])

/-- `_IPV4_RE`. -/
def ipv4Re : Pattern Group :=
  concat [.notBehind (fun c => Text.isDecimal c || c = '.'),
    times 3 (.seq (decimals 1 (some 3)) (lit '.')), decimals 1 (some 3),
    .notAhead (.alt (one Text.isDecimal) (.seq (lit '.') (one Text.isDecimal)))]

/-- `(?:[0-9a-f]{0,4}:)`. -/
def ipv6Group : Pattern Group := .seq (.chars (anyCase isHex) 0 (some 4)) (lit ':')

/-- `_IPV6_RE`. -/
def ipv6Re : Pattern Group :=
  concat [.notBehind (anyCase fun c => isHex c || c = ':'), ipv6Group, ipv6Group, upTo 5 ipv6Group,
    .chars (anyCase isHex) 0 (some 4), .notAhead (one (anyCase fun c => isHex c || c = ':'))]

/-- `_SID_RE`. -/
def sidRe : Pattern Group :=
  concat [wordEnd py, text "S-1-5-21-", decimals 1 none, lit '-', decimals 1 none, lit '-',
    decimals 1 none, .opt (.seq (lit '-') (decimals 1 none)), wordEnd py]

/-! ### Names of users -/

/-- sshd: `Failed password for invalid user admin from`. -/
def sshdForRe : Pattern Group :=
  concat [wordEnd py, anyOfAnyCase ["Accepted", "Failed", "Postponed"], spaces 1, nonSpaces, spaces 1,
    textAnyCase "for", spaces 1,
    .opt (.alt (concat [textAnyCase "invalid", spaces 1, textAnyCase "user", spaces 1])
      (concat [textAnyCase "illegal", spaces 1, textAnyCase "user", spaces 1])),
    .group .v nonSpaces, spaces 1, textAnyCase "from", wordEnd py]

/-- sshd, PAM: `Invalid user admin from`, `session opened for user root(uid=0)`. -/
def userAfterRe : Pattern Group :=
  concat [wordEnd py, anyOfAnyCase ["invalid", "illegal", "authenticating", "for", "from", "by"],
    spaces 1, textAnyCase "user", spaces 1,
    .group .v (nonSpacesBut ['(', ')', ',', ';', ':'] 1 none)]

/-- su and sudo: `user=julian`. -/
def userKvRe : Pattern Group :=
  concat [wordEnd py, anyOfAnyCase ["user", "username", "user_name", "logname", "acct", "ruser", "suser",
      "duser", "src_user", "dst_user", "usrName", "TargetUserName", "SubjectUserName"],
    spaces 0, one (inSet ['=', ':']), spaces 0, quote,
    .group .v (nonSpacesBut ['"', '\'', ',', ';', '(', ')', ']'] 1 none)]

/-- sudo: `julian : TTY=pts/0 ; PWD=/home/julian`. -/
def sudoRe : Pattern Group :=
  concat [
    .alt .lineStart (concat [text "sudo", .opt (concat [lit '[', decimals 1 none, lit ']']), lit ':',
      spaces 1]),
    .group .v (concat [one fun c => isLower c || c = '_',
      .chars (fun c => isLowerDigit c || inSet ['_', '.', '-'] c) 0 (some 31)]),
    spaces 1, lit ':', spaces 1, anyOf ["TTY", "PWD"], lit '=']

/-- The Windows Security log: `Account Name:`. -/
def accountNameRe : Pattern Group :=
  concat [wordEnd py, anyOfAnyCase ["Account Name", "User Name", "Target User Name",
      "Subject User Name", "Logon Account"],
    spaces 0, lit ':', spaces 0, .group .v nonSpaces]

/-- `DOMAIN\user`. -/
def domainUserRe : Pattern Group :=
  concat [.notBehind (fun c => isWord py c || c = '\\'),
    .group .v (concat [
      .notAhead (.seq (anyOf ["HKLM", "HKCU", "HKCR", "HKU", "HKCC", "AUTHORITY", "BUILTIN", "Windows",
        "System32"]) (lit '\\')),
      one (fun c => isLower c || isUpper c), .chars (fun c => isLetterDigit c || c = '-') 1 (some 14),
      lit '\\', .chars (fun c => isLetterDigit c || inSet ['.', '_', '$', '-'] c) 1 (some 64)]),
    .notAhead (one fun c => isWord py c || c = '\\')]

/-- Home directories: `/home/julian`. -/
def homeRe : Pattern Group :=
  concat [anyOfAnyCase ["/home/", "/Users/", "\\Users\\"],
    .group .v (.chars (anyCase fun c => isLowerDigit c || inSet ['.', '_', '-'] c) 2 (some 64))]

/-- The combined log of web servers: `<ip> - julian [10/Oct/2026:13:55:36 +0200] "GET /`. -/
def combinedLogRe : Pattern Group :=
  concat [.alt .lineStart (one Text.isSpace), nonSpaces, spaces 1, lit '-', spaces 1,
    .group .v (concat [nonSpacesBut ['[', '-'] 1 (some 1), nonSpacesBut ['['] 0 none]),
    spaces 1, lit '[', decimals 1 (some 2), lit '/', .chars (isWord py) 3 (some 3), lit '/',
    decimals 4 (some 4), lit ':']

/-- `_USER_PATTERNS`. -/
def userPatterns : List (Pattern Group) :=
  [sshdForRe py, userAfterRe py, userKvRe py, sudoRe, accountNameRe py, domainUserRe py, homeRe,
    combinedLogRe py]

/-! ### Names of hosts -/

/-- `_WIN_HOST_RE`. -/
def winHostRe : Pattern Group :=
  concat [wordEnd py, anyOfAnyCase ["Workstation Name", "Workstation", "Computer", "ComputerName",
      "Source Workstation"],
    spaces 0, one (inSet [':', '=']), spaces 0, .group .v nonSpaces]

/-- `_FQDN_RE`. -/
def fqdnRe : Pattern Group :=
  let label : Pattern Group := concat [one (anyCase isLowerDigit),
    .opt (.seq (.chars (anyCase fun c => isLowerDigit c || c = '-') 0 (some 61))
      (one (anyCase isLowerDigit))), lit '.']
  concat [.notBehind (fun c => isWord py c || inSet ['@', '.', '-'] c), label, .star label,
    one (anyCase isLower), .chars (anyCase fun c => isLowerDigit c || c = '-') 1 (some 62),
    .notAhead (.alt (one fun c => isWord py c || c = '-')
      (.seq (lit '.') (one (anyCase isLowerDigit))))]

/-- `_known_hosts_re`. -/
def knownHostsRe (hosts : List (List Char)) : Pattern Group :=
  concat [.notBehind (fun c => isWord py c || inSet ['.', '-'] c),
    oneOf (hosts.map fun h => concat (h.map fun d => one fun c => py.sameIgnoringCase c d)),
    .notAhead (.alt (one fun c => isWord py c || c = '-')
      (.seq (lit '.') (one (anyCase isLowerDigit))))]

end Patterns

end Nodeglow.AiRedaction
