import SenhubAgent.AgentState.RedactScan
import SenhubAgent.Lib.Regex

/-!
# The preset of masking rules

`maskString` runs the rules of the set over a text, one after the other, each on what the rules
before it made of the text. The preset (`builtinRedactRules`) has eleven: two scanners and nine
regular expressions. Whatever a rule of the preset finds, it replaces one span of the match by
`***` and leaves the text around it as it is.

Mirroring notes:
- A Go string is the list of its bytes and the expressions are over bytes. In a pattern that ignores
  case, a class with letters also has the two runes that fold to ASCII letters, the Kelvin sign and
  the long s, as their bytes.
- A replacement is what `ExpandString` is given: the pieces before its `***` and those behind it.
- An operator's own rule is an arbitrary rewrite. The counters of masked values are left out.
-/

namespace SenhubAgent.AgentState.Redact

open SenhubAgent.Lib

/-! ## Pieces of the patterns -/

def isUpper (c : UInt8) : Bool := ascii 'A' ≤ c && c ≤ ascii 'Z'

def isLower (c : UInt8) : Bool := ascii 'a' ≤ c && c ≤ ascii 'z'

def isDigit (c : UInt8) : Bool := ascii '0' ≤ c && c ≤ ascii '9'

def isAlnum (c : UInt8) : Bool := isUpper c || isLower c || isDigit c

/-- `[A-Z0-9]`. -/
def isUpperDigit (c : UInt8) : Bool := isUpper c || isDigit c

/-- One of the given characters. -/
def oneOf (chars : String) (c : UInt8) : Bool := (asciiText chars).contains c

abbrev Re := Regex UInt8

def lit (text : String) : Re := .str (asciiText text)

def cls (p : UInt8 → Bool) : Re := .sym p

def wordBoundary : Re := .boundary isWordByte

/-- U+212A, which folds to `k`. -/
def kelvinSign : Re := .str [0xE2, 0x84, 0xAA]

/-- U+017F, which folds to `s`. -/
def longS : Re := .str [0xC5, 0xBF]

/-- A lower case letter under `(?i)`. -/
def foldByte (b : UInt8) : Re :=
  let both := cls fun c => asciiLower c == b
  if b = ascii 'k' then .alt both kelvinSign
  else if b = ascii 's' then .alt both longS
  else both

/-- A lower case text under `(?i)`. -/
def litFold (text : String) : Re := (asciiText text).foldr (fun b e => .seq (foldByte b) e) .empty

/-- A class with all letters under `(?i)`. -/
def clsFold (p : UInt8 → Bool) : Re := .alt (cls p) (.alt kelvinSign longS)

def many (p : UInt8 → Bool) : Re := .star true (cls p)

def some1 (p : UInt8 → Bool) : Re := .atLeast 1 (cls p)

/-- The expressions one after the other. -/
def cat : List Re → Re
  | [] => .empty
  | [e] => e
  | e :: es => .seq e (cat es)

/-! ## Rules -/

/-- A piece of a replacement: a text, or `${n}`. -/
inductive Piece where
  | text (t : Bytes)
  | group (n : Nat)

/-- A replacement text around its `***`. -/
structure Replacement where
  before : List Piece
  after : List Piece

inductive Action where
  /-- `re` and `replacement` -/
  | pattern (re : Re) (replacement : Replacement)
  /-- `scan`, by what it looks for at a position -/
  | scan (find : Bytes → Nat → Option (Nat × Nat))
  /-- a rule of the operator's -/
  | custom (rewrite : Bytes → Bytes)

/-- `redactRule` -/
structure Rule where
  name : String
  precheck : Option (Bytes → Bool)
  action : Action

/-- `strings.Contains` -/
def containsText (s sub : Bytes) : Bool := s.tails.any sub.isPrefixOf

/-- `lowerKeyword` in `s`, whatever the case of its ASCII letters there. -/
def containsFold (s : Bytes) (lowerKeyword : Bytes) : Bool :=
  containsText (s.map asciiLower) lowerKeyword

def expandPieces (src : Bytes) (m : Regex.Found) (pieces : List Piece) : Bytes :=
  pieces.flatMap fun
    | .text t => t
    | .group n =>
      match m.caps n with
      | some (a, b) => sliceOf src a b
      | none => []

/-- `re.ExpandString(nil, replacement, src, m)` -/
def expandString (r : Replacement) (src : Bytes) (m : Regex.Found) : Bytes :=
  expandPieces src m r.before ++ (maskText ++ expandPieces src m r.after)

/-- The loop of `applyRedactRule` over the matches. -/
def applyMatches (r : Replacement) (src : Bytes) :
    List Regex.Found → Nat → Bool → Bytes → Bytes
  | [], last, changed, out => if changed then out ++ src.drop last else src
  | m :: ms, last, changed, out =>
    let repl := expandString r src m
    if repl = sliceOf src m.start m.stop then applyMatches r src ms last changed out
    else applyMatches r src ms m.stop true (out ++ sliceOf src last m.start ++ repl)

def applyRedactRule (re : Re) (r : Replacement) (src : Bytes) : Bytes :=
  applyMatches r src (re.findAll src) 0 false []

/-- What a rule does once its precheck lets it. -/
def Action.run : Action → Bytes → Bytes
  | .pattern re r, src => applyRedactRule re r src
  | .scan find, src => (scanLoop src (find src) (src.length + 1) 0 0 0 []).1
  | .custom rewrite, src => rewrite src

def maskString (rules : List Rule) : Bytes → Bytes :=
  maskWith [] Rule.precheck (fun rule => rule.action.run) rules

/-! ## The preset -/

def bearerToken : Rule where
  name := "bearer_token"
  precheck := some fun s => containsFold s (asciiText "bearer")
  action := .pattern
    (.seq (.group 1 (cat [wordBoundary, litFold "bearer", some1 isRE2Space]))
      (.group 2 (.atLeast 16 (clsFold fun c => isAlnum c || oneOf "._~+/=-" c))))
    ⟨[.group 1], []⟩

def credentialParam : Rule where
  name := "credential_param"
  precheck := none
  action := .scan credentialAt

/-- The name, the separator and what may stand before the value. -/
def authorizationHead : Re :=
  cat [wordBoundary, .alt (litFold "proxy-authorization") (litFold "authorization"), wordBoundary,
    many isRE2Space, .opt (cls isQuote), cls (oneOf "=:"), many isRE2Space, .opt (cls isQuote),
    many isRE2Space]

def authorizationScheme : Re :=
  .seq (.alt (litFold "bearer") (.alt (litFold "basic") (.alt (litFold "digest")
    (.alt (litFold "negotiate") (litFold "ntlm"))))) (some1 isRE2Space)

def authorizationHeader : Rule where
  name := "authorization_header"
  precheck := some fun s => containsFold s (asciiText "authorization")
  action := .pattern
    (.seq (.group 1 authorizationHead)
      (.alt
        (.seq (.group 2 (.seq (litFold "digest") (some1 isRE2Space)))
          (.group 3 (some1 fun c => !oneOf "\r\n" c)))
        (.seq (.opt (.group 4 authorizationScheme))
          (.group 5 (some1 fun c => !(isRE2Space c || oneOf "\"',;" c))))))
    ⟨[.group 1, .group 2, .group 4], []⟩

def urlUserinfo : Rule where
  name := "url_userinfo"
  precheck := some fun s => containsText s (asciiText "://") && containsText s (asciiText "@")
  action := .pattern
    (.seq
      (.group 1 (cat [wordBoundary, cls (fun c => isUpper c || isLower c),
        many (fun c => isAlnum c || oneOf "+.-" c), lit "://",
        some1 (fun c => !(isRE2Space c || oneOf "/:@\"'?#" c)), lit ":"]))
      (.seq (.group 2 (some1 fun c => !(isRE2Space c || oneOf "/@\"'?#" c))) (.group 3 (lit "@"))))
    ⟨[.group 1], [.group 3]⟩

def urlQuerySecret : Rule where
  name := "url_query_secret"
  precheck := none
  action := .scan urlQueryAt

def prtgLicenseKeyPrecheck (s : Bytes) : Bool := s.length ≥ 69 && s.count (ascii '-') ≥ 9

def prtgLicenseKey : Rule where
  name := "prtg_license_key"
  precheck := some prtgLicenseKeyPrecheck
  action := .pattern
    (cat [wordBoundary, (cls isUpperDigit).times 6,
      Regex.times (.seq (lit "-") ((cls isUpperDigit).times 6)) 9, wordBoundary])
    ⟨[], []⟩

def prtgSystemID : Rule where
  name := "prtg_system_id"
  precheck := some fun s => containsText s (asciiText "SYSTEMID-")
  action := .pattern
    (.seq wordBoundary (.seq (lit "SYSTEMID-")
      (.seq (some1 isUpperDigit) (.star true (.seq (lit "-") (some1 isUpperDigit))))))
    ⟨[.text (asciiText "SYSTEMID-")], []⟩

/-- `[A-Z0-9 ]`. -/
def isArmourByte (c : UInt8) : Bool := isUpperDigit c || c == ascii ' '

/-- `-----BEGIN [A-Z0-9 ]*PRIVATE KEY-----`, or with `END`. -/
def armour (word : String) : Re :=
  .seq (lit ("-----" ++ word ++ " ")) (.seq (many isArmourByte) (lit "PRIVATE KEY-----"))

/-- `[\s\S]*`, lazy or greedy. -/
def anything (greedy : Bool) : Re := .star greedy (cls fun _ => true)

def privateKeyPattern : Re :=
  .seq (.group 1 (armour "BEGIN"))
    (.alt (.seq (anything false) (.group 2 (armour "END"))) (.seq (anything true) .textEnd))

def privateKey : Rule where
  name := "private_key"
  precheck := some fun s => containsText s (asciiText "PRIVATE KEY-----")
  action := .pattern privateKeyPattern ⟨[.group 1], [.group 2]⟩

def isBase64URL (c : UInt8) : Bool := isAlnum c || oneOf "_-" c

def jwt : Rule where
  name := "jwt"
  precheck := some fun s => containsText s (asciiText "eyJ")
  action := .pattern
    (cat [wordBoundary, lit "eyJ", .atLeast 4 (cls isBase64URL), lit ".eyJ",
      .atLeast 4 (cls isBase64URL), lit ".", .atLeast 8 (cls isBase64URL)])
    ⟨[], []⟩

def awsAccessKeyID : Rule where
  name := "aws_access_key_id"
  precheck := some fun s => containsText s (asciiText "AKIA") || containsText s (asciiText "ASIA")
  action := .pattern
    (cat [wordBoundary, .alt (lit "AKIA") (lit "ASIA"), (cls isUpperDigit).times 16, wordBoundary])
    ⟨[], []⟩

def awsSecretAccessKey : Rule where
  name := "aws_secret_access_key"
  precheck := some fun s => containsFold s (asciiText "aws_secret_access_key")
  action := .pattern
    (.seq
      (.group 1 (cat [.opt (cls isQuote), wordBoundary, litFold "aws_secret_access_key",
        .opt (cls isQuote), many isRE2Space, cls (oneOf "=:"), many isRE2Space,
        .opt (cls isQuote)]))
      (.group 2 ((clsFold fun c => isAlnum c || oneOf "/+=" c).times 40)))
    ⟨[.group 1], []⟩

/-- The rules that run before `private_key`. -/
def rulesBeforePrivateKey : List Rule :=
  [bearerToken, credentialParam, authorizationHeader, urlUserinfo, urlQuerySecret, prtgLicenseKey,
    prtgSystemID]

/-- The rules that run behind it. -/
def rulesAfterPrivateKey : List Rule := [jwt, awsAccessKeyID, awsSecretAccessKey]

def builtinRedactRules : List Rule := rulesBeforePrivateKey ++ privateKey :: rulesAfterPrivateKey

end SenhubAgent.AgentState.Redact
