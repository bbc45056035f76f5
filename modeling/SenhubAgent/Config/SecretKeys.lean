import Mathlib.Data.String.Basic

/-!
# Key names that denote a secret

Two case-insensitive patterns decide from a key's name alone whether its value is
a secret: `sensitiveKeyPattern`, which the sealer uses, and
`consoleSecretKeyPattern`, which the console hides by. Each is a choice of words
that match anywhere in the name, where `[_-]?` is an optional separator.

Folding follows the regular-expression engine: besides the ASCII letters, the long
s (U+017F) folds to `s` and the Kelvin sign (U+212A) to `k`.
-/

namespace SenhubAgent.Config

/-- A piece of a word of a pattern. -/
inductive Piece where
  | letter (c : Char)
  /-- `[_-]?` -/
  | separator
deriving DecidableEq, Repr

def foldCase (c : Char) : Char :=
  if c = '\u017f' then 's' else if c = '\u212a' then 'k' else c.toLower

def matchHere : List Piece → List Char → Bool
  | [], _ => true
  | .letter c :: ps, x :: xs => foldCase x == c && matchHere ps xs
  | .letter _ :: _, [] => false
  | .separator :: ps, x :: xs =>
    (x == '_' || x == '-') && matchHere ps xs || matchHere ps (x :: xs)
  | .separator :: ps, [] => matchHere ps []

/-- `MatchString` of a choice of words. -/
def matchString (words : List (List Piece)) (text : List Char) : Bool :=
  text.tails.any fun rest => words.any fun word => matchHere word rest

def word (w : String) : List Piece := w.toList.map .letter

def joined (a b : String) : List Piece := word a ++ .separator :: word b

def sensitiveKeyPattern : List (List Piece) :=
  [word "password", word "passphrase", word "secret", word "token", joined "api" "key",
   joined "admin" "key", word "community", word "credential", word "dsn", word "uri",
   joined "private" "key"]

def consoleSecretKeyPattern : List (List Piece) :=
  [word "password", word "passphrase", word "secret", word "token", joined "api" "key",
   joined "private" "key", word "credential", word "community", word "dsn", word "uri",
   word "authorization", word "bearer", word "license", word "jwt"]

/-- A field name that denotes a secret to seal. -/
def isSensitiveKey (name : String) : Bool := matchString sensitiveKeyPattern name.toList

/-- A key whose value the console never shows. -/
def consoleHides (key : String) : Bool := matchString consoleSecretKeyPattern key.toList

example : consoleHides "Api-Key" = true ∧ consoleHides "username" = false := by decide

end SenhubAgent.Config
