import Mathlib.Data.List.Basic

/-!
# Text helpers of the Go standard library

`strings.TrimSpace`, `strings.HasPrefix`, `strings.TrimSuffix`, `strings.TrimRight`,
`strings.Contains`, `strings.Cut` at one character and a `strings.ReplaceAll` of one
character by another. A space is what `unicode.IsSpace` says it is.
-/

namespace SenhubAgent.Lib

/-- A string whose characters are looked at one by one. -/
abbrev Text := List Char

/-- A string whose bytes are looked at one by one. -/
abbrev Bytes := List UInt8

/-- `unicode.IsSpace` -/
def isSpace (c : Char) : Bool :=
  let n := c.toNat
  (0x09 ≤ n && n ≤ 0x0d) || n == 0x20 || n == 0x85 || n == 0xa0 || n == 0x1680
    || (0x2000 ≤ n && n ≤ 0x200a) || n == 0x2028 || n == 0x2029 || n == 0x202f
    || n == 0x205f || n == 0x3000

/-- `strings.TrimSpace`, of the characters of a string. -/
def trimText (s : Text) : Text := ((s.dropWhile isSpace).reverse.dropWhile isSpace).reverse

def trimSpace (s : String) : String := String.ofList (trimText s.toList)

def startsWith (start s : String) : Bool := start.toList.isPrefixOf s.toList

def endsWith (suf s : String) : Bool := suf.toList.isSuffixOf s.toList

/-- `strings.TrimSuffix(s, suf)` of an `s` that ends in `suf`. -/
def trimEnd (suf s : String) : String :=
  String.ofList (s.toList.take (s.toList.length - suf.toList.length))

/-- `strings.TrimRight(s, cut)` for a cutset of one character. -/
def trimRight (cut : Char) (s : String) : String :=
  String.ofList (s.toList.reverse.dropWhile (· == cut)).reverse

/-- `strings.Contains(s, sub)` -/
def contains (sub s : String) : Bool := s.toList.tails.any sub.toList.isPrefixOf

/-- `strings.Cut(s, sep)`: the text before the first `sep` and, where there is one, the
text after it. -/
def cut (sep : Char) (s : List Char) : List Char × Option (List Char) :=
  match s.dropWhile (· != sep) with
  | [] => (s, none)
  | _ :: after => (s.takeWhile (· != sep), some after)

def replaceChar (old new : Char) (s : String) : String :=
  String.ofList (s.toList.map fun c => if c = old then new else c)

end SenhubAgent.Lib
