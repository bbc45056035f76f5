import SenhubAgent.Lib.Delimited
import SenhubAgent.Lib.Text

/-!
# Zabbix keys

The key of an item: its name, cleaned and prefixed, and its parameters in brackets. The zabbix output
and the template generator each have their own copy of these functions; the copies differ in
`buildKey`, which quotes a parameter on the agent's side only. A text is the list of its characters.
-/

namespace SenhubAgent.Zabbix

open SenhubAgent.Lib

def keyChar (c : Char) : Bool :=
  ('0' ≤ c && c ≤ '9') || ('a' ≤ c && c ≤ 'z') || ('A' ≤ c && c ≤ 'Z') || c = '_' || c = '-' ||
    c = '.'

def sanitizeKeyName (s : Text) : Text := s.map fun c => if keyChar c then c else '_'

def needsQuotes (p : Text) : Bool :=
  p.any (fun c => c = ',' || c = ']' || c = '"') || p.head? = some ' '

def quoteParam (p : Text) : Text :=
  if needsQuotes p then '"' :: p.flatMap (fun c => if c = '"' then ['\\', '"'] else [c]) ++ ['"']
  else p

/-- The key up to its parameters; a name that has the prefix already is not prefixed again. -/
def keyName (pre name : Text) : Text :=
  let key := sanitizeKeyName name
  let p := sanitizeKeyName pre
  if p ≠ [] ∧ (p ++ ['.']).isPrefixOf key = false then p ++ '.' :: key else key

/-- Both `buildKey`s: `param` is what the package does to a parameter. -/
def buildKeyWith (param : Text → Text) (pre name : Text) (params : List Text) : Text :=
  if params = [] then keyName pre name
  else keyName pre name ++ '[' :: [','].intercalate (params.map param) ++ [']']

def buildKey : Text → Text → List Text → Text := buildKeyWith quoteParam

/-! ## Names and parameters -/

theorem keyChar_sanitize {s : Text} {c : Char} (h : c ∈ sanitizeKeyName s) : keyChar c = true := by
  obtain ⟨c', -, rfl⟩ := List.mem_map.mp h
  split
  next hc => exact hc
  next => decide

theorem keyChar_keyName (pre name : Text) {c : Char} (h : c ∈ keyName pre name) :
    keyChar c = true := by
  unfold keyName at h
  dsimp only at h
  split at h
  next =>
    rcases List.mem_append.mp h with h | h
    · exact keyChar_sanitize h
    · rcases List.mem_cons.mp h with rfl | h
      · decide
      · exact keyChar_sanitize h
  next => exact keyChar_sanitize h

theorem bracket_not_mem_keyName (pre name : Text) : '[' ∉ keyName pre name := by
  intro h
  have hkey := keyChar_keyName pre name h
  revert hkey
  decide

theorem buildKey_cons (param : Text → Text) (pre name p : Text) (params : List Text) :
    buildKeyWith param pre name (p :: params) =
      keyName pre name ++ '[' :: ([','].intercalate ((p :: params).map param) ++ [']']) := by
  rw [buildKeyWith, if_neg (List.cons_ne_nil _ _), List.append_assoc]
  rfl

end SenhubAgent.Zabbix
