import SenhubAgent.Config.Params
import SenhubAgent.Lib.Delimited

/-!
# Probe blocks and their identity

A probe entry of the configuration, the names it may have, and its identity: a hash of the
text `fmt` writes for its name and its parameters.

Mirroring notes:
- `%v` writes a mapping as `map[k:v k:v]` in the order of its keys, a list as `[v v]`, a text
  as it stands and an absent value as `<nil>`. A `map[interface{}]interface{}` is written in
  the order its entries are listed.
- The text of a float is a parameter (`formatFloat`), as is the hash.
- `CustomTags` and `LogRedact` are read elsewhere, by the name of the probe, and are left out.
-/

namespace SenhubAgent.Config

structure ProbeConfig where
  name : String
  type : String
  params : Params
  governance : Params
  enabled : Option Bool
  logStrategies : List String
deriving DecidableEq

namespace ProbeConfig

def isEnabled (p : ProbeConfig) : Bool := p.enabled.getD true

end ProbeConfig

def isNameStart (c : Char) : Bool := c.isAlphanum

def isNameRest (c : Char) : Bool := c.isAlphanum || c == '_' || c == '-'

/-- `^[a-zA-Z0-9][a-zA-Z0-9_-]*$` -/
def isValidProbeName (name : String) : Bool :=
  match name.toList with
  | [] => false
  | c :: cs => isNameStart c && cs.all isNameRest

/-! ## The text of a value -/

section

variable (formatFloat : UInt64 → List Char)

def Scalar.render : Scalar → List Char
  | .bool b => (if b then "true" else "false").toList
  | .int n => (toString n).toList
  | .float bits => formatFloat bits

def AnyKey.render : AnyKey → List Char
  | .str s => s.toList
  | .scalar s => s.render formatFloat
  | .null => "<nil>".toList

def keyName (k : AnyKey) : String := String.ofList (k.render formatFloat)

mutual
/-- `fmt.Sprintf("%v", v)` -/
def Value.render : Value → List Char
  | .null => "<nil>".toList
  | .str s => s.toList
  | .scalar s => s.render formatFloat
  | .list items => '[' :: [' '].intercalate (renderItems items) ++ [']']
  | .map es => 'm' :: 'a' :: 'p' :: '[' :: [' '].intercalate (renderEntries es) ++ [']']
  | .anyMap es => 'm' :: 'a' :: 'p' :: '[' :: [' '].intercalate (renderAny es) ++ [']']

def renderItems : List Value → List (List Char)
  | [] => []
  | v :: vs => v.render :: renderItems vs

def renderEntries : Entries → List (List Char)
  | [] => []
  | (k, v) :: es => (k.toList ++ ':' :: v.render) :: renderEntries es

def renderAny : List (AnyKey × Value) → List (List Char)
  | [] => []
  | (k, v) :: es => (k.render formatFloat ++ ':' :: v.render) :: renderAny es
end

/-- `fmt.Sprintf("%v", params)` -/
def Params.render (params : Params) : List Char := (Value.map params.entries).render formatFloat

/-- `fmt.Sprintf("%s-%v", p.Name, p.Params)` -/
def ProbeConfig.idText (p : ProbeConfig) : List Char :=
  p.name.toList ++ '-' :: p.params.render formatFloat

end

/-- The text of a float and the hash. -/
structure Hasher (H : Type) where
  formatFloat : UInt64 → List Char
  sha256 : List Char → H

def ProbeConfig.id {H : Type} (hasher : Hasher H) (p : ProbeConfig) : H :=
  hasher.sha256 (p.idText hasher.formatFloat)

/-! ## A valid name can be read back from the text -/

theorem bracket_not_mem_of_valid {name : String} (h : isValidProbeName name = true) :
    '[' ∉ name.toList := by
  unfold isValidProbeName at h
  split at h
  · cases h
  · next c cs hname =>
    rw [Bool.and_eq_true] at h
    rw [hname, List.mem_cons, not_or]
    constructor
    · intro hc
      rw [← hc] at h
      exact absurd h.1 (by decide)
    · intro hc
      exact absurd (List.all_eq_true.mp h.2 _ hc) (by decide)

variable {formatFloat : UInt64 → List Char}

theorem Params.render_eq (params : Params) : params.render formatFloat =
    'm' :: 'a' :: 'p' :: '[' :: [' '].intercalate (renderEntries formatFloat params.entries) ++
      [']'] := by
  rw [Params.render, Value.render]

/-- Two blocks with valid names have one text only if they have one name and one text of
their parameters. -/
theorem ProbeConfig.idText_eq_iff {p q : ProbeConfig} (hp : isValidProbeName p.name = true)
    (hq : isValidProbeName q.name = true) :
    p.idText formatFloat = q.idText formatFloat ↔
      p.name = q.name ∧ p.params.render formatFloat = q.params.render formatFloat := by
  constructor
  · intro h
    rw [ProbeConfig.idText, ProbeConfig.idText, Params.render_eq, Params.render_eq] at h
    -- no bracket stands in a valid name, so both texts are cut at the one after "map"
    have hcut : (p.name.toList ++ ['-', 'm', 'a', 'p']) ++
          '[' :: ([' '].intercalate (renderEntries formatFloat p.params.entries) ++ [']']) =
        (q.name.toList ++ ['-', 'm', 'a', 'p']) ++
          '[' :: ([' '].intercalate (renderEntries formatFloat q.params.entries) ++ [']']) := by
      simpa using h
    obtain ⟨hname, hparams⟩ := Lib.field_inj (by simpa using bracket_not_mem_of_valid hp)
      (by simpa using bracket_not_mem_of_valid hq) hcut
    refine ⟨String.ext (List.append_cancel_right hname), ?_⟩
    rw [Params.render_eq, Params.render_eq]
    exact congrArg (fun text => 'm' :: 'a' :: 'p' :: '[' :: text) hparams
  · rintro ⟨hname, hparams⟩
    rw [ProbeConfig.idText, ProbeConfig.idText, hname, hparams]

end SenhubAgent.Config
