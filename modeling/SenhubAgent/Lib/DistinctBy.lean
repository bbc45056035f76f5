import Mathlib.Data.List.Nodup

/-!
# One item for every key

`distinctBy` goes through a list and keeps the first item of every key. `Picks key xs ys` says what
matters about the result: `ys` is taken from `xs` and holds every key of `xs` once. It survives
appending (`Picks.append`), so lists may be merged one after the other.

Where the key is computed from an identity, and may confuse two of them, no identity is lost exactly
when the key confuses none of those at hand (`Picks.covers_iff`).
-/

namespace SenhubAgent.Lib

variable {α κ ι : Type} [DecidableEq κ] {key : α → κ}

/-- The first item of every key that is not in `seen`. -/
def distinctBy (key : α → κ) (seen : List κ) : List α → List α
  | [] => []
  | x :: xs =>
    if key x ∈ seen then distinctBy key seen xs else x :: distinctBy key (key x :: seen) xs

variable {xs : List α} {seen : List κ}

theorem mem_of_mem_distinctBy {x : α} (h : x ∈ distinctBy key seen xs) : x ∈ xs ∧ key x ∉ seen := by
  fun_induction distinctBy key seen xs with
  | case1 => cases h
  | case2 seen y ys hy ih => exact ⟨List.mem_cons_of_mem _ (ih h).1, (ih h).2⟩
  | case3 seen y ys hy ih =>
    rcases List.mem_cons.mp h with rfl | h
    · exact ⟨List.mem_cons_self, hy⟩
    · exact ⟨List.mem_cons_of_mem _ (ih h).1, fun hseen => (ih h).2 (List.mem_cons_of_mem _ hseen)⟩

theorem nodup_distinctBy (seen : List κ) (xs : List α) :
    ((distinctBy key seen xs).map key).Nodup := by
  fun_induction distinctBy key seen xs with
  | case1 => exact List.nodup_nil
  | case2 seen y ys hy ih => exact ih
  | case3 seen y ys hy ih =>
    refine List.nodup_cons.mpr ⟨fun hmem => ?_, ih⟩
    obtain ⟨x, hx, hkey⟩ := List.mem_map.mp hmem
    exact (mem_of_mem_distinctBy hx).2 (hkey ▸ List.mem_cons_self)

theorem key_mem_distinctBy {x : α} (h : x ∈ xs) :
    key x ∈ seen ∨ key x ∈ (distinctBy key seen xs).map key := by
  fun_induction distinctBy key seen xs with
  | case1 => cases h
  | case2 seen y ys hy ih =>
    rcases List.mem_cons.mp h with rfl | h
    · exact .inl hy
    · exact ih h
  | case3 seen y ys hy ih =>
    rcases List.mem_cons.mp h with rfl | h
    · exact .inr List.mem_cons_self
    · rcases ih h with hseen | hlater
      · rcases List.mem_cons.mp hseen with heq | hseen
        · exact .inr (List.mem_cons.mpr (.inl heq))
        · exact .inl hseen
      · exact .inr (List.mem_cons_of_mem _ hlater)

/-- `ys` is taken from `xs` and holds every key of `xs` once. -/
structure Picks (key : α → κ) (xs ys : List α) : Prop where
  taken : ∀ y ∈ ys, y ∈ xs
  once : (ys.map key).Nodup
  every : ∀ x ∈ xs, key x ∈ ys.map key

omit [DecidableEq κ] in
theorem Picks.nil : Picks key [] [] := ⟨nofun, List.nodup_nil, nofun⟩

theorem Picks.append {ys : List α} (h : Picks key xs ys) (zs : List α) :
    Picks key (xs ++ zs) (distinctBy key [] (ys ++ zs)) where
  taken y hy := by
    rcases List.mem_append.mp (mem_of_mem_distinctBy hy).1 with hy | hy
    · exact List.mem_append_left _ (h.taken y hy)
    · exact List.mem_append_right _ hy
  once := nodup_distinctBy [] _
  every x hx := by
    have hin : ∃ y ∈ ys ++ zs, key y = key x := by
      rcases List.mem_append.mp hx with hx | hx
      · obtain ⟨y, hy, hkey⟩ := List.mem_map.mp (h.every x hx)
        exact ⟨y, List.mem_append_left _ hy, hkey⟩
      · exact ⟨x, List.mem_append_right _ hx, rfl⟩
    obtain ⟨y, hy, hkey⟩ := hin
    rw [← hkey]
    exact (key_mem_distinctBy hy).resolve_left nofun

section

variable {ident : α → ι} (hident : ∀ x x', ident x = ident x' → key x = key x')

include hident

variable {ys : List α}

omit [DecidableEq κ] in
theorem Picks.pairwise_ne (h : Picks key xs ys) : ys.Pairwise fun y y' => ident y ≠ ident y' :=
  (List.pairwise_map.mp h.once).imp fun hne heq => hne (hident _ _ heq)

omit [DecidableEq κ] in
/-- Where `xs` has the identities of `P`, each of them is picked exactly when the key tells them
apart. -/
theorem Picks.covers_iff (h : Picks key xs ys) {P : α → Prop}
    (hfrom : ∀ x ∈ xs, ∃ a, P a ∧ ident x = ident a)
    (hto : ∀ a, P a → ∃ x ∈ xs, ident x = ident a) :
    (∀ a, P a → ∃ y ∈ ys, ident y = ident a) ↔
      ∀ a a', P a → P a' → key a = key a' → ident a = ident a' := by
  constructor
  · intro hcovers a a' ha ha' hkey
    obtain ⟨y, hy, hid⟩ := hcovers a ha
    obtain ⟨y', hy', hid'⟩ := hcovers a' ha'
    -- both representatives have the key, so they are one
    have hkeys : key y = key y' := (hident _ _ hid).trans (hkey.trans (hident _ _ hid').symm)
    have heq : y = y' := List.inj_on_of_nodup_map h.once hy hy' hkeys
    rw [← hid, heq, hid']
  · intro hinj a ha
    obtain ⟨x, hx, hid⟩ := hto a ha
    obtain ⟨y, hy, hkey⟩ := List.mem_map.mp (h.every x hx)
    obtain ⟨a', ha', hid'⟩ := hfrom y (h.taken y hy)
    have hkeys : key a' = key a := (hident _ _ hid').symm.trans (hkey.trans (hident _ _ hid))
    exact ⟨y, hy, hid'.trans (hinj a' a ha' ha hkeys)⟩

end

end SenhubAgent.Lib
