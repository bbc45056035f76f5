import Mathlib.Data.List.Range

/-!
# Numbering equal items

The items `0, 1, 2, …` have keys. `rank key i` says which item of its key `i` is, counted from one: what a
loop that counts keys in a map finds when it gets to `i`. A key and a rank fix the item (`rank_inj`), and
every number up to how often the key occurs is the rank of one (`exists_rank`).
-/

namespace SenhubAgent.Lib

variable {κ : Type} [DecidableEq κ] (key : Nat → κ)

/-- How many of the first `n` items have the key `k`. -/
def occurrences (n : Nat) (k : κ) : Nat := (List.range n).countP fun i => key i = k

def rank (i : Nat) : Nat := occurrences key i (key i) + 1

variable {key}

theorem occurrences_succ (n : Nat) (k : κ) :
    occurrences key (n + 1) k = occurrences key n k + if key n = k then 1 else 0 := by
  simp [occurrences, List.range_succ, List.countP_append, List.countP_singleton]

variable {m n i j : Nat}

theorem occurrences_mono (h : m ≤ n) (k : κ) : occurrences key m k ≤ occurrences key n k := by
  induction h with
  | refl => exact Nat.le_refl _
  | step _ ih =>
    rw [occurrences_succ]
    exact Nat.le_add_right_of_le ih

theorem rank_eq (i : Nat) : rank key i = occurrences key (i + 1) (key i) := by
  rw [occurrences_succ, if_pos rfl]
  rfl

theorem rank_le (h : i < n) : rank key i ≤ occurrences key n (key i) := by
  rw [rank_eq]
  exact occurrences_mono h (key i)

theorem rank_lt (h : i < j) (hkey : key i = key j) : rank key i < rank key j := by
  have hle : rank key i ≤ occurrences key j (key i) := rank_le h
  rw [hkey] at hle
  exact Nat.lt_succ_of_le hle

theorem rank_inj (hkey : key i = key j) (hrank : rank key i = rank key j) : i = j := by
  rcases Nat.lt_trichotomy i j with h | h | h
  · exact absurd hrank (Nat.ne_of_lt (rank_lt h hkey))
  · exact h
  · exact absurd hrank.symm (Nat.ne_of_lt (rank_lt h hkey.symm))

theorem exists_rank {k : κ} (hm : 1 ≤ m) (hle : m ≤ occurrences key n k) :
    ∃ i < n, key i = k ∧ rank key i = m := by
  induction n with
  | zero => exact absurd (Nat.le_trans hm hle) (Nat.not_succ_le_zero 0)
  | succ n ih =>
    by_cases hprev : m ≤ occurrences key n k
    · obtain ⟨i, hi, hkey, hrank⟩ := ih hprev
      exact ⟨i, Nat.lt_succ_of_lt hi, hkey, hrank⟩
    · rw [occurrences_succ] at hle
      split at hle
      next hkey =>
        refine ⟨n, Nat.lt_succ_self n, hkey, ?_⟩
        rw [rank, hkey]
        omega
      next => exact absurd hle hprev

end SenhubAgent.Lib
