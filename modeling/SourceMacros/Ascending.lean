-- Ascending rows of numbers, and how many of them are at most a given number. The count is found
-- by halving, so a long row is no burden. Its laws: what is counted is at most the number, and
-- what is not counted is larger.
namespace SourceMacros

namespace Ascending

/-- The count, known to lie between two others that are at most `steps` apart. -/
def countWithin (row : Array Nat) (n : Nat) : Nat → Nat → Nat → Nat
  | 0, low, _ => low
  | steps + 1, low, high =>
    if high ≤ low then low
    else
      let middle := (low + high) / 2
      if row[middle]?.getD 0 ≤ n then countWithin row n steps (middle + 1) high
      else countWithin row n steps low middle

/-- How many numbers of an ascending row are at most `n`. -/
def count (row : Array Nat) (n : Nat) : Nat := countWithin row n row.size 0 row.size

/-! ## Laws -/

/-- No number of the row is larger than a later one. -/
def IsAscending (row : Array Nat) : Prop :=
  ∀ i j (_ : i ≤ j) (_ : j < row.size), row[i] ≤ row[j]

/-- The numbers before `low` are at most `n`, and those from `high` on are larger. -/
structure Brackets (row : Array Nat) (n low high : Nat) : Prop where
  le : low ≤ high
  le_size : high ≤ row.size
  before : ∀ i (h : i < row.size), i < low → row[i] ≤ n
  after : ∀ i (h : i < row.size), high ≤ i → n < row[i]

theorem countWithin_brackets {row : Array Nat} (asc : IsAscending row) {n : Nat} (steps : Nat)
    {low high : Nat} (near : high - low ≤ steps) (b : Brackets row n low high) :
    Brackets row n (countWithin row n steps low high) (countWithin row n steps low high) := by
  induction steps generalizing low high with
  | zero =>
    have : high = low := by have := b.le; omega
    subst this
    exact b
  | succ steps ih =>
    unfold countWithin
    split
    · next stop =>
      have : high = low := by have := b.le; omega
      subst this
      exact b
    · next go =>
      have inside : (low + high) / 2 < row.size := by have := b.le_size; omega
      simp only [Array.getElem?_eq_getElem inside, Option.getD_some]
      split
      · next small =>
        refine ih (by omega) ⟨by omega, b.le_size, ?_, b.after⟩
        intro i hi hlt
        exact Nat.le_trans (asc i _ (by omega) inside) small
      · next large =>
        refine ih (by omega) ⟨by omega, by omega, b.before, ?_⟩
        intro i hi hle
        exact Nat.lt_of_lt_of_le (Nat.lt_of_not_le large) (asc _ i hle hi)

theorem count_brackets {row : Array Nat} (asc : IsAscending row) (n : Nat) :
    Brackets row n (count row n) (count row n) :=
  countWithin_brackets asc row.size (by omega)
    ⟨Nat.zero_le _, Nat.le_refl _, by omega, by omega⟩

theorem count_le_size {row : Array Nat} (asc : IsAscending row) (n : Nat) :
    count row n ≤ row.size := (count_brackets asc n).le_size

/-- What is counted is at most the number, and nothing else is. -/
theorem lt_count_iff {row : Array Nat} (asc : IsAscending row) (n : Nat) {i : Nat}
    (h : i < row.size) : i < count row n ↔ row[i] ≤ n := by
  have b := count_brackets asc n
  constructor
  · exact b.before i h
  · intro small
    apply Nat.lt_of_not_le
    intro later
    exact absurd small (Nat.not_le_of_lt (b.after i h later))

end Ascending

end SourceMacros
