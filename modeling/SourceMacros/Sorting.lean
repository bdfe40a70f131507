-- Sorting by insertion. A list that is in order already is only walked through once.
namespace SourceMacros

namespace Sorting

variable {α : Type} (le : α → α → Bool)

/-- Puts an element before the first one that does not come before it. -/
def insert (x : α) : List α → List α
  | [] => [x]
  | y :: ys => if le x y then x :: y :: ys else y :: insert x ys

/-- The elements in order. -/
def sort (xs : List α) : List α := xs.foldr (insert le) []

/-! ## Laws -/

theorem perm_insert (x : α) (ys : List α) : (insert le x ys).Perm (x :: ys) := by
  induction ys with
  | nil => exact List.Perm.refl _
  | cons y ys ih =>
    unfold insert
    split
    · exact List.Perm.refl _
    · exact (ih.cons y).trans (List.Perm.swap x y ys)

/-- Sorting loses nothing and adds nothing. -/
theorem perm_sort (xs : List α) : (sort le xs).Perm xs := by
  induction xs with
  | nil => exact List.Perm.refl _
  | cons x xs ih => exact (perm_insert le x (sort le xs)).trans (ih.cons x)

theorem mem_sort {xs : List α} {x : α} : x ∈ sort le xs ↔ x ∈ xs := (perm_sort le xs).mem_iff

theorem pairwise_insert (trans : ∀ a b c, le a b → le b c → le a c)
    (total : ∀ a b, le a b ∨ le b a) (x : α) {ys : List α}
    (h : ys.Pairwise fun a b => le a b) : (insert le x ys).Pairwise fun a b => le a b := by
  induction ys with
  | nil => simp [insert]
  | cons y ys ih =>
    obtain ⟨hy, hys⟩ := List.pairwise_cons.mp h
    unfold insert
    split
    · next hxy =>
      refine List.pairwise_cons.mpr ⟨?_, h⟩
      intro z hz
      rcases List.mem_cons.mp hz with rfl | hz
      · exact hxy
      · exact trans _ _ _ hxy (hy z hz)
    · next hxy =>
      refine List.pairwise_cons.mpr ⟨?_, ih hys⟩
      intro z hz
      rcases List.mem_cons.mp ((perm_insert le x ys).mem_iff.mp hz) with rfl | hz
      · exact (total z y).resolve_left hxy
      · exact hy z hz

/-- What is sorted is in order. -/
theorem pairwise_sort (trans : ∀ a b c, le a b → le b c → le a c)
    (total : ∀ a b, le a b ∨ le b a) (xs : List α) :
    (sort le xs).Pairwise fun a b => le a b := by
  induction xs with
  | nil => exact List.Pairwise.nil
  | cons x xs ih => exact pairwise_insert le trans total x ih

end Sorting

end SourceMacros
