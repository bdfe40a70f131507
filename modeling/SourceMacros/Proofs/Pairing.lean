-- Paired words: words over letters that may open or close something. In a paired word each letter
-- that opens something is answered by one that closes it, and pairs nest. A reader that keeps what
-- is open on a stack, and finds it empty in the end, has read a paired word.

namespace SourceMacros

/-- What each letter opens and what it closes. -/
structure Pairing (α κ : Type) where
  opens : α → κ → Prop
  closes : α → κ → Prop

namespace Pairing

variable {α κ : Type} {p : Pairing α κ} {a b : α} {k : κ} {w : List α} {stack : List κ}

/-- A letter that opens nothing and closes nothing. -/
def Plain (p : Pairing α κ) (a : α) : Prop := ∀ k, ¬ p.opens a k ∧ ¬ p.closes a k

/-- The second letter closes what the first one opens. -/
def Answers (p : Pairing α κ) (a b : α) : Prop := ∃ k, p.opens a k ∧ p.closes b k

/-- Plain letters and pairs of letters, one pair inside another or behind it. -/
inductive Paired (p : Pairing α κ) : List α → Prop
  | nil : p.Paired []
  | plain {a : α} {w : List α} : p.Plain a → p.Paired w → p.Paired (a :: w)
  | pair {a b : α} {inner w : List α} : p.Answers a b → p.Paired inner → p.Paired w →
      p.Paired (a :: (inner ++ b :: w))

/-- A word that closes what is on a stack, the top first, and all that it opens itself. -/
inductive Closes (p : Pairing α κ) : List κ → List α → Prop
  | done : p.Closes [] []
  | plain {a : α} {stack : List κ} {w : List α} : p.Plain a → p.Closes stack w →
      p.Closes stack (a :: w)
  | opens {a : α} {k : κ} {stack : List κ} {w : List α} : p.opens a k → p.Closes (k :: stack) w →
      p.Closes stack (a :: w)
  | closes {a : α} {k : κ} {stack : List κ} {w : List α} : p.closes a k → p.Closes stack w →
      p.Closes (k :: stack) (a :: w)

/-! ## Words and stacks -/

/-- Paired words with the letters between them that close a stack, the top first. -/
def Unwinds (p : Pairing α κ) : List κ → List α → Prop
  | [], w => p.Paired w
  | k :: stack, w => ∃ inner b rest, w = inner ++ b :: rest ∧ p.Paired inner ∧ p.closes b k ∧
      p.Unwinds stack rest

theorem Unwinds.plain (ha : p.Plain a) (h : p.Unwinds stack w) : p.Unwinds stack (a :: w) := by
  cases stack with
  | nil => exact .plain ha h
  | cons k stack =>
    obtain ⟨inner, b, rest, rfl, hinner, hb, hrest⟩ := h
    exact ⟨a :: inner, b, rest, rfl, .plain ha hinner, hb, hrest⟩

theorem Unwinds.opens (ha : p.opens a k) (h : p.Unwinds (k :: stack) w) :
    p.Unwinds stack (a :: w) := by
  obtain ⟨inner, b, rest, rfl, hinner, hb, hrest⟩ := h
  cases stack with
  | nil => exact .pair ⟨k, ha, hb⟩ hinner hrest
  | cons k' stack =>
    obtain ⟨inner', b', rest', rfl, hinner', hb', hrest'⟩ := hrest
    refine ⟨a :: (inner ++ b :: inner'), b', rest', by simp, ?_, hb', hrest'⟩
    exact .pair ⟨k, ha, hb⟩ hinner hinner'

theorem Closes.unwinds (h : p.Closes stack w) : p.Unwinds stack w := by
  induction h with
  | done => exact .nil
  | plain ha _ ih => exact ih.plain ha
  | opens ha _ ih => exact ih.opens ha
  | @closes a _ _ w ha _ ih => exact ⟨[], a, w, rfl, .nil, ha, ih⟩

/-- A word that leaves nothing open on an empty stack is paired. -/
theorem Closes.paired (h : p.Closes [] w) : p.Paired w := h.unwinds

/-! ## Reading on -/

theorem Closes.of_plain (ha : p.Plain a) (h : p.Closes stack (a :: w)) : p.Closes stack w := by
  cases h with
  | plain _ h => exact h
  | opens hopens _ => exact absurd hopens (ha _).1
  | closes hcloses _ => exact absurd hcloses (ha _).2

/-- A letter that opens something and closes nothing goes on the stack. -/
theorem Closes.of_opens (ha : ∀ k, ¬ p.closes a k) (hk : p.opens a k)
    (hone : ∀ k', p.opens a k' → k' = k) (h : p.Closes stack (a :: w)) :
    p.Closes (k :: stack) w := by
  cases h with
  | plain hplain _ => exact absurd hk (hplain k).1
  | opens hopens h => rw [← hone _ hopens]; exact h
  | closes hcloses _ => exact absurd hcloses (ha _)

/-- A letter that closes something and opens nothing meets what it closes on the stack. -/
theorem Closes.of_closes (ha : ∀ k, ¬ p.opens a k) (hk : p.closes a k)
    (hone : ∀ k', p.closes a k' → k' = k) (h : p.Closes stack (a :: w)) :
    ∃ outer, stack = k :: outer ∧ p.Closes outer w := by
  cases h with
  | plain hplain _ => exact absurd hk (hplain k).2
  | opens hopens _ => exact absurd hopens (ha _)
  | closes hcloses h => rw [hone _ hcloses]; exact ⟨_, rfl, h⟩

end Pairing

end SourceMacros
