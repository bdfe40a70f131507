-- The lexemes of a text: one after the other they are the text, what stands between tokens is
-- blank or joins two lines, and a comment runs up to a line break.
import Mathlib.Data.List.TakeWhile
import SourceMacros.Lexeme

namespace SourceMacros

namespace Lexeme

/-! ## One lexeme -/

/-- The ways in which a lexeme may start with a character, with its kind and how many more
characters it has. -/
inductive Starts (c : Char) (cs : List Char) : LexemeKind → Nat → Prop
  | blank : isBlank c = true → Starts c cs .blank (cs.takeWhile isBlank).length
  | lineBreak : c = '\n' → Starts c cs .lineBreak 0
  | returned : c = '\r' → cs.take 1 = ['\n'] → Starts c cs .lineBreak 1
  | joined : c = '\\' → cs.take 1 = ['\n'] → Starts c cs .joinedBreak 1
  | joinedReturn : c = '\\' → cs.take 2 = ['\r', '\n'] → Starts c cs .joinedBreak 2
  | comment : c = '#' → Starts c cs .comment (cs.takeWhile isCommentChar).length
  | string {marks n : Nat} {quote : Char} : opening? (c :: cs) = some (marks, quote) →
      stringLength marks quote (c :: cs) = .ok n → Starts c cs .string (n - 1)
  | name : NameChar.isStart c = true → Starts c cs .name (cs.takeWhile NameChar.isContinue).length
  | number {n : Nat} : numberLength? (c :: cs) = some n → Starts c cs .number (n - 1)
  | operator {n : Nat} : operatorLength? (c :: cs) = some n → Starts c cs .operator (n - 1)

theorem head_starts {c : Char} {cs : List Char} {kind : LexemeKind} {n : Nat}
    (h : head c cs = .ok (kind, n)) : Starts c cs kind n := by
  unfold head at h
  split at h
  · next hblank => cases h; exact .blank hblank
  split at h
  · next hbreak => cases h; exact .lineBreak hbreak
  split at h
  · next hbreak => cases h; exact .returned hbreak.1 hbreak.2
  split at h
  · next hjoin => cases h; exact .joined hjoin.1 hjoin.2
  split at h
  · next hjoin => cases h; exact .joinedReturn hjoin.1 hjoin.2
  split at h
  · next hcomment => cases h; exact .comment hcomment
  split at h
  · next marks quote hopening =>
    cases hlength : stringLength marks quote (c :: cs) with
    | error fault => rw [hlength] at h; cases h
    | ok m =>
      rw [hlength] at h
      cases h
      exact .string hopening hlength
  split at h
  · next hname => cases h; exact .name hname
  split at h
  · next m hnumber => cases h; exact .number hnumber
  split at h
  · next m hoperator => cases h; exact .operator hoperator
  · cases h

/-- What cannot stand in a comment starts a line break or nothing at all. -/
theorem Starts.lineBreak_of_not_comment {c : Char} {cs : List Char} {kind : LexemeKind} {n : Nat}
    (h : Starts c cs kind n) (hc : isCommentChar c = false) : kind = .lineBreak := by
  have hends : c = '\r' ∨ c = '\n' := by
    rw [isCommentChar, Bool.and_eq_false_iff, bne_eq_false_iff_eq, bne_eq_false_iff_eq] at hc
    exact hc
  have hname : NameChar.isStart '\r' = false ∧ NameChar.isStart '\n' = false := by decide
  cases h with
  | lineBreak | returned => rfl
  | blank h => rcases hends with rfl | rfl <;> simp [isBlank] at h
  | joined h | joinedReturn h | comment h => rcases hends with rfl | rfl <;> cases h
  | string h _ => rcases hends with rfl | rfl <;> simp [opening?, isQuote, isStringMark] at h
  | name h => rcases hends with rfl | rfl <;> simp [hname] at h
  | number h => rcases hends with rfl | rfl <;> simp [numberLength?] at h
  | operator h =>
    rcases hends with rfl | rfl <;>
      simp [operatorLength?, longOperators, shortOperators, isOperatorChar] at h

/-! ## All lexemes -/

/-- A text and its lexemes. -/
inductive Scans : List Char → List Lexeme → Prop
  | nil : Scans [] []
  | cons {c : Char} {cs : List Char} {kind : LexemeKind} {n : Nat} {lexemes : List Lexeme} :
      Starts c cs kind n → Scans (cs.drop n) lexemes →
      Scans (c :: cs) (⟨kind, c :: cs.take n⟩ :: lexemes)

theorem scans_of_scanFrom (n : Nat) (cs : List Char) (h : (scanFrom #[] n cs).2 = none) :
    Scans (cs.drop n) (scanFrom #[] n cs).1.toList := by
  induction cs generalizing n with
  | nil => simpa [scanFrom] using Scans.nil
  | cons c cs ih =>
    cases n with
    | succ n => exact ih n h
    | zero =>
      cases hhead : head c cs with
      | error fault => simp [scanFrom, hhead] at h
      | ok found =>
        obtain ⟨kind, n⟩ := found
        simp only [scanFrom, hhead] at h ⊢
        rw [scanFrom_eq_append] at h ⊢
        simpa using Scans.cons (head_starts hhead) (ih n h)

/-- A text in which the scanner meets no fault has the lexemes that it found. -/
theorem scans_of_scan {cs : List Char} (h : (scan cs).2 = none) :
    Scans cs (scan cs).1.toList := scans_of_scanFrom 0 cs h

variable {cs : List Char} {lexemes : List Lexeme}

/-- The lexemes of a text, one after the other, are the text. -/
theorem Scans.flatten (h : Scans cs lexemes) : lexemes.flatMap Lexeme.text = cs := by
  induction h with
  | nil => rfl
  | @cons c cs _ n _ _ _ ih => simp [ih]

end Lexeme

/-! ## Gaps and comments -/

/-- What may stand between tokens: blanks, and backslashes before line breaks. -/
inductive Gap : List Char → Prop
  | nil : Gap []
  | blank {c : Char} {cs : List Char} : c = ' ' ∨ c = '\t' ∨ c = '\x0c' → Gap cs → Gap (c :: cs)
  | join {cs : List Char} : Gap cs → Gap ('\\' :: '\n' :: cs)
  | joinReturn {cs : List Char} : Gap cs → Gap ('\\' :: '\r' :: '\n' :: cs)

theorem Gap.append {g cs : List Char} (hg : Gap g) (h : Gap cs) : Gap (g ++ cs) := by
  induction hg with
  | nil => exact h
  | blank hc _ ih => exact .blank hc ih
  | join _ ih => exact .join ih
  | joinReturn _ ih => exact .joinReturn ih

theorem gap_of_blanks {cs : List Char} (h : ∀ c ∈ cs, Lexeme.isBlank c = true) : Gap cs := by
  induction cs with
  | nil => exact .nil
  | cons c cs ih =>
    have hc := h c (by simp)
    simp only [Lexeme.isBlank, Bool.or_eq_true, beq_iff_eq, or_assoc] at hc
    exact .blank hc (ih fun d hd => h d (by simp [hd]))

namespace Lexeme

variable {cs : List Char} {lexemes : List Lexeme}

theorem Starts.blanks {c : Char} {n : Nat} (h : Starts c cs .blank n) :
    ∀ d ∈ c :: cs.take n, isBlank d = true := by
  cases h with
  | blank hc =>
    rw [← List.prefix_iff_eq_take.mp (List.takeWhile_prefix isBlank)]
    intro d hd
    rcases List.mem_cons.mp hd with rfl | hd
    · exact hc
    · exact List.mem_takeWhile_imp hd

theorem Starts.joins {c : Char} {n : Nat} (h : Starts c cs .joinedBreak n) :
    Gap (c :: cs.take n) := by
  cases h with
  | joined hc hcs => rw [hc, hcs]; exact .join .nil
  | joinedReturn hc hcs => rw [hc, hcs]; exact .joinReturn .nil

/-- The lexemes that become no token are blanks and joins of two lines, and no lexeme but a line
break follows a comment. -/
structure Parted (lexemes : List Lexeme) : Prop where
  blanks : ∀ l ∈ lexemes, l.kind = .blank → ∀ c ∈ l.text, isBlank c = true
  joins : ∀ l ∈ lexemes, l.kind = .joinedBreak → Gap l.text
  comments : ∀ before a b after, lexemes = before ++ a :: b :: after → a.kind = .comment →
    b.kind = .lineBreak

theorem Parted.tail {l : Lexeme} (h : Parted (l :: lexemes)) : Parted lexemes := by
  refine ⟨fun m hm => h.blanks m (List.mem_cons_of_mem _ hm),
    fun m hm => h.joins m (List.mem_cons_of_mem _ hm), ?_⟩
  rintro before a b after rfl hkind
  exact h.comments (l :: before) a b after rfl hkind

/-- A first lexeme that becomes no token is a gap. -/
theorem Parted.gap {l : Lexeme} (h : Parted (l :: lexemes))
    (hkind : l.kind = .blank ∨ l.kind = .joinedBreak) : Gap l.text := by
  rcases hkind with hkind | hkind
  · exact gap_of_blanks (h.blanks l (by simp) hkind)
  · exact h.joins l (by simp) hkind

/-- A text, the lexemes at its front, and what is left behind them. -/
inductive Scanned : List Char → List Lexeme → List Char → Prop
  | nil (cs : List Char) : Scanned cs [] cs
  | cons {c : Char} {cs left : List Char} {kind : LexemeKind} {n : Nat} {lexemes : List Lexeme} :
      Starts c cs kind n → Scanned (cs.drop n) lexemes left →
      Scanned (c :: cs) (⟨kind, c :: cs.take n⟩ :: lexemes) left

theorem Scans.scanned (h : Scans cs lexemes) : Scanned cs lexemes [] := by
  induction h with
  | nil => exact .nil []
  | cons hstarts _ ih => exact .cons hstarts ih

variable {left : List Char}

/-- A lexeme behind a comment is a line break. -/
theorem Scanned.after_comment {l : Lexeme}
    (h : Scanned (cs.drop (cs.takeWhile isCommentChar).length) (l :: lexemes) left) :
    l.kind = .lineBreak := by
  induction cs with
  | nil => cases h
  | cons c cs ih =>
    cases hc : isCommentChar c with
    | true => exact ih (by simpa [List.takeWhile_cons, hc] using h)
    | false =>
      rw [List.takeWhile_cons_of_neg (by simp [hc])] at h
      cases h with
      | cons hstarts _ => exact hstarts.lineBreak_of_not_comment hc

theorem Scanned.parted (h : Scanned cs lexemes left) : Parted lexemes := by
  induction h with
  | nil => exact ⟨by simp, by simp, by simp⟩
  | @cons c cs left kind n lexemes hstarts hscanned ih =>
    refine ⟨?_, ?_, ?_⟩
    · intro l hl hkind
      rcases List.mem_cons.mp hl with rfl | hl
      · subst hkind
        exact hstarts.blanks
      · exact ih.blanks l hl hkind
    · intro l hl hkind
      rcases List.mem_cons.mp hl with rfl | hl
      · subst hkind
        exact hstarts.joins
      · exact ih.joins l hl hkind
    · intro before a b after heq hkind
      cases before with
      | cons l before =>
        cases heq
        exact ih.comments before a b after rfl hkind
      | nil =>
        cases heq
        cases hstarts with
        | comment => exact hscanned.after_comment
        | _ => cases hkind

theorem Scans.parted (h : Scans cs lexemes) : Parted lexemes := h.scanned.parted

end Lexeme

end SourceMacros
