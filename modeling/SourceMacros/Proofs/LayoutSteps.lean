-- The steps of the layout pass: what one lexeme may add and how it changes what the pass
-- remembers. Each way to go on is named once, so that a law of whole runs is a law of each of them.
import SourceMacros.Layout

namespace SourceMacros

/-- The kind of token that a lexeme becomes, if it means something. -/
def LexemeKind.significant? : LexemeKind → Option TokenKind
  | name => some .name
  | number => some .number
  | string => some .string
  | operator => some .operator
  | _ => none

namespace Layout

variable {s s' : Layout} {marks : List Mark}

/-! ## Blocks -/

/-- What a logical line whose first token starts at an offset does to the open blocks. -/
inductive Indents (s : Layout) (first : Nat) : List Mark → List (List Char) → Prop
  | stays : s.lineIndent = s.current → Indents s first [] s.blocks
  | opens : s.current.length < s.lineIndent.length → s.current.isPrefixOf s.lineIndent = true →
      Indents s first
        [⟨.indent, String.ofList (s.lineIndent.drop s.current.length),
          ⟨first - s.lineIndent.length + s.current.length, first⟩⟩]
        (s.lineIndent :: s.blocks)
  | closes : (closeBlocks s.lineIndent.length first s.blocks).2.headD [] = s.lineIndent →
      Indents s first (closeBlocks s.lineIndent.length first s.blocks).1
        (closeBlocks s.lineIndent.length first s.blocks).2

theorem indentation_eq_ok {first : Nat} (h : s.indentation first = .ok (marks, s')) :
    ∃ blocks, s.Indents first marks blocks ∧ s' = { s with blocks, lineIndent := [] } := by
  unfold indentation at h
  dsimp only at h
  split at h
  · next hsame =>
    cases h
    exact ⟨s.blocks, .stays hsame, rfl⟩
  · split at h
    · next hdeep =>
      cases h
      exact ⟨_, .opens hdeep.1 hdeep.2, rfl⟩
    · split at h
      · next hmeets =>
        cases h
        exact ⟨_, .closes hmeets, rfl⟩
      · cases h

/-! ## Brackets -/

/-- An opening bracket. -/
def IsOpener (c : Char) : Prop := c = '(' ∨ c = '[' ∨ c = '{'

/-- What an operator does to the open brackets. -/
inductive Tracks (text : List Char) (span : Span) :
    List (Char × Span) → List (Char × Span) → Prop
  | opens {c : Char} (outer : List (Char × Span)) : text = [c] → IsOpener c →
      Tracks text span outer ((c, span) :: outer)
  | closes {c wanted : Char} {place : Span} (outer : List (Char × Span)) : text = [c] →
      opener? c = some wanted → Tracks text span ((wanted, place) :: outer) outer
  | passes (outer : List (Char × Span)) :
      (∀ c, text = [c] → ¬ IsOpener c ∧ opener? c = none) → Tracks text span outer outer

theorem bracket_eq_ok {text : List Char} {span : Span} (h : s.bracket text span = .ok s') :
    ∃ brackets, Tracks text span s.brackets brackets ∧ s' = { s with brackets } := by
  unfold bracket at h
  split at h
  · next c =>
    split at h
    · next hopen =>
      cases h
      exact ⟨_, .opens _ rfl hopen, rfl⟩
    · next hopen =>
      split at h
      · next hnone =>
        cases h
        refine ⟨_, .passes _ ?_, rfl⟩
        intro d hd
        cases hd
        exact ⟨hopen, hnone⟩
      · next wanted hwanted =>
        split at h
        · next outer hbrackets =>
          split at h
          · next hfound =>
            cases h
            subst hfound
            rw [hbrackets]
            exact ⟨_, .closes _ rfl hwanted, rfl⟩
          · cases h
        · cases h
  · next hlong =>
    cases h
    exact ⟨_, .passes _ fun c hc => absurd hc (hlong c), rfl⟩

/-- What a token that means something does to the open brackets. -/
def Counts (kind : TokenKind) (text : List Char) (span : Span)
    (before after : List (Char × Span)) : Prop :=
  if kind = .operator then Tracks text span before after else after = before

/-! ## Lexemes -/

/-- What a lexeme does: the marks it adds and the state after it. -/
inductive Moves (s : Layout) (lexeme : Lexeme) (span : Span) : List Mark → Layout → Prop
  /-- Blanks in the middle of a line and joined lines. -/
  | skips : lexeme.kind = .blank ∧ ¬ (s.atLineStart = true ∧ s.brackets = []) ∨
      lexeme.kind = .joinedBreak → Moves s lexeme span [] s
  /-- Blanks at the start of a logical line. -/
  | indents : lexeme.kind = .blank → s.atLineStart = true → s.brackets = [] →
      Moves s lexeme span [] { s with lineIndent := lexeme.text }
  | comments : lexeme.kind = .comment →
      Moves s lexeme span [⟨.comment, String.ofList lexeme.text, span⟩] s
  /-- A line break inside brackets. -/
  | wraps : lexeme.kind = .lineBreak → s.brackets ≠ [] →
      Moves s lexeme span [⟨.blankBreak, String.ofList lexeme.text, span⟩] s
  /-- The line break of a line that says nothing. -/
  | blanks : lexeme.kind = .lineBreak → s.brackets = [] → s.atLineStart = true →
      Moves s lexeme span [⟨.blankBreak, String.ofList lexeme.text, span⟩]
        { s with lineIndent := [] }
  /-- The end of a logical line. -/
  | ends : lexeme.kind = .lineBreak → s.brackets = [] → s.atLineStart = false →
      Moves s lexeme span [⟨.newline, String.ofList lexeme.text, span⟩]
        { s with atLineStart := true, lineIndent := [] }
  /-- The first token of a logical line. -/
  | starts {kind : TokenKind} {before : List Mark} {blocks : List (List Char)}
      {brackets : List (Char × Span)} : lexeme.kind.significant? = some kind →
      s.atLineStart = true → s.brackets = [] → s.Indents span.start before blocks →
      Counts kind lexeme.text span [] brackets →
      Moves s lexeme span (before ++ [⟨kind, String.ofList lexeme.text, span⟩])
        ⟨blocks, brackets, false, []⟩
  /-- A token in the middle of a logical line. -/
  | continues {kind : TokenKind} {brackets : List (Char × Span)} :
      lexeme.kind.significant? = some kind → ¬ (s.atLineStart = true ∧ s.brackets = []) →
      Counts kind lexeme.text span s.brackets brackets →
      Moves s lexeme span [⟨kind, String.ofList lexeme.text, span⟩]
        { s with brackets, atLineStart := false }

theorem significant_moves {lexeme : Lexeme} {span : Span} {kind : TokenKind}
    (hkind : lexeme.kind.significant? = some kind)
    (h : s.significant kind lexeme.text span = .ok (marks, s')) :
    s.Moves lexeme span marks s' := by
  -- Whatever came before, the rest of the lexeme only keeps account of brackets.
  have rest : ∀ (before : List Mark) (s₁ : Layout), (do
        let s := { s₁ with atLineStart := false }
        let s ← if kind = .operator then s.bracket lexeme.text span else .ok s
        return (before ++ [⟨kind, String.ofList lexeme.text, span⟩], s)) =
        Except.ok (marks, s') →
      marks = before ++ [⟨kind, String.ofList lexeme.text, span⟩] ∧
        ∃ brackets, Counts kind lexeme.text span s₁.brackets brackets ∧
          s' = { s₁ with brackets, atLineStart := false } := by
    intro before s₁ h
    dsimp only at h
    by_cases hop : kind = .operator
    · rw [if_pos hop] at h
      cases hb : bracket { s₁ with atLineStart := false } lexeme.text span with
      | error fault => rw [hb] at h; cases h
      | ok s₂ =>
        obtain ⟨brackets, htracks, hs₂⟩ := bracket_eq_ok hb
        rw [hb, hs₂] at h
        cases h
        exact ⟨rfl, brackets, by simpa [Counts, hop] using htracks, rfl⟩
    · rw [if_neg hop] at h
      cases h
      exact ⟨rfl, s₁.brackets, by simp [Counts, hop], rfl⟩
  unfold significant at h
  dsimp only at h
  by_cases hstart : s.atLineStart ∧ s.brackets = []
  · rw [if_pos hstart] at h
    cases hi : s.indentation span.start with
    | error fault => rw [hi] at h; cases h
    | ok found =>
      rw [hi] at h
      obtain ⟨rfl, brackets, hcounts, rfl⟩ := rest found.1 found.2 h
      obtain ⟨blocks, hindents, hs₁⟩ := indentation_eq_ok hi
      rw [hs₁] at hcounts ⊢
      dsimp only at hcounts ⊢
      rw [hstart.2] at hcounts
      exact .starts hkind hstart.1 hstart.2 hindents hcounts
  · rw [if_neg hstart] at h
    obtain ⟨rfl, brackets, hcounts, rfl⟩ := rest [] s h
    exact .continues hkind hstart hcounts

/-- A step that succeeds is one of the named ones. -/
theorem step_moves {lexeme : Lexeme} {span : Span} (h : s.step lexeme span = .ok (marks, s')) :
    s.Moves lexeme span marks s' := by
  unfold step at h
  split at h
  · next hkind =>
    split at h
    · next hstart => cases h; exact .indents hkind hstart.1 hstart.2
    · next hstart => cases h; exact .skips (Or.inl ⟨hkind, hstart⟩)
  · next hkind => cases h; exact .skips (Or.inr hkind)
  · next hkind => cases h; exact .comments hkind
  · next hkind =>
    by_cases hbrackets : s.brackets = []
    · rw [if_pos hbrackets] at h
      cases hstart : s.atLineStart with
      | true =>
        simp only [hstart, if_true] at h
        cases h
        rw [← hstart]
        exact .blanks hkind hbrackets hstart
      | false =>
        simp only [hstart, Bool.false_eq_true, if_false] at h
        cases h
        exact .ends hkind hbrackets hstart
    · rw [if_neg hbrackets] at h
      cases h
      exact .wraps hkind hbrackets
  all_goals
    next hkind => exact significant_moves (by rw [hkind]; rfl) h

theorem marks_eq_run (text : String) : Layout.marks text = ({} : Layout).run 0 #[]
    (Lexeme.scan text.toList).1.toList (Lexeme.scan text.toList).2 := rfl

/-- A run that succeeds takes a step for each lexeme and then finishes. -/
theorem run_cons_eq_ok {lexeme : Lexeme} {rest : List Lexeme} {fault : Option ScanFault}
    {offset : Nat} {found : Array Mark}
    (h : s.run offset #[] (lexeme :: rest) fault = .ok found) :
    ∃ marks s₁ later, s.Moves lexeme ⟨offset, offset + byteLength lexeme.text⟩ marks s₁ ∧
      s₁.run (offset + byteLength lexeme.text) #[] rest fault = .ok later ∧
      found.toList = marks ++ later.toList := by
  simp only [run] at h
  split at h
  · cases h
  · next marks s₁ hstep =>
    rw [run_eq_map] at h
    cases hlater : s₁.run (offset + byteLength lexeme.text) #[] rest fault with
    | error fault => rw [hlater] at h; cases h
    | ok later =>
      rw [hlater] at h
      cases h
      exact ⟨marks, s₁, later, step_moves hstep, hlater, by simp⟩

theorem run_nil_eq_ok {fault : Option ScanFault} {offset : Nat} {found : Array Mark}
    (h : s.run offset #[] [] fault = .ok found) :
    fault = none ∧ s.finish offset = .ok found.toList := by
  cases fault with
  | some fault => cases h
  | none =>
    simp only [run] at h
    cases hf : s.finish offset with
    | error fault => rw [hf] at h; cases h
    | ok marks =>
      rw [hf] at h
      cases h
      exact ⟨rfl, by simp⟩

/-- A run that succeeds met no fault of the scanner. -/
theorem run_fault (lexemes : List Lexeme) {fault : Option ScanFault} {offset : Nat}
    {found : Array Mark} (h : s.run offset #[] lexemes fault = .ok found) : fault = none := by
  induction lexemes generalizing s offset found with
  | nil => exact (run_nil_eq_ok h).1
  | cons lexeme rest ih =>
    obtain ⟨-, s₁, later, -, hlater, -⟩ := run_cons_eq_ok h
    exact ih hlater

theorem finish_eq_ok {offset : Nat} (h : s.finish offset = .ok marks) :
    s.brackets = [] ∧ marks = (if s.atLineStart then [] else [⟨.newline, "", .point offset⟩]) ++
      (closeBlocks 0 offset s.blocks).1 ++ [⟨.endMarker, "", .point offset⟩] := by
  unfold finish at h
  split at h
  · cases h
  · next hbrackets =>
    cases h
    exact ⟨hbrackets, rfl⟩

end Layout

end SourceMacros
