-- How the layout pass fails. Step after step succeeds, and then a line steps back to no open block,
-- a bracket closes nothing, a bracket is still open at the end, or a text is left in which no
-- lexeme starts.
import SourceMacros.Proofs.Coverage

namespace SourceMacros

/-! ## The scanner -/

/-- The characters that a fault of the scanner shows. -/
def ScanFault.text : ScanFault → List Char
  | .unterminated opening => opening
  | .unexpected c => [c]

namespace Lexeme

theorem stringLength_eq_error {marks : Nat} {quote : Char} {cs : List Char} {fault : ScanFault}
    (h : stringLength marks quote cs = .error fault) : fault.text <+: cs := by
  unfold stringLength at h
  dsimp only at h
  split at h
  · split at h
    · cases h
    · cases h
      exact List.take_prefix _ _
  · split at h
    · cases h
    · cases h
      exact List.take_prefix _ _

/-- Where no lexeme can start, the fault shows characters that stand there. -/
theorem head_eq_error {c : Char} {cs : List Char} {fault : ScanFault}
    (h : head c cs = .error fault) : fault.text <+: c :: cs := by
  unfold head at h
  split at h
  · cases h
  split at h
  · cases h
  split at h
  · cases h
  split at h
  · cases h
  split at h
  · cases h
  split at h
  · cases h
  split at h
  · next marks quote _ =>
    cases hlength : stringLength marks quote (c :: cs) with
    | ok n => rw [hlength] at h; cases h
    | error f =>
      rw [hlength] at h
      cases h
      exact stringLength_eq_error hlength
  split at h
  · cases h
  split at h
  · cases h
  split at h
  · cases h
  · cases h
    exact ⟨cs, rfl⟩

/-- Why the scanner stops at what is left of a text: there is nothing, or no lexeme can start. -/
def Stops (left : List Char) : Option ScanFault → Prop
  | none => left = []
  | some fault => fault.text <+: left

theorem scanFrom_scanned (n : Nat) (cs : List Char) :
    ∃ left, Scanned (cs.drop n) (scanFrom #[] n cs).1.toList left ∧
      Stops left (scanFrom #[] n cs).2 := by
  induction cs generalizing n with
  | nil => exact ⟨[], by simpa [scanFrom] using Scanned.nil [], rfl⟩
  | cons c cs ih =>
    cases n with
    | succ n => exact ih n
    | zero =>
      cases hhead : head c cs with
      | error fault =>
        refine ⟨c :: cs, by simpa [scanFrom, hhead] using Scanned.nil (c :: cs), ?_⟩
        simpa [scanFrom, hhead, Stops] using head_eq_error hhead
      | ok found =>
        obtain ⟨kind, n⟩ := found
        obtain ⟨left, hscanned, hstops⟩ := ih n
        simp only [scanFrom, hhead]
        rw [scanFrom_eq_append]
        exact ⟨left, by simpa using Scanned.cons (head_starts hhead) hscanned, hstops⟩

/-- The scanner finds the lexemes of a text up to where it stops. -/
theorem scan_scanned (cs : List Char) :
    ∃ left, Scanned cs (scan cs).1.toList left ∧ Stops left (scan cs).2 := scanFrom_scanned 0 cs

end Lexeme

namespace Layout

variable {s s' : Layout} {marks : List Mark} {fault : LayoutFault}

/-! ## Steps -/

theorem indentation_eq_error {first : Nat} (h : s.indentation first = .error fault) :
    fault = ⟨.unindentMismatch, String.ofList s.lineIndent, first,
      ⟨first - s.lineIndent.length, first⟩⟩ := by
  unfold indentation at h
  dsimp only at h
  split at h
  · cases h
  · split at h
    · cases h
    · split at h
      · cases h
      · cases h
        rfl

theorem bracket_eq_error {text : List Char} {span : Span} (h : s.bracket text span = .error fault) :
    ∃ c, text = [c] ∧ (opener? c).isSome = true ∧
      fault = ⟨.unmatched c.toString, c.toString, span.start, span⟩ := by
  unfold bracket at h
  split at h
  · next c =>
    split at h
    · cases h
    · split at h
      · cases h
      · next wanted hwanted =>
        have hcloses : (opener? c).isSome = true := by rw [hwanted]; rfl
        split at h
        · split at h
          · cases h
          · cases h
            exact ⟨c, rfl, hcloses, rfl⟩
        · cases h
          exact ⟨c, rfl, hcloses, rfl⟩
  · cases h

/-- The ways in which a lexeme may be refused. -/
inductive Fails (s : Layout) (lexeme : Lexeme) (span : Span) : LayoutFault → Prop
  /-- The first token of a logical line whose indentation no open block has. -/
  | unindents : lexeme.kind.significant?.isSome = true → s.atLineStart = true → s.brackets = [] →
      Fails s lexeme span ⟨.unindentMismatch, String.ofList s.lineIndent, span.start,
        ⟨span.start - s.lineIndent.length, span.start⟩⟩
  /-- A bracket that closes none of its kind. -/
  | unmatched {c : Char} : lexeme.text = [c] → (opener? c).isSome = true →
      Fails s lexeme span ⟨.unmatched c.toString, c.toString, span.start, span⟩

theorem significant_fails {lexeme : Lexeme} {span : Span} {kind : TokenKind}
    (hkind : lexeme.kind.significant? = some kind)
    (h : s.significant kind lexeme.text span = .error fault) : s.Fails lexeme span fault := by
  -- Whatever came before, the rest of the lexeme fails only at a bracket.
  have rest : ∀ (before : List Mark) (s₁ : Layout), (do
        let s := { s₁ with atLineStart := false }
        let s ← if kind = .operator then s.bracket lexeme.text span else .ok s
        return (before ++ [⟨kind, String.ofList lexeme.text, span⟩], s)) =
        (Except.error fault : Except LayoutFault (List Mark × Layout)) →
      s.Fails lexeme span fault := by
    intro before s₁ h
    dsimp only at h
    by_cases hop : kind = .operator
    · rw [if_pos hop] at h
      cases hb : bracket { s₁ with atLineStart := false } lexeme.text span with
      | ok s₂ => rw [hb] at h; cases h
      | error f =>
        rw [hb] at h
        cases h
        obtain ⟨c, htext, hcloses, rfl⟩ := bracket_eq_error hb
        exact .unmatched htext hcloses
    · rw [if_neg hop] at h
      cases h
  unfold significant at h
  dsimp only at h
  by_cases hstart : s.atLineStart ∧ s.brackets = []
  · rw [if_pos hstart] at h
    cases hi : s.indentation span.start with
    | ok found => rw [hi] at h; exact rest found.1 found.2 h
    | error f =>
      rw [hi] at h
      cases h
      rw [indentation_eq_error hi]
      exact .unindents (by rw [hkind]; rfl) hstart.1 hstart.2
  · rw [if_neg hstart] at h
    exact rest [] s h

/-- A step that fails is one of the named ones. -/
theorem step_fails {lexeme : Lexeme} {span : Span} (h : s.step lexeme span = .error fault) :
    s.Fails lexeme span fault := by
  unfold step at h
  split at h
  · split at h <;> cases h
  · cases h
  · cases h
  · dsimp only at h
    split at h <;> cases h
  all_goals
    next hkind => exact significant_fails (by rw [hkind]; rfl) h

theorem finish_eq_error {offset : Nat} (h : s.finish offset = .error fault) :
    ∃ c span, (c, span) ∈ s.brackets ∧
      fault = ⟨.neverClosed c, c.toString, span.start, span⟩ := by
  unfold finish at h
  split at h
  · next c span outer hbrackets =>
    cases h
    exact ⟨c, span, by simp [hbrackets], rfl⟩
  · cases h

/-! ## Runs -/

/-- The pass over some lexemes from an offset on, step after step: the marks it finds and the state
it leaves. -/
inductive Passes : Layout → Nat → List Lexeme → List Mark → Layout → Prop
  | nil (s : Layout) (offset : Nat) : Passes s offset [] [] s
  | cons {s s₁ s' : Layout} {offset : Nat} {lexeme : Lexeme} {rest : List Lexeme}
      {marks later : List Mark} :
      s.step lexeme ⟨offset, offset + byteLength lexeme.text⟩ = .ok (marks, s₁) →
      Passes s₁ (offset + byteLength lexeme.text) rest later s' →
      Passes s offset (lexeme :: rest) (marks ++ later) s'

/-- What ends a run that fails, behind the steps that succeed: a step that fails, the end of the
source, or what the scanner met there. -/
inductive EndsBy (s : Layout) (offset : Nat) :
    List Lexeme → Option ScanFault → LayoutFault → Prop
  | step {lexeme : Lexeme} {rest : List Lexeme} {scanned : Option ScanFault} {f : LayoutFault} :
      s.Fails lexeme ⟨offset, offset + byteLength lexeme.text⟩ f →
      EndsBy s offset (lexeme :: rest) scanned f
  | finish {f : LayoutFault} : s.finish offset = .error f → EndsBy s offset [] none f
  | scan (f : ScanFault) : EndsBy s offset [] (some f) (scanFault offset f)

/-- A run that fails takes steps that succeed up to where it ends. -/
theorem run_eq_error {lexemes : List Lexeme} {scanned : Option ScanFault} {offset : Nat}
    (h : s.run offset #[] lexemes scanned = .error fault) :
    ∃ front back marks s', lexemes = front ++ back ∧ s.Passes offset front marks s' ∧
      s'.EndsBy (offset + byteLength (front.flatMap Lexeme.text)) back scanned fault := by
  induction lexemes generalizing s offset with
  | nil =>
    refine ⟨[], [], [], s, rfl, .nil s offset, ?_⟩
    cases scanned with
    | some f => cases h; exact .scan f
    | none =>
      simp only [run] at h
      cases hf : s.finish offset with
      | ok marks => rw [hf] at h; cases h
      | error f => rw [hf] at h; cases h; exact .finish hf
  | cons lexeme rest ih =>
    simp only [run] at h
    split at h
    · next hstep =>
      cases h
      exact ⟨[], lexeme :: rest, [], s, rfl, .nil s offset, .step (step_fails hstep)⟩
    · next marks s₁ hstep =>
      rw [run_eq_map] at h
      cases hlater : s₁.run (offset + byteLength lexeme.text) #[] rest scanned with
      | ok found => rw [hlater] at h; cases h
      | error f =>
        rw [hlater] at h
        cases h
        obtain ⟨front, back, later, s', rfl, hpasses, hends⟩ := ih hlater
        refine ⟨lexeme :: front, back, marks ++ later, s', rfl, .cons hstep hpasses, ?_⟩
        rw [List.flatMap_cons, byteLength_append, ← Nat.add_assoc]
        exact hends

/-- A run that succeeds takes a step for each lexeme, and then it finishes. -/
theorem run_eq_ok {lexemes : List Lexeme} {scanned : Option ScanFault} {offset : Nat}
    {found : Array Mark} (h : s.run offset #[] lexemes scanned = .ok found) :
    ∃ marks s' later, s.Passes offset lexemes marks s' ∧
      s'.finish (offset + byteLength (lexemes.flatMap Lexeme.text)) = .ok later ∧
      found.toList = marks ++ later := by
  induction lexemes generalizing s offset found with
  | nil => exact ⟨[], s, found.toList, .nil s offset, (run_nil_eq_ok h).2, rfl⟩
  | cons lexeme rest ih =>
    simp only [run] at h
    split at h
    · cases h
    · next marks s₁ hstep =>
      rw [run_eq_map] at h
      cases hlater : s₁.run (offset + byteLength lexeme.text) #[] rest scanned with
      | error f => rw [hlater] at h; cases h
      | ok more =>
        rw [hlater] at h
        cases h
        obtain ⟨first, s', later, hpasses, hfinish, hmore⟩ := ih hlater
        refine ⟨marks ++ first, s', later, .cons hstep hpasses, ?_, by simp [hmore]⟩
        rw [List.flatMap_cons, byteLength_append, ← Nat.add_assoc]
        exact hfinish

end Layout

end SourceMacros
