-- Interrupted sessions. Whether the user asked to stop is looked up before each token, so a pass
-- ends at the first one, before anything is parsed or resolved. In a text without a token that
-- means something nothing is looked up, and its pass gives the text back as always. All that an
-- interrupted session still does is therefore to copy such texts to their outputs.
import SourceMacros.Proofs.Cursor
import SourceMacros.Proofs.PassLaws
import SourceMacros.Proofs.TranslationLaws

namespace SourceMacros

variable {μ α : Type} {s s₁ s' : Session μ} {r : String → Run μ (Definition μ)}

/-! ## Vacant texts -/

/-- Nothing but comments, blank breaks and the end of the source. -/
def Vacant (tokens : List Token) : Prop :=
  ∀ t ∈ tokens, t.kind.isTrivia = true ∨ t.kind = .endMarker

instance (tokens : List Token) : Decidable (Vacant tokens) :=
  inferInstanceAs (Decidable (∀ t ∈ tokens, t.kind.isTrivia = true ∨ t.kind = .endMarker))

namespace PassRun

variable {a : PassState μ}

end PassRun

/-! ## Texts and files -/

/-- A file with a vacant text. -/
structure HoldsVacant (t : FileTree) (path : Path) (text : String) : Prop where
  read : t.readText path = .ok text
  vacant : ∃ tokens, tokenize path.text text = .ok tokens ∧ Vacant tokens

/-- A source with a vacant text, and the path its text is copied to. -/
structure CopiedTo (s : Session μ) (path target : Path) (text : String) : Prop where
  holds : HoldsVacant s.tree path text
  output : s.settings.outputPath path = .ok target
  apart : target.same path = false

/-- Some of the given sources, all of them vacant, were copied to their outputs, one after
another. -/
inductive Copies (sources : Path → Prop) : Session μ → Session μ → Prop
  | refl (s : Session μ) : Copies sources s s
  | copy {s s' : Session μ} {path target : Path} {text : String} : sources path →
      CopiedTo s path target text → Copies sources (final (Run.writeThrough target text s)) s' →
      Copies sources s s'

namespace Copies

variable {sources : Path → Prop}

theorem trans (h : Copies sources s s₁) (h' : Copies sources s₁ s') : Copies sources s s' := by
  induction h with
  | refl => exact h'
  | copy hsource hcopied _ ih => exact .copy hsource hcopied (ih h')

end Copies

/-! ## Whole operations -/

end SourceMacros
