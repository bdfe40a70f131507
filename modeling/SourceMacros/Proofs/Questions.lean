-- Questions: the references that a pass asks its resolver for, in the session in which it asks, and
-- the manifests that are loaded while they are answered. A manifest is loaded by the question
-- itself, or by a question that comes up while files of its package are expanded.
import SourceMacros.Proofs.Nesting

namespace SourceMacros

variable {μ : Type}

/-! ## Passes -/

/-- The next token of a pass starts a directive that imports a reference. -/
def Directs (a : PassState μ) (reference : String) : Prop :=
  a.session.interrupted = false ∧ a.stream.peek.kind = .name ∧
    a.stream.peek.text = a.session.settings.importKeyword ∧
    ∃ directive after, directive.reference = reference ∧
      Directive.parse ⟨a.stream.skip, a.session.interrupted, a.session.memory⟩ = .ok directive after

/-- The pass over a file asks for a reference in a session. -/
def AsksFor (r : String → Run μ (Definition μ)) (path : Path) (s : Session μ) (reference : String)
    (s₁ : Session μ) : Prop :=
  ∃ text stream n a, s.tree.readText path = .ok text ∧
    Stream.ofSource path.text text = .ok stream ∧
    PassRun.steps r n
      { session := { s with searchRoot := searchFolder path }, stream, pass := {} } = .ok () a ∧
    Directs a reference ∧ a.session = s₁

/-! ## Packages -/

/-- A source that bootstrapping expands: its output is missing, or its content is not recorded. -/
def Stale (s : Session μ) (file : Path) : Prop :=
  s.settings.isSource file = true ∧ ∃ content output, s.tree.read file = .ok content ∧
    s.settings.outputPath file = .ok output ∧
    (s.tree.isFile output &&
      s.record.isUnchanged s.tree file (Digest.ofContent content)) = false

/-- The manifests that are loaded while a reference is resolved, with so many levels of nesting
left. -/
inductive Loads : Nat → String → Session μ → Path → Manifest → Prop
  /-- The reference leads to the package of the manifest. -/
  | own {n : Nat} {reference keyword : String} {s : Session μ} {dir : Path} {manifest : Manifest} :
      sought? s reference = some (dir, manifest, keyword) → Loads (n + 1) reference s dir manifest
  /-- A helper file asks for a reference, after those before it were run. -/
  | helper {n : Nat} {reference keyword other file : String} {s s₁ s₂ : Session μ}
      {dir dir' : Path} {manifest manifest' : Manifest} {before after : List String} :
      sought? s reference = some (dir, manifest, keyword) → s.isBootstrapped dir = false →
      manifest.bootstrap = before ++ file :: after →
      runHelpers (resolveWithin n) dir { manifest with bootstrap := before }
        (s.mark (s.tree.canonical dir)) = .ok () s₁ →
      Stale s₁ (dir.join ⟨file⟩) → AsksFor (resolveWithin n) (dir.join ⟨file⟩) s₁ other s₂ →
      Loads n other s₂ dir' manifest' → Loads (n + 1) reference s dir' manifest'
  /-- The implementation source asks for a reference, after the package was bootstrapped. -/
  | implementation {n : Nat} {reference keyword other : String} {s s₁ s₂ : Session μ}
      {dir dir' : Path} {manifest manifest' : Manifest} {entry : Entry} :
      sought? s reference = some (dir, manifest, keyword) →
      bootstrapPackage (resolveWithin n) dir manifest s = .ok () s₁ →
      manifest.entry? keyword = some entry → isPending s₁ (dir.join ⟨entry.file⟩) = true →
      AsksFor (resolveWithin n) (dir.join ⟨entry.file⟩) s₁ other s₂ →
      Loads n other s₂ dir' manifest' → Loads (n + 1) reference s dir' manifest'

/-- The manifests that are loaded in the pass over a file. -/
def LoadsIn (path : Path) (s : Session μ) (dir : Path) (manifest : Manifest) : Prop :=
  ∃ reference s₁, AsksFor resolve path s reference s₁ ∧ Loads s₁.depth reference s₁ dir manifest

/-- A helper file or an implementation file that a manifest among the given ones names. -/
def Listed (loads : Path → Manifest → Prop) (file : Path) : Prop :=
  ∃ dir manifest name, loads dir manifest ∧ file = dir.join ⟨name⟩ ∧
    (name ∈ manifest.bootstrap ∨ ∃ entry ∈ manifest.entries, entry.file = name)

theorem Listed.mono {loads loads' : Path → Manifest → Prop} {file : Path} (h : Listed loads file)
    (himp : ∀ dir manifest, loads dir manifest → loads' dir manifest) : Listed loads' file := by
  obtain ⟨dir, manifest, name, hloads, hfile, hname⟩ := h
  exact ⟨dir, manifest, name, himp dir manifest hloads, hfile, hname⟩

end SourceMacros
