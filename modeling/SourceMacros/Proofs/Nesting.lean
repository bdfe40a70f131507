-- Nesting: what one level of resolution asks of the next. A level asks for nothing, or it marks a
-- package that had no mark, or it makes the output of an implementation source of a package that
-- is marked already.
import SourceMacros.Proofs.Following

namespace SourceMacros

variable {μ : Type} {s s' : Session μ} {e : Error} {r r' : String → Run μ (Definition μ)}

/-! ## Levels -/

/-- The checked manifest in a file, if there is one. -/
def FileTree.manifest? (t : FileTree) (path : Path) : Option Manifest :=
  match t.readText path with
  | .ok text => (Manifest.parse path text).toOption
  | .error _ => none

/-- The package that a reference leads to, with its manifest and the keyword asked for, unless the
reference was resolved before. -/
def sought? (s : Session μ) (reference : String) : Option (Path × Manifest × String) :=
  match s.cached? reference, Pieces.splitText Directive.separator reference with
  | none, [package, keyword] =>
    if package == "" || keyword == "" then none
    else
      (packageFolder? s package).bind fun dir =>
        (s.tree.manifest? (dir.join ⟨s.settings.manifestFile⟩)).map fun manifest =>
          (dir, manifest, keyword)
  | _, _ => none

/-- A source whose output is still to be made. -/
def isPending (s : Session μ) (file : Path) : Bool :=
  s.settings.isSource file && s.tree.isFile file &&
    match s.settings.outputPath file with
    | .ok output => !s.tree.isFile output
    | .error _ => false

/-- The canonical folder that a reference marks before anything else. -/
def opens? (s : Session μ) (reference : String) : Option Path :=
  match sought? s reference with
  | some (dir, _, _) => if s.isBootstrapped dir then none else some (s.tree.canonical dir)
  | none => none

/-- The implementation source that a reference expands, when its package is marked already. -/
def due? (s : Session μ) (reference : String) : Option Path :=
  match sought? s reference with
  | some (dir, manifest, keyword) =>
    if s.isBootstrapped dir then
      ((manifest.entry? keyword).map fun entry => dir.join ⟨entry.file⟩).filter (isPending s)
    else none
  | none => none

/-- Bootstraps a package, and takes a macro from it. -/
def loadEntry (resolve : String → Run μ (Definition μ)) (dir : Path) (manifest : Manifest)
    (reference package keyword : String) : Run μ (Definition μ) := do
  bootstrapPackage resolve dir manifest
  match manifest.entry? keyword with
  | none => throw (.resolution reference (.noSuchEntry package dir keyword))
  | some entry =>
    let file ← implementationFile resolve (dir.join ⟨entry.file⟩) reference
    let key := PluginKey.package package keyword
    match (← get).registry.lookup key with
    | none => throw (.resolution reference .unregistered)
    | some plugin =>
      return { reference, keyword, origin := .package dir manifest.name file, key, plugin }

/-- Reading a manifest leaves the session as it was. -/
theorem loadManifest_cases (path : Path) (s : Session μ) :
    (∃ manifest, s.tree.manifest? path = some manifest ∧
        Run.loadManifest path s = .ok manifest s) ∨
      s.tree.manifest? path = none ∧ ∃ e, Run.loadManifest path s = .error e s := by
  unfold Run.loadManifest FileTree.manifest?
  rw [bind_of_ok (get_apply s)]
  cases s.tree.readText path with
  | error cause => exact Or.inr ⟨rfl, _, rfl⟩
  | ok text =>
    dsimp only
    cases Manifest.parse path text with
    | error error => exact Or.inr ⟨rfl, _, rfl⟩
    | ok manifest => exact Or.inl ⟨manifest, rfl, rfl⟩

theorem resolveNew_of_package {reference package keyword : String}
    (hsplit : Pieces.splitText Directive.separator reference = [package, keyword])
    (hnames : (package == "" || keyword == "") = false) (r : String → Run μ (Definition μ)) :
    resolveNew r reference s =
      match packageFolder? s package with
      | none => .error (.resolution reference (.noPackageDirectory package)) s
      | some dir => loadPackage r dir reference package keyword s := by
  unfold resolveNew
  rw [hsplit]
  dsimp only
  rw [if_neg (by rw [hnames]; exact Bool.false_ne_true), bind_of_ok (get_apply s)]
  cases packageFolder? s package with
  | none => rfl
  | some dir => rfl

/-- A reference that leads to no package is resolved without the next level. -/
theorem resolveNew_of_unsought {reference : String} (hnew : s.cached? reference = none)
    (h : sought? s reference = none) : resolveNew r reference s = resolveNew r' reference s := by
  unfold sought? at h
  rw [hnew] at h
  rcases hsplit : Pieces.splitText Directive.separator reference with
    _ | ⟨package, _ | ⟨keyword, _ | ⟨third, more⟩⟩⟩
  · simp only [resolveNew, hsplit]
  · simp only [resolveNew, hsplit]
  · rw [hsplit] at h
    dsimp only at h
    by_cases hnames : (package == "" || keyword == "") = true
    · simp only [resolveNew, hsplit, hnames, if_true]
      rw [bind_of_error (throw_apply _ s), bind_of_error (throw_apply _ s)]
    · rw [if_neg hnames] at h
      rw [Bool.not_eq_true] at hnames
      rw [resolveNew_of_package hsplit hnames, resolveNew_of_package hsplit hnames]
      cases hfolder : packageFolder? s package with
      | none => rfl
      | some dir =>
        rw [hfolder] at h
        dsimp only at h ⊢
        rcases loadManifest_cases (dir.join ⟨s.settings.manifestFile⟩) s with
          ⟨manifest, hfound, -⟩ | ⟨-, e, hmanifest⟩
        · simp [hfound] at h
        · unfold loadPackage
          rw [bind_of_ok (get_apply s), bind_of_ok (get_apply s), bind_of_error hmanifest,
            bind_of_error hmanifest]
  · simp only [resolveNew, hsplit]

/-- A reference that leads to a package is resolved by what the package says. -/
theorem resolveNew_of_sought {reference keyword : String} {dir : Path} {manifest : Manifest}
    (h : sought? s reference = some (dir, manifest, keyword)) :
    s.cached? reference = none ∧ ∃ package, packageFolder? s package = some dir ∧
      ∀ r, resolveNew r reference s = loadEntry r dir manifest reference package keyword s := by
  unfold sought? at h
  split at h
  · next package keyword hnew hsplit =>
    refine ⟨hnew, package, ?_⟩
    split at h
    · cases h
    · next hnames =>
      rw [Bool.not_eq_true] at hnames
      obtain ⟨dir, hfolder, h⟩ := Option.bind_eq_some_iff.mp h
      obtain ⟨manifest, hfound, heq⟩ := Option.map_eq_some_iff.mp h
      cases heq
      refine ⟨hfolder, ?_⟩
      intro r
      rcases loadManifest_cases (dir.join ⟨s.settings.manifestFile⟩) s with
        ⟨manifest', hsame, hmanifest⟩ | ⟨hnone, -⟩
      · rw [hfound] at hsame
        cases hsame
        rw [resolveNew_of_package hsplit hnames, hfolder]
        dsimp only
        unfold loadPackage
        rw [bind_of_ok (get_apply _), bind_of_ok hmanifest]
        rfl
      · rw [hfound] at hnone
        cases hnone
  · cases h

/-! ## What a level asks for -/

/-- An implementation file that is not pending is found without the next level. -/
theorem implementationFile_of_settled {file : Path} (reference : String)
    (h : isPending s file = false) :
    implementationFile r file reference s = implementationFile r' file reference s := by
  unfold implementationFile
  dsimp only
  rw [bind_of_ok (get_apply s), bind_of_ok (get_apply s)]
  by_cases hsource : s.settings.isSource file = true
  · rw [if_pos hsource, if_pos hsource]
    unfold isPending at h
    cases houtput : s.settings.outputPath file with
    | error e =>
      have hrun : Run.outputPath file s = .error e s := by
        unfold Run.outputPath
        rw [bind_of_ok (get_apply s), houtput]
        rfl
      rw [bind_of_error hrun, bind_of_error hrun]
    | ok output =>
      have hrun : Run.outputPath file s = .ok output s := by
        unfold Run.outputPath
        rw [bind_of_ok (get_apply s), houtput]
        rfl
      rw [bind_of_ok hrun, bind_of_ok hrun, bind_of_ok (get_apply s), bind_of_ok (get_apply s)]
      by_cases hmade : s.tree.isFile output = true
      · simp only [hmade, Bool.not_true, Bool.false_eq_true, if_false]
      · rw [Bool.not_eq_true] at hmade
        have hmissing : s.tree.isFile file = false := by
          simpa [hsource, houtput, hmade] using h
        simp only [hmade, Bool.not_false, if_true]
        rw [bind_of_ok (get_apply s), bind_of_ok (get_apply s)]
        simp only [hmissing, Bool.not_false, if_true]
        rw [bind_of_error (throw_apply _ s), bind_of_error (throw_apply _ s)]
  · rw [if_neg hsource, if_neg hsource]

theorem yields_bootstrapPackage {dir : Path} {manifest : Manifest}
    (hnew : ¬ s.Marked (s.tree.canonical dir))
    (h : Yields e (runHelpers r dir manifest (s.mark (s.tree.canonical dir)))
      (runHelpers r' dir manifest (s.mark (s.tree.canonical dir)))) :
    Yields e (bootstrapPackage r dir manifest s) (bootstrapPackage r' dir manifest s) := by
  rcases bootstrapPackage_cases r dir manifest s with ⟨hmarked, -⟩ | ⟨-, hrun⟩
  · exact absurd hmarked hnew
  rcases bootstrapPackage_cases r' dir manifest s with ⟨hmarked, -⟩ | ⟨-, hrun'⟩
  · exact absurd hmarked hnew
  rcases h with heq | ⟨s₁, heq⟩
  · rw [heq] at hrun
    refine Or.inl ?_
    rcases hrun with ⟨e₁, s₁, hhelpers, hrun⟩ | ⟨s₁, hhelpers, hrun⟩
    · rw [hhelpers] at hrun'
      rcases hrun' with ⟨e₂, s₂, hsame, hrun'⟩ | ⟨s₂, hsame, -⟩
      · cases hsame
        rw [hrun, hrun']
      · cases hsame
    · rw [hhelpers] at hrun'
      rcases hrun' with ⟨e₂, s₂, hsame, -⟩ | ⟨s₂, hsame, hrun'⟩
      · cases hsame
      · cases hsame
        rw [hrun, hrun']
  · rw [heq] at hrun
    rcases hrun with ⟨e₁, s₂, hhelpers, hrun⟩ | ⟨s₂, hhelpers, -⟩
    · cases hhelpers
      exact Or.inr ⟨_, hrun⟩
    · cases hhelpers

/-- After a package was bootstrapped, the session has grown from the one with its mark. -/
theorem bootstrapPackage_grows (hr : Narrates r) {dir : Path} {manifest : Manifest}
    (hnew : ¬ s.Marked (s.tree.canonical dir))
    (h : bootstrapPackage r dir manifest s = .ok () s') :
    Grows (s.mark (s.tree.canonical dir)) s' := by
  rcases bootstrapPackage_cases r dir manifest s with ⟨hmarked, -⟩ | ⟨-, hrun⟩
  · exact absurd hmarked hnew
  rcases hrun with ⟨e₁, s₁, -, hrun⟩ | ⟨s₁, hhelpers, hrun⟩
  · rw [hrun] at h
    cases h
  · obtain ⟨es, hes, -⟩ := recounts_runHelpers (s := s.mark (s.tree.canonical dir)) hr dir manifest
    obtain ⟨fs, hfs, -⟩ := recounts_saveRecord (s := s₁)
    rw [hhelpers] at hes
    rw [← hrun, h] at hfs
    exact hes.grows.trans hfs.grows

theorem yields_loadEntry {dir : Path} {manifest : Manifest} {reference package keyword : String}
    (hsought : sought? s reference = some (dir, manifest, keyword)) (hr : Narrates r)
    (hopens : ∀ folder, opens? s reference = some folder → Trails (s.mark folder) e r r')
    (hdue : ∀ file, due? s reference = some file → Trails s e r r') :
    Yields e (loadEntry r dir manifest reference package keyword s)
      (loadEntry r' dir manifest reference package keyword s) := by
  unfold loadEntry
  by_cases hmarked : s.isBootstrapped dir = true
  · -- The helper files were run before, so only the implementation file may ask for more.
    have hstay : ∀ r : String → Run μ (Definition μ),
        bootstrapPackage r dir manifest s = .ok () s := by
      intro r
      rcases bootstrapPackage_cases r dir manifest s with ⟨-, hrun⟩ | ⟨hnew, -⟩
      · exact hrun
      · exact absurd (Session.isBootstrapped_iff.mp hmarked) hnew
    rw [bind_of_ok (hstay r), bind_of_ok (hstay r')]
    cases hentry : manifest.entry? keyword with
    | none => exact Or.inl rfl
    | some entry =>
      refine Yields.bind ?_ fun _ _ _ => Or.inl rfl
      cases hpending : isPending s (dir.join ⟨entry.file⟩) with
      | false => exact Or.inl (implementationFile_of_settled reference hpending)
      | true =>
        have hfile : due? s reference = some (dir.join ⟨entry.file⟩) := by
          simp [due?, hsought, hmarked, hentry, hpending]
        exact (follows_implementationFile (hdue _ hfile) _ reference (.refl s)).2
  · have hnew : ¬ s.Marked (s.tree.canonical dir) := fun h =>
      hmarked (Session.isBootstrapped_iff.mpr h)
    have htrails : Trails (s.mark (s.tree.canonical dir)) e r r' := by
      apply hopens
      simp [opens?, hsought, hmarked]
    apply (yields_bootstrapPackage hnew (follows_runHelpers htrails dir manifest (.refl _)).2).bind
    intro _ s₁ hrun
    have hgrows := bootstrapPackage_grows hr hnew hrun
    cases manifest.entry? keyword with
    | none => exact Or.inl rfl
    | some entry =>
      refine Yields.bind ?_ fun _ _ _ => Or.inl rfl
      exact (follows_implementationFile htrails _ reference hgrows).2

/-- One level does the same with two resolvers where they do the same in the sessions that the
level can reach, except for a certain error. -/
theorem yields_resolveVia {reference : String} (hr : Narrates r)
    (hopens : ∀ folder, opens? s reference = some folder →
      ∀ other s', Grows (s.mark folder) s' → Yields e (r other s') (r' other s'))
    (hdue : ∀ file, due? s reference = some file →
      ∀ other s', Grows s s' → Yields e (r other s') (r' other s')) :
    Yields e (resolveVia r reference s) (resolveVia r' reference s) := by
  unfold resolveVia
  rw [bind_of_ok (get_apply s), bind_of_ok (get_apply s)]
  cases hcached : s.cached? reference with
  | some d => exact Or.inl rfl
  | none =>
    refine Yields.bind ?_ fun _ _ _ => Or.inl rfl
    cases hsought : sought? s reference with
    | none => exact Or.inl (resolveNew_of_unsought hcached hsought)
    | some found =>
      obtain ⟨dir, manifest, keyword⟩ := found
      obtain ⟨-, package, -, hload⟩ := resolveNew_of_sought hsought
      rw [hload, hload]
      exact yields_loadEntry hsought hr (fun folder h => ⟨hr, hopens folder h⟩)
        fun file h => ⟨hr, hdue file h⟩

end SourceMacros
