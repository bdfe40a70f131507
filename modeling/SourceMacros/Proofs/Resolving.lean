-- Files, packages and references: what expanding, translating, bootstrapping and resolving come
-- down to. A resolver with one more level of nesting is as good as the one below it.
import SourceMacros.Proofs.Operations

namespace SourceMacros

variable {μ α : Type} {s : Session μ} {resolve : String → Run μ (Definition μ)}

/-! ## Files -/

theorem leads_expandText (hr : Resolves resolve) (hs : s.Coherent) (name text : String)
    (pass : Pass μ) :
    ∃ ds, Leads s ds (final (expandTextVia resolve name text (s, pass))).1 := by
  unfold expandTextVia
  dsimp only
  split
  · exact ⟨[], .done s⟩
  · next stream _ =>
    obtain ⟨⟨ds, hlead⟩, _⟩ := acts_expandStream (a := { session := s, stream, pass }) hr hs
    split
    · next hrun =>
      rw [hrun] at hlead
      exact ⟨ds, hlead⟩
    · next hrun =>
      rw [hrun] at hlead
      exact ⟨ds, hlead⟩

theorem acts_freshPass (hr : Resolves resolve) (hs : s.Coherent) (name text : String) :
    Acts (freshPass (expandTextVia resolve name text)) s fun output _ =>
      Expands s name text output := by
  obtain ⟨ds, hlead⟩ := leads_expandText hr hs name text {}
  unfold Acts Does freshPass
  cases hrun : expandTextVia resolve name text (s, {}) with
  | ok output after =>
    rw [hrun] at hlead
    refine ⟨⟨ds, hlead⟩, ?_⟩
    intro _ _ heq
    cases heq
    exact expands_of_ok hr.answers hs hrun
  | error e after =>
    rw [hrun] at hlead
    refine ⟨⟨ds, hlead⟩, ?_⟩
    intro _ _ heq
    cases heq

theorem acts_withSearchRoot {root : Path} {run : Run μ α} {P : α → Prop}
    (h : Acts run { s with searchRoot := root } fun a _ => P a) :
    Acts (withSearchRoot root run) s fun a _ => P a := by
  obtain ⟨⟨ds, hlead⟩, hpost⟩ := h
  unfold Acts Does withSearchRoot
  cases hrun : run { s with searchRoot := root } with
  | ok a s₁ =>
    rw [hrun] at hlead
    refine ⟨⟨_, .step .turned (hlead.append (Change.leads .turned))⟩, ?_⟩
    intro _ _ heq
    cases heq
    exact hpost _ _ hrun
  | error e s₁ =>
    rw [hrun] at hlead
    refine ⟨⟨_, .step .turned (hlead.append (Change.leads .turned))⟩, ?_⟩
    intro _ _ heq
    cases heq

/-- A file is expanded from the text that it holds. -/
theorem acts_expandFile (hr : Resolves resolve) (hs : s.Coherent) (path : Path) :
    Acts (expandFileVia resolve path) s fun output _ =>
      ∃ text, s.tree.readText path = .ok text ∧ Expands s path.text text output := by
  unfold expandFileVia
  apply Acts.bind hs (acts_readText hs path)
  rintro text _ - - ⟨hread, rfl⟩
  have hroot : { s with searchRoot := searchFolder path }.Coherent := ⟨hs.pure, hs.cache⟩
  apply (acts_withSearchRoot (acts_freshPass hr hroot path.text text)).mono
  intro output _ hexpands
  exact ⟨text, hread, hexpands⟩

theorem acts_translateFile (hr : Resolves resolve) (hs : s.Coherent) (path : Path) :
    Acts (translateFileVia resolve path) s fun _ _ =>
      ∃ text output, s.tree.readText path = .ok text ∧ Expands s path.text text output := by
  unfold translateFileVia
  apply Acts.bind hs (acts_expandFile hr hs path)
  rintro output s₁ hs₁ hkeeps ⟨text, hread, hexpands⟩
  apply Acts.bind hs₁ (acts_outputPath hs₁ path)
  rintro target _ - - ⟨-, rfl⟩
  split
  · exact Does.throw_bind
  · have hexpands₁ := hkeeps.expands.mpr hexpands
    apply Acts.bind hs₁ (acts_writeThrough hs₁ ⟨path.text, text⟩ hexpands₁ target)
    intro _ _ _ _ _
    exact Does.pure ⟨text, output, hread, hexpands⟩

/-- A source that is expanded is noted with the content it was expanded from. -/
theorem acts_bootstrapFile (hr : Resolves resolve) (hs : s.Coherent) (path : Path) :
    Acts (bootstrapFileVia resolve path) s fun _ _ => True := by
  unfold bootstrapFileVia
  apply Acts.bind hs Acts.get
  rintro _ _ - - ⟨rfl, rfl⟩
  split
  · exact Does.pure trivial
  · apply Acts.bind hs (acts_digest hs path)
    rintro digest _ - - ⟨⟨content, hcontent, rfl⟩, rfl⟩
    apply Acts.bind hs (acts_outputPath hs path)
    rintro target _ - - ⟨-, rfl⟩
    apply Acts.bind hs Acts.get
    rintro _ _ - - ⟨rfl, rfl⟩
    split
    · exact Does.pure trivial
    · apply Acts.bind hs (acts_translateFile hr hs path)
      rintro _ s₁ hs₁ hkeeps ⟨text, output, hread, hexpands⟩
      rw [toUTF8_of_readText hread] at hcontent
      cases hcontent
      apply Acts.bind hs₁ (Acts.modify (.noted (hkeeps.expands.mpr hexpands)))
      intro _ _ _ _ _
      exact Does.pure trivial

/-! ## Packages -/

theorem acts_forM {β : Type} {f : β → Run μ PUnit}
    (hf : ∀ b s, s.Coherent → Acts (f b) s fun _ _ => True) (bs : List β) (hs : s.Coherent) :
    Acts (bs.forM f) s fun _ _ => True := by
  induction bs generalizing s with
  | nil => exact Does.pure trivial
  | cons b bs ih =>
    apply Acts.bind hs (hf b s hs)
    intro _ s₁ hs₁ _ _
    exact ih hs₁

theorem acts_mapM {β : Type} {f : β → Run μ α}
    (hf : ∀ b s, s.Coherent → Acts (f b) s fun _ _ => True) (bs : List β) (hs : s.Coherent) :
    Acts (bs.mapM f) s fun _ _ => True := by
  induction bs generalizing s with
  | nil => exact Does.pure trivial
  | cons b bs ih =>
    rw [List.mapM_cons]
    apply Acts.bind hs (hf b s hs)
    intro _ s₁ hs₁ _ _
    apply Acts.bind hs₁ (ih hs₁)
    intro _ _ _ _ _
    exact Does.pure trivial

theorem acts_bootstrapPackage (hr : Resolves resolve) (hs : s.Coherent) (dir : Path)
    (manifest : Manifest) :
    Acts (bootstrapPackage resolve dir manifest) s fun _ _ => True := by
  unfold bootstrapPackage
  apply Acts.bind hs Acts.get
  rintro _ _ - - ⟨rfl, rfl⟩
  apply Acts.bind hs Acts.get
  rintro _ _ - - ⟨rfl, rfl⟩
  split
  · exact Does.pure trivial
  · apply Acts.bind hs (Acts.modify .marked)
    intro _ s₁ hs₁ _ _
    refine Acts.bind hs₁ (Does.tryCatch hs₁ (acts_forM ?_ _ hs₁) ?_) ?_
    · intro file s₂ hs₂
      apply Acts.bind hs₂ (acts_bootstrapFile hr hs₂ _)
      intro _ _ _ _ _
      exact Does.pure trivial
    · intro e s₂ hs₂
      apply Acts.bind hs₂ (Acts.modify .marked)
      intro _ _ _ _ _
      exact Does.throw
    · intro _ s₂ _ _ _
      exact acts_saveRecord

theorem acts_implementationFile (hr : Resolves resolve) (hs : s.Coherent) (file : Path)
    (reference : String) :
    Acts (implementationFile resolve file reference) s fun _ _ => True := by
  unfold implementationFile
  apply Acts.bind hs Acts.get
  rintro _ _ - - ⟨rfl, rfl⟩
  split
  · apply Acts.bind hs (acts_outputPath hs file)
    rintro output _ - - ⟨-, rfl⟩
    apply Acts.bind hs Acts.get
    rintro _ _ - - ⟨rfl, rfl⟩
    split
    · apply Acts.bind hs Acts.get
      rintro _ _ - - ⟨rfl, rfl⟩
      split
      · exact Does.throw_bind
      · apply Acts.bind hs (acts_bootstrapFile hr hs file)
        intro _ s₁ hs₁ _ _
        apply Acts.bind hs₁ acts_saveRecord
        intro _ _ _ _ _
        exact Does.pure trivial
    · exact Does.pure trivial
  · apply Acts.bind hs Acts.get
    rintro _ _ - - ⟨rfl, rfl⟩
    split
    · exact Does.throw_bind
    · exact Does.pure trivial

theorem acts_loadPackage (hr : Resolves resolve) (hs : s.Coherent) (dir : Path)
    (reference package keyword : String) :
    Acts (loadPackage resolve dir reference package keyword) s fun d _ =>
      (s.registry.lookup (.package package keyword)).map (keyword, ·) = some d.meaning := by
  unfold loadPackage
  apply Acts.bind hs Acts.get
  rintro _ _ - - ⟨rfl, rfl⟩
  apply Acts.bind hs (acts_loadManifest hs _)
  rintro manifest _ - - rfl
  apply Acts.bind hs (acts_bootstrapPackage hr hs dir manifest)
  intro _ s₁ hs₁ hkeeps₁ _
  split
  · exact Does.throw
  · apply Acts.bind hs₁ (acts_implementationFile hr hs₁ _ reference)
    intro file s₂ hs₂ hkeeps₂ _
    apply Acts.bind hs₂ Acts.get
    rintro _ _ - - ⟨rfl, rfl⟩
    split
    · exact Does.throw
    · next plugin hplugin =>
      apply Does.pure
      rw [← hkeeps₁.registry, ← hkeeps₂.registry, hplugin]
      rfl

/-! ## References -/

theorem resolveBuiltin_eq_ok {keyword : String} {d : Definition μ}
    (h : resolveBuiltin s keyword = .ok d) :
    (s.registry.lookup (.builtin keyword)).map (keyword, ·) = some d.meaning := by
  unfold resolveBuiltin at h
  dsimp only [bind, Except.bind] at h
  cases hplugin : s.registry.lookup (.builtin keyword) with
  | none =>
    simp only [hplugin] at h
    split at h
    · cases h
    · split at h
      · cases h
      · cases h
  | some plugin =>
    simp only [hplugin] at h
    split at h
    · cases h
      rfl
    · split at h
      · cases h
        rfl
      · cases h

theorem acts_resolveNew (hr : Resolves resolve) (hs : s.Coherent) (reference : String) :
    Acts (resolveNew resolve reference) s fun d _ =>
      s.registry.meaning? reference = some d.meaning := by
  unfold resolveNew
  split
  · next keyword hsplit =>
    split
    · exact Does.throw_bind
    · apply Acts.bind hs Acts.get
      rintro _ _ - - ⟨rfl, rfl⟩
      apply acts_ofExcept.mono
      rintro d _ ⟨hd, -⟩
      unfold Registry.meaning?
      rw [hsplit]
      exact resolveBuiltin_eq_ok hd
  · next package keyword hsplit =>
    split
    · exact Does.throw_bind
    · apply Acts.bind hs Acts.get
      rintro _ _ - - ⟨rfl, rfl⟩
      split
      · exact Does.throw
      · apply (acts_loadPackage hr hs _ _ _ _).mono
        intro d _ hd
        unfold Registry.meaning?
        rw [hsplit]
        exact hd
  · exact Does.throw

theorem cached_mem {reference : String} {d : Definition μ} (h : s.cached? reference = some d) :
    (reference, d) ∈ s.cache := by
  obtain ⟨entry, hentry, rfl⟩ := Option.map_eq_some_iff.mp h
  have hname := List.find?_some hentry
  have hmem := List.mem_of_find?_eq_some hentry
  rw [beq_iff_eq] at hname
  rw [← hname]
  exact hmem

/-- One more level of nesting: a reference that was resolved before means what it meant then. -/
theorem Resolves.resolveVia (hr : Resolves resolve) : Resolves (resolveVia resolve) := by
  intro reference s hs
  apply Acts.bind hs Acts.get
  rintro _ _ - - ⟨rfl, rfl⟩
  split
  · next d hd => exact Does.pure (hs.cache _ (cached_mem hd))
  · apply Acts.bind hs (acts_resolveNew hr hs reference)
    intro d s₁ hs₁ hkeeps hmeaning
    have hmeaning₁ : s₁.registry.meaning? reference = some d.meaning := by
      rw [hkeeps.registry]
      exact hmeaning
    apply Acts.bind hs₁ (Acts.modify (.remembered hmeaning₁))
    intro _ _ _ _ _
    exact Does.pure hmeaning

theorem resolveWithin_resolves (depth : Nat) : Resolves (μ := μ) (resolveWithin depth) := by
  induction depth with
  | zero => exact fun _ _ _ => Does.throw
  | succ depth ih => exact ih.resolveVia

theorem resolve_resolves : Resolves (μ := μ) SourceMacros.resolve := by
  intro reference s hs
  apply Acts.bind hs Acts.get
  rintro _ _ - - ⟨rfl, rfl⟩
  exact resolveWithin_resolves _ reference s hs

theorem acts_translateFolder (hs : s.Coherent) (dir : Path) :
    Acts (translateFolder dir) s fun _ _ => True := by
  unfold translateFolder translateFolderVia
  apply Acts.bind hs Acts.get
  rintro _ _ - - ⟨rfl, rfl⟩
  apply Acts.bind hs acts_ofExcept
  rintro sources _ - - ⟨-, rfl⟩
  apply acts_mapM _ _ hs
  intro file s₁ hs₁
  exact (acts_translateFile resolve_resolves hs₁ file).mono fun _ _ _ => trivial

theorem acts_bootstrapBuiltins (hs : s.Coherent) :
    Acts bootstrapBuiltins s fun _ _ => True := by
  unfold bootstrapBuiltins
  apply Acts.bind hs Acts.get
  rintro _ _ - - ⟨rfl, rfl⟩
  split
  · exact Does.pure trivial
  · apply Acts.bind hs Acts.get
    rintro _ _ - - ⟨rfl, rfl⟩
    apply Acts.bind hs acts_ofExcept
    rintro sources _ - - ⟨-, rfl⟩
    apply Acts.bind hs (acts_mapM (fun file s₁ hs₁ => acts_bootstrapFile resolve_resolves hs₁ file)
      sources hs)
    intro _ s₁ hs₁ _ _
    apply Acts.bind hs₁ acts_saveRecord
    intro _ _ _ _ _
    exact Does.pure trivial

end SourceMacros
