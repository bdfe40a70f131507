-- Frames of packages, references and whole operations. A reference stays in a frame when the outputs
-- of the files that the loaded manifests list do, however deep it nests.
import SourceMacros.Proofs.Calls
import SourceMacros.Proofs.Frames

namespace SourceMacros

variable {μ α : Type} {s s₁ s' : Session μ} {r : String → Run μ (Definition μ)} {C : Prop}
  {R : Session μ → Session μ → Prop}

/-! ## Packages -/

/-- Files that are handled one after the other stay in a frame when each of them does, after those
before it. -/
theorem frame_forM {β : Type} (hF : Frame C R) {f : β → Run μ PUnit} {bs : List β}
    (hb : ∀ before b after s₁, bs = before ++ b :: after → before.forM f s = .ok ⟨⟩ s₁ →
      R s₁ (final (f b s₁))) : R s (final (bs.forM f s)) := by
  induction bs generalizing s with
  | nil => exact hF.refl s
  | cons b bs ih =>
    rw [List.forM]
    apply hF.bind id (hb [] b bs s rfl rfl)
    intro _ s₁ hfirst
    apply ih
    rintro before next after s₂ rfl hbefore
    refine hb (b :: before) next after s₂ rfl ?_
    rw [List.forM, bind_of_ok hfirst]
    exact hbefore

theorem frame_mapM {β : Type} (hF : Frame C R) {f : β → Run μ α} {bs : List β}
    (hb : ∀ b s, (C → s.Coherent) → R s (final (f b s)))
    (hcoherent : ∀ b s v s₁, s.Coherent → f b s = .ok v s₁ → s₁.Coherent) (hC : C → s.Coherent) :
    R s (final (bs.mapM f s)) := by
  induction bs generalizing s with
  | nil => exact hF.refl s
  | cons b bs ih =>
    rw [List.mapM_cons]
    apply hF.bind id (hb b s hC)
    intro v s₁ hfirst
    have hC₁ : C → s₁.Coherent := fun hpure => hcoherent b s v s₁ (hC hpure) hfirst
    apply hF.bind id (ih hC₁)
    intro _ s₂ _
    exact hF.refl s₂

/-- What is asked of the resolver and written by a pass over a file stays in the frame. -/
def Framed (C : Prop) (R : Session μ → Session μ → Prop) (r : String → Run μ (Definition μ))
    (file : Path) (s : Session μ) : Prop :=
  (∀ reference s₁, AsksFor r file s reference s₁ → Sure C R r reference s₁) ∧ Puts C R file s

theorem acts_runHelpers (hr : Resolves r) (hs : s.Coherent) (dir : Path) (manifest : Manifest) :
    Acts (runHelpers r dir manifest) s fun _ _ => True := by
  refine acts_forM ?_ _ hs
  intro file s₁ hs₁
  apply Acts.bind hs₁ (acts_bootstrapFile hr hs₁ _)
  intro _ _ _ _ _
  exact Does.pure trivial

theorem frame_runHelpers (hF : Frame C R) (hr : Resolves r) (hC : C → s.Coherent) {dir : Path}
    {manifest : Manifest}
    (hfile : ∀ before file after s₁, manifest.bootstrap = before ++ file :: after →
      runHelpers r dir { manifest with bootstrap := before } s = .ok () s₁ →
      Stale s₁ (dir.join ⟨file⟩) → Framed C R r (dir.join ⟨file⟩) s₁) :
    R s (final (runHelpers r dir manifest s)) := by
  unfold runHelpers
  apply frame_forM hF
  intro before file after s₁ hfiles hbefore
  have hC₁ : C → s₁.Coherent := fun hpure =>
    (acts_runHelpers hr (hC hpure) dir { manifest with bootstrap := before }).coherent (hC hpure)
      hbefore
  have hframed := hfile before file after s₁ hfiles hbefore
  apply hF.bind id
    (frame_bootstrapFile hF hr hC₁ (fun hstale => (hframed hstale).1) fun hstale => (hframed hstale).2)
  intro _ s₂ _
  exact hF.refl s₂

theorem frame_bootstrapPackage (hF : Frame C R) (hr : Resolves r) (hC : C → s.Coherent)
    {dir : Path} {manifest : Manifest}
    (hfile : ∀ before file after s₁, s.isBootstrapped dir = false →
      manifest.bootstrap = before ++ file :: after →
      runHelpers r dir { manifest with bootstrap := before } (s.mark (s.tree.canonical dir)) =
        .ok () s₁ →
      Stale s₁ (dir.join ⟨file⟩) → Framed C R r (dir.join ⟨file⟩) s₁) :
    R s (final (bootstrapPackage r dir manifest s)) := by
  rcases bootstrapPackage_cases r dir manifest s with ⟨-, hrun⟩ | ⟨hnew, hrun⟩
  · rw [hrun]
    exact hF.refl s
  have hunmarked : s.isBootstrapped dir = false := by
    rw [Bool.eq_false_iff]
    exact fun hmarked => hnew (Session.isBootstrapped_iff.mp hmarked)
  have hmark : R s (s.mark (s.tree.canonical dir)) := hF.still ⟨rfl, rfl, Or.inl rfl, fun _ => rfl⟩
  have hhelpers := hF.trans hmark (frame_runHelpers (s := s.mark (s.tree.canonical dir)) hF hr
    (fun hpure => ⟨(hC hpure).pure, (hC hpure).cache⟩) fun before file after s₁ =>
      hfile before file after s₁ hunmarked)
  rcases hrun with ⟨e, s₁, hfailed, hrun⟩ | ⟨s₁, hdone, hrun⟩
  · rw [hfailed] at hhelpers
    rw [hrun]
    exact hF.trans hhelpers (hF.still ⟨rfl, rfl, Or.inl rfl, fun _ => rfl⟩)
  · rw [hdone] at hhelpers
    rw [hrun]
    exact hF.trans hhelpers (hF.save s₁)

theorem frame_implementationFile (hF : Frame C R) (hr : Resolves r) (hC : C → s.Coherent)
    {file : Path} {reference : String}
    (hfile : isPending s file = true → Framed C R r file s) :
    R s (final (implementationFile r file reference s)) := by
  unfold implementationFile
  dsimp only
  rw [bind_of_ok (get_apply s)]
  cases hsource : s.settings.isSource file with
  | false =>
    simp only [Bool.false_eq_true, if_false]
    rw [bind_of_ok (get_apply s)]
    cases s.tree.isFile file with
    | true => exact hF.refl s
    | false => exact hF.refl s
  | true =>
    simp only [if_true]
    rcases outputPath_cases file s with ⟨output, houtput, hrun⟩ | ⟨e, hrun⟩
    · rw [bind_of_ok hrun, bind_of_ok (get_apply s)]
      cases hmade : s.tree.isFile output with
      | true => exact hF.refl s
      | false =>
        simp only [Bool.not_false, if_true]
        rw [bind_of_ok (get_apply s)]
        cases hthere : s.tree.isFile file with
        | false => exact hF.refl s
        | true =>
          have hframed := hfile (by simp [isPending, hsource, hthere, houtput, hmade])
          simp only [Bool.not_true, Bool.false_eq_true, if_false]
          apply hF.bind id
            (frame_bootstrapFile hF hr hC (fun _ => hframed.1) fun _ => hframed.2)
          intro _ s₁ _
          apply hF.bind id (hF.save s₁)
          intro _ s₂ _
          exact hF.refl s₂
    · rw [bind_of_error hrun]
      exact hF.refl s

/-! ## References -/

/-- A reference that leads to no package leaves the session as it was. -/
theorem final_resolveNew_of_unsought {reference : String} (hnew : s.cached? reference = none)
    (h : sought? s reference = none) : final (resolveNew r reference s) = s := by
  unfold sought? at h
  rw [hnew] at h
  rcases hsplit : Pieces.splitText Directive.separator reference with
    _ | ⟨package, _ | ⟨keyword, _ | ⟨third, more⟩⟩⟩
  · simp only [resolveNew, hsplit]
    rfl
  · simp only [resolveNew, hsplit]
    split
    · rfl
    · rw [bind_of_ok (get_apply s)]
      cases resolveBuiltin s package with
      | ok d => rfl
      | error e => rfl
  · rw [hsplit] at h
    dsimp only at h
    by_cases hnames : (package == "" || keyword == "") = true
    · simp only [resolveNew, hsplit, hnames, if_true]
      rfl
    · rw [if_neg hnames] at h
      rw [Bool.not_eq_true] at hnames
      rw [resolveNew_of_package hsplit hnames]
      cases hfolder : packageFolder? s package with
      | none => rfl
      | some dir =>
        rw [hfolder] at h
        rcases loadManifest_cases (dir.join ⟨s.settings.manifestFile⟩) s with
          ⟨manifest, hfound, -⟩ | ⟨-, e, hmanifest⟩
        · simp [hfound] at h
        · dsimp only
          unfold loadPackage
          rw [bind_of_ok (get_apply s), bind_of_error hmanifest]
          rfl
  · simp only [resolveNew, hsplit]
    rfl

theorem frame_loadEntry (hF : Frame C R) (hr : Resolves r) (hC : C → s.Coherent) {dir : Path}
    {manifest : Manifest} {reference package keyword : String}
    (hhelper : ∀ before file after s₁, s.isBootstrapped dir = false →
      manifest.bootstrap = before ++ file :: after →
      runHelpers r dir { manifest with bootstrap := before } (s.mark (s.tree.canonical dir)) =
        .ok () s₁ →
      Stale s₁ (dir.join ⟨file⟩) → Framed C R r (dir.join ⟨file⟩) s₁)
    (hentry : ∀ s₁ entry, bootstrapPackage r dir manifest s = .ok () s₁ →
      manifest.entry? keyword = some entry → isPending s₁ (dir.join ⟨entry.file⟩) = true →
      Framed C R r (dir.join ⟨entry.file⟩) s₁) :
    R s (final (loadEntry r dir manifest reference package keyword s)) := by
  unfold loadEntry
  apply hF.bind id (frame_bootstrapPackage hF hr hC hhelper)
  intro _ s₁ hbootstrap
  cases hfound : manifest.entry? keyword with
  | none => exact hF.refl s₁
  | some entry =>
    have hC₁ : C → s₁.Coherent := fun hpure =>
      (acts_bootstrapPackage hr (hC hpure) dir manifest).coherent (hC hpure) hbootstrap
    apply hF.bind id (frame_implementationFile hF hr hC₁ (hentry s₁ entry hbootstrap hfound))
    intro file s₂ _
    rw [bind_of_ok (get_apply s₂)]
    cases s₂.registry.lookup (.package package keyword) with
    | none => exact hF.refl s₂
    | some plugin => exact hF.refl s₂

theorem mem_of_entry? {manifest : Manifest} {keyword : String} {entry : Entry}
    (h : manifest.entry? keyword = some entry) : entry ∈ manifest.entries :=
  List.mem_of_find?_eq_some h

/-- A reference stays in a frame when the outputs of the sources that are listed by the loaded
manifests do. -/
theorem frame_resolveWithin (hF : Frame C R) {n : Nat} {reference : String} (hC : C → s.Coherent)
    (hput : ∀ file s₁, Listed (Loads n reference s) file → s₁.settings.isSource file = true →
      Puts C R file s₁) : R s (final (resolveWithin n reference s)) := by
  induction n generalizing reference s with
  | zero => exact hF.refl s
  | succ n ih =>
    have hr : Resolves (μ := μ) (resolveWithin n) := resolveWithin_resolves n
    unfold resolveWithin resolveVia
    rw [bind_of_ok (get_apply s)]
    cases hcached : s.cached? reference with
    | some d => exact hF.refl s
    | none =>
      dsimp only
      refine hF.bind id ?_ fun d s₁ _ => hF.still ⟨rfl, rfl, Or.inl rfl, fun _ => rfl⟩
      cases hsought : sought? s reference with
      | none =>
        have hfinal : final (resolveNew (resolveWithin n) reference s) = s :=
          final_resolveNew_of_unsought hcached hsought
        rw [hfinal]
        exact hF.refl s
      | some found =>
        obtain ⟨dir, manifest, keyword⟩ := found
        obtain ⟨-, package, -, hload⟩ := resolveNew_of_sought hsought
        rw [hload]
        refine frame_loadEntry hF hr hC ?_ ?_
        · intro before file after s₁ hnew hfiles hbefore hstale
          constructor
          · intro other s₂ hasks hC₂
            refine ih hC₂ fun listed s₃ hlisted => hput listed s₃ (hlisted.mono ?_)
            intro dir' manifest' hloads
            exact .helper hsought hnew hfiles hbefore hstale hasks hloads
          · refine hput _ s₁ ⟨dir, manifest, file, .own hsought, rfl, Or.inl ?_⟩ hstale.1
            rw [hfiles]
            simp
        · intro s₁ entry hbootstrap hentry hpending
          constructor
          · intro other s₂ hasks hC₂
            refine ih hC₂ fun listed s₃ hlisted => hput listed s₃ (hlisted.mono ?_)
            intro dir' manifest' hloads
            exact .implementation hsought hbootstrap hentry hpending hasks hloads
          · have hsource : s₁.settings.isSource (dir.join ⟨entry.file⟩) = true := by
              simp only [isPending, Bool.and_eq_true] at hpending
              exact hpending.1.1
            exact hput _ s₁ ⟨dir, manifest, entry.file, .own hsought, rfl,
              Or.inr ⟨entry, mem_of_entry? hentry, rfl⟩⟩ hsource

theorem frame_resolve (hF : Frame C R) {reference : String} (hC : C → s.Coherent)
    (hput : ∀ file s₁, Listed (Loads s.depth reference s) file → s₁.settings.isSource file = true →
      Puts C R file s₁) : R s (final (resolve reference s)) := by
  unfold resolve
  rw [bind_of_ok (get_apply s)]
  exact frame_resolveWithin hF hC hput

/-- A pass over a file stays in a frame when the outputs of the sources that are listed by the
manifests it loads do. -/
theorem frame_pass (hF : Frame C R) {path : Path} (hC : C → s.Coherent)
    (hput : ∀ file s₁, Listed (LoadsIn path s) file → s₁.settings.isSource file = true →
      Puts C R file s₁) : R s (final (expandFile path s)) := by
  refine frame_expandFile hF resolve_resolves hC ?_
  intro reference s₁ hasks hC₁
  refine frame_resolve hF hC₁ fun file s₂ hlisted => hput file s₂ (hlisted.mono ?_)
  intro dir manifest hloads
  exact ⟨reference, s₁, hasks, hloads⟩

/-! ## Whole operations -/

section

variable (hF : Frame C R) (hput : ∀ file s, Puts C R file s)

include hF hput

theorem frame_answer (reference : String) (s : Session μ) : Sure C R resolve reference s :=
  fun hC => frame_resolve hF hC fun file s₁ _ _ => hput file s₁

theorem frame_translate (hC : C → s.Coherent) (path : Path) :
    R s (final (translateFile path s)) :=
  frame_translateFile hF resolve_resolves hC (fun reference s₁ _ => frame_answer hF hput reference s₁)
    (hput path s)

theorem frame_translateFolder (hC : C → s.Coherent) (dir : Path) :
    R s (final (translateFolder dir s)) := by
  unfold translateFolder translateFolderVia
  rw [bind_of_ok (get_apply s)]
  cases sourcesBelow s dir with
  | error e => exact hF.refl s
  | ok sources =>
    refine frame_mapM hF (fun file s₁ hC₁ => frame_translate hF hput hC₁ file) ?_ hC
    intro file s₁ v s₂ hs₁ hrun
    exact (acts_translateFile resolve_resolves hs₁ file).coherent hs₁ hrun

theorem frame_bootstrap (hC : C → s.Coherent) (path : Path) :
    R s (final (bootstrapFile path s)) :=
  frame_bootstrapFile hF resolve_resolves hC
    (fun _ reference s₁ _ => frame_answer hF hput reference s₁) fun _ => hput path s

theorem frame_bootstrapBuiltins (hC : C → s.Coherent) : R s (final (bootstrapBuiltins s)) := by
  unfold bootstrapBuiltins
  rw [bind_of_ok (get_apply s)]
  cases s.settings.builtinDir with
  | none => exact hF.refl s
  | some dir =>
    dsimp only
    rw [bind_of_ok (get_apply s)]
    cases builtinSources s dir with
    | error e => exact hF.refl s
    | ok sources =>
      apply hF.bind id (x := Run.ofExcept (.ok sources)) (hF.refl s)
      rintro _ _ ⟨⟩
      refine hF.bind id (frame_mapM hF (fun file s₁ hC₁ => frame_bootstrap hF hput hC₁ file) ?_ hC) ?_
      · intro file s₁ v s₂ hs₁ hrun
        exact (acts_bootstrapFile resolve_resolves hs₁ file).coherent hs₁ hrun
      · intro _ s₁ _
        apply hF.bind id (hF.save s₁)
        intro _ s₂ _
        exact hF.refl s₂

/-- Every call stays in a frame in which the output of every file may be written. -/
theorem frame_call (hC : C → s.Coherent) (c : Call μ) : R s (c.perform s) := by
  have hanswer := frame_answer hF hput
  unfold Call.perform
  cases c with
  | resolve reference =>
    exact hF.bind id (hanswer reference s hC) fun _ s₁ _ => hF.refl s₁
  | bootstrapFile path =>
    exact hF.bind id (frame_bootstrap hF hput hC path) fun _ s₁ _ => hF.refl s₁
  | bootstrapBuiltins =>
    exact hF.bind id (frame_bootstrapBuiltins hF hput hC) fun _ s₁ _ => hF.refl s₁
  | expandText name text account =>
    have hpass : R s (final (expandTextVia resolve name text (s, account))).1 :=
      frame_expandText hF resolve_resolves hC fun _ _ a₁ reference _ _ _ =>
        hanswer reference a₁.session
    unfold Call.run
    dsimp only
    split
    · next heq =>
      unfold SourceMacros.expandText at heq
      rw [heq] at hpass
      exact hpass
    · next heq =>
      unfold SourceMacros.expandText at heq
      rw [heq] at hpass
      exact hpass
  | expandTokens stream account =>
    have hpass := frame_expandStream (a := { session := s, stream, pass := account }) hF
      resolve_resolves hC fun _ a₁ reference _ _ => hanswer reference a₁.session
    unfold Call.run
    dsimp only
    split
    · next heq =>
      rw [heq] at hpass
      exact hpass
    · next heq =>
      rw [heq] at hpass
      exact hpass
  | expandFile path =>
    refine hF.bind id (frame_expandFile hF resolve_resolves hC fun reference s₁ _ =>
      hanswer reference s₁) fun _ s₁ _ => hF.refl s₁
  | translateFile path =>
    exact hF.bind id (frame_translate hF hput hC path) fun _ s₁ _ => hF.refl s₁
  | translateFolder dir =>
    exact hF.bind id (frame_translateFolder hF hput hC dir) fun _ s₁ _ => hF.refl s₁

end

end SourceMacros
