-- Every operation on a session unfolds by episodes: passes, files, packages and references. They
-- call each other, so what is said of a resolver is assumed of the resolver they are given, and
-- then holds at every depth.
import SourceMacros.Proofs.Episodes

namespace SourceMacros

variable {μ α : Type} {s : Session μ} {resolve : String → Run μ (Definition μ)}

/-- A resolver that unfolds by episodes, whatever it is asked for. -/
def Narrates (resolve : String → Run μ (Definition μ)) : Prop :=
  ∀ reference s, Recounts (resolve reference) s

/-! ## Passes -/

section

open PassRun

variable {a : PassState μ}

/-- An operation of a pass whose session unfolds by episodes. -/
abbrev PassRecounts (run : PassRun μ α) (a : PassState μ) : Prop :=
  Tells PassState.session run a fun _ _ _ => True

theorem PassRecounts.bind {β : Type} {run : PassRun μ α} {next : α → PassRun μ β}
    (h : PassRecounts run a) (hnext : ∀ v a₁, PassRecounts (next v) a₁) :
    PassRecounts (run >>= next) a :=
  Tells.bind h fun _ v a₁ _ _ => hnext v a₁

theorem recounts_update (f : Pass μ → Pass μ) : PassRecounts (update f) a :=
  Tells.of_same rfl fun _ _ _ => trivial

theorem recounts_onSession {run : Run μ α} (h : Recounts run a.session) :
    PassRecounts (onSession run) a := by
  obtain ⟨es, hes, hsmooth⟩ := h
  unfold PassRecounts Tells onSession
  cases hrun : run a.session with
  | ok v session =>
    rw [hrun] at hes
    exact ⟨es, hes, fun _ _ _ => hsmooth v session hrun⟩
  | error e session =>
    rw [hrun] at hes
    exact ⟨es, hes, by intro _ _ heq; cases heq⟩

/-- A parser may set the flag that stops a run and change what plugins remember, and no more. -/
theorem recounts_onStream (parse : Parser μ α) : PassRecounts (onStream parse) a := by
  refine Tells.calm ?_ fun _ _ _ => trivial
  unfold onStream
  dsimp only
  split
  · exact ⟨rfl, rfl, rfl, rfl, rfl, .refl _⟩
  · exact ⟨rfl, rfl, rfl, rfl, rfl, .refl _⟩

theorem recounts_replaceFrom (start : Nat) : PassRecounts (replaceFrom start) a :=
  Tells.of_same rfl fun _ _ _ => trivial

theorem recounts_importDirective (hr : Narrates resolve) (keyword : Token) (start : Nat) :
    PassRecounts (importDirective resolve keyword start) a := by
  unfold importDirective
  apply (recounts_update _).bind
  intro _ _
  apply (recounts_onStream _).bind
  intro directive a₁
  apply (recounts_onSession (hr directive.reference a₁.session)).bind
  intro _ _
  apply (recounts_update _).bind
  intro _ _
  apply (recounts_update _).bind
  intro _ _
  exact recounts_replaceFrom start

theorem recounts_invocation (d : Definition μ) (keyword : Token) (start : Nat) :
    PassRecounts (invocation d keyword start) a := by
  unfold invocation
  apply (recounts_update _).bind
  intro _ _
  apply (recounts_onStream _).bind
  intro _ _
  apply (recounts_update _).bind
  intro _ _
  exact recounts_replaceFrom start

theorem recounts_plain (token : Token) : PassRecounts (plain token) a := by
  rcases plain_eq (μ := μ) token with heq | heq
  · rw [heq]
    exact Tells.pure trivial
  · rw [heq]
    exact recounts_update _

theorem recounts_step (hr : Narrates resolve) : PassRecounts (step resolve) a := by
  unfold step
  apply Tells.bind Tells.get
  rintro _ b _ - rfl
  split
  · exact Tells.throw_bind
  · refine PassRecounts.bind (Tells.of_same ?_ fun _ _ _ => trivial) ?_
    · rfl
    intro _ a₁
    split
    · exact recounts_update _
    · exact recounts_update _
    · split
      · exact recounts_importDirective hr _ _
      · split
        · exact recounts_invocation _ _ _
        · exact recounts_plain _
    · exact recounts_plain _

theorem recounts_steps (hr : Narrates resolve) (n : Nat) : PassRecounts (steps resolve n) a := by
  induction n generalizing a with
  | zero => exact Tells.pure trivial
  | succ n ih =>
    unfold steps
    apply PassRecounts.bind (Tells.get.mono fun _ _ _ _ _ => trivial)
    intro _ _
    split
    · exact Tells.pure trivial
    · exact (recounts_step hr).bind fun _ _ => ih

theorem recounts_expandStream (hr : Narrates resolve) : PassRecounts (expandStream resolve) a := by
  unfold expandStream
  apply (recounts_update _).bind
  intro _ _
  apply PassRecounts.bind (Tells.get.mono fun _ _ _ _ _ => trivial)
  intro _ _
  apply (recounts_steps hr _).bind
  intro _ _
  apply PassRecounts.bind (Tells.get.mono fun _ _ _ _ _ => trivial)
  intro _ _
  apply (recounts_update _).bind
  intro _ _
  apply PassRecounts.bind (Tells.get.mono fun _ _ _ _ _ => trivial)
  intro _ _
  exact Tells.pure trivial

end

/-! ## Files -/

theorem recounts_expandText (hr : Narrates resolve) (name text : String)
    (a : Session μ × Pass μ) :
    Tells Prod.fst (expandTextVia resolve name text) a fun _ _ _ => True := by
  unfold Tells expandTextVia
  dsimp only
  split
  · exact ⟨[], .refl _, by intro _ _ heq; cases heq⟩
  · next stream _ =>
    obtain ⟨es, hes, hsmooth⟩ :=
      recounts_expandStream (a := { session := a.1, stream, pass := a.2 }) hr
    split
    · next hrun =>
      rw [hrun] at hes
      exact ⟨es, hes, fun _ _ _ => hsmooth _ _ hrun⟩
    · next hrun =>
      rw [hrun] at hes
      exact ⟨es, hes, by intro _ _ heq; cases heq⟩

theorem recounts_freshPass {run : ExpandRun μ α}
    (h : Tells Prod.fst run (s, {}) fun _ _ _ => True) : Recounts (freshPass run) s := by
  obtain ⟨es, hes, hsmooth⟩ := h
  unfold Recounts Tells freshPass
  cases hrun : run (s, {}) with
  | ok v after =>
    rw [hrun] at hes
    exact ⟨es, hes, fun _ _ _ => hsmooth v after hrun⟩
  | error e after =>
    rw [hrun] at hes
    exact ⟨es, hes, by intro _ _ heq; cases heq⟩

theorem recounts_withSearchRoot {root : Path} {run : Run μ α}
    (h : Recounts run { s with searchRoot := root }) : Recounts (withSearchRoot root run) s := by
  obtain ⟨es, hes, hsmooth⟩ := h
  unfold Recounts Tells withSearchRoot
  cases hrun : run { s with searchRoot := root } with
  | ok v s₁ =>
    rw [hrun] at hes
    exact ⟨es, .turned hes, fun _ _ _ => hsmooth v s₁ hrun⟩
  | error e s₁ =>
    rw [hrun] at hes
    exact ⟨es, .turned hes, by intro _ _ heq; cases heq⟩

theorem recounts_expandFile (hr : Narrates resolve) (path : Path) :
    Recounts (expandFileVia resolve path) s := by
  unfold expandFileVia
  apply (recounts_readText path).bind
  intro text s₁
  exact recounts_withSearchRoot (recounts_freshPass (recounts_expandText hr _ text _))

theorem recounts_translateFile (hr : Narrates resolve) (path : Path) :
    Recounts (translateFileVia resolve path) s := by
  unfold translateFileVia
  apply (recounts_expandFile hr path).bind
  intro output _
  apply (recounts_outputPath path).bind
  intro target _
  split
  · exact Tells.throw_bind
  · apply (recounts_writeThrough target output).bind
    intro _ _
    exact Tells.pure trivial

theorem recounts_bootstrapFile (hr : Narrates resolve) (path : Path) :
    Recounts (bootstrapFileVia resolve path) s := by
  unfold bootstrapFileVia
  apply recounts_get.bind
  intro _ _
  split
  · exact Tells.pure trivial
  · apply (recounts_digest path).bind
    intro _ _
    apply (recounts_outputPath path).bind
    intro _ _
    apply recounts_get.bind
    intro _ _
    split
    · exact Tells.pure trivial
    · apply (recounts_translateFile hr path).bind
      intro _ _
      refine Recounts.bind (Tells.calm ?_ fun _ _ _ => trivial) ?_
      · exact ⟨rfl, rfl, rfl, rfl, rfl, .refl _⟩
      intro _ _
      exact Tells.pure trivial

theorem recounts_mapM {β : Type} {f : β → Run μ α} (hf : ∀ b s, Recounts (f b) s) (bs : List β) :
    Recounts (bs.mapM f) s := by
  induction bs generalizing s with
  | nil => exact Tells.pure trivial
  | cons b bs ih =>
    rw [List.mapM_cons]
    apply (hf b s).bind
    intro _ _
    apply ih.bind
    intro _ _
    exact Tells.pure trivial

/-! ## Packages -/

theorem recounts_runHelpers (hr : Narrates resolve) (dir : Path) (manifest : Manifest) :
    Recounts (runHelpers resolve dir manifest) s := by
  unfold runHelpers
  induction manifest.bootstrap generalizing s with
  | nil => exact Tells.pure trivial
  | cons file files ih =>
    refine Recounts.bind ?_ fun _ _ => ih
    apply (recounts_bootstrapFile hr _).bind
    intro _ _
    exact Tells.pure trivial

theorem Smooth.completed {es : List (Episode μ)} (h : Smooth es) (folder : Path) :
    Smooth (.began folder :: es ++ [.completed folder]) := by
  intro other hmem
  rcases List.mem_append.mp hmem with hmem | hmem
  · rcases List.mem_cons.mp hmem with heq | hmem
    · cases heq
    · exact h other hmem
  · cases List.mem_singleton.mp hmem

/-- A package is marked after it was bootstrapped. -/
theorem tells_bootstrapPackage (hr : Narrates resolve) (dir : Path) (manifest : Manifest)
    (s : Session μ) :
    Tells (fun s => s) (bootstrapPackage resolve dir manifest) s fun es _ s' =>
      .found dir (s.tree.canonical dir) ∈ es ∧ s'.Marked (s.tree.canonical dir) := by
  have hfound := Unfolds.found s dir
  have hstart : Smooth [Episode.found (μ := μ) dir (s.tree.canonical dir)] := by simp [Smooth]
  unfold Tells
  rcases bootstrapPackage_cases resolve dir manifest s with ⟨hmarked, hrun⟩ | ⟨hnew, hrun⟩
  · rw [hrun]
    refine ⟨_, hfound, ?_⟩
    intro _ _ heq
    cases heq
    exact ⟨hstart, by simp, hmarked⟩
  · obtain ⟨es, hes, hsmooth⟩ :=
      recounts_runHelpers (s := s.mark (s.tree.canonical dir)) hr dir manifest
    rcases hrun with ⟨e, s₁, hhelpers, hrun⟩ | ⟨s₁, hhelpers, hrun⟩
    · rw [hhelpers] at hes
      rw [hrun]
      exact ⟨_, hfound.append (.withdrew hnew hhelpers hes), by intro _ _ heq; cases heq⟩
    · rw [hhelpers] at hes
      obtain ⟨fs, hfs, hsaved⟩ := recounts_saveRecord (s := s₁)
      rw [hrun]
      refine ⟨_, hfound.append ((Unfolds.completed hnew hhelpers hes).append hfs), ?_⟩
      intro _ s' heq
      rw [heq] at hfs
      refine ⟨?_, by simp, ?_⟩
      · have hrun : Smooth _ := (hsmooth _ s₁ hhelpers).1.completed (s.tree.canonical dir)
        exact hstart.append (hrun.append (hsaved _ s' heq).1)
      · apply hfs.upholds.marked
        apply hes.upholds.marked
        exact Session.marked_mark.mpr (Or.inl (Path.same_refl _))

theorem recounts_implementationFile (hr : Narrates resolve) (file : Path) (reference : String) :
    Recounts (implementationFile resolve file reference) s := by
  unfold implementationFile
  apply recounts_get.bind
  intro _ _
  split
  · apply (recounts_outputPath file).bind
    intro output _
    apply recounts_get.bind
    intro _ _
    split
    · apply recounts_get.bind
      intro _ _
      split
      · exact Tells.throw_bind
      · apply (recounts_bootstrapFile hr file).bind
        intro _ _
        apply recounts_saveRecord.bind
        intro _ _
        exact Tells.pure trivial
    · exact Tells.pure trivial
  · apply recounts_get.bind
    intro _ _
    split
    · exact Tells.throw_bind
    · exact Tells.pure trivial

/-- A macro of a package comes with the plugin that the registry has for it, from a package that is
marked. -/
theorem tells_loadPackage (hr : Narrates resolve) (dir : Path)
    (reference package keyword : String) (s : Session μ) :
    Tells (fun s => s) (loadPackage resolve dir reference package keyword) s fun es d s' =>
      (s'.registry.lookup (.package package keyword)).map (keyword, ·) = some d.meaning ∧
        d.Housed es s' := by
  unfold loadPackage
  apply Tells.bind Tells.get
  rintro _ _ s₀ - rfl
  apply Tells.bind (recounts_loadManifest _)
  intro _ manifest s₁ _ _
  apply Tells.bind (tells_bootstrapPackage hr dir manifest s₁)
  rintro es _ s₂ - ⟨hfound, hmarked⟩
  split
  · exact Tells.throw
  · apply Tells.bind (recounts_implementationFile hr _ reference)
    intro fs file s₃ hfs _
    apply Tells.bind Tells.get
    rintro _ _ s₄ hgs rfl
    split
    · exact Tells.throw
    · next plugin hplugin =>
      refine Tells.pure ⟨by rw [hplugin]; rfl, ?_⟩
      rintro _ _ _ ⟨⟩
      refine ⟨s₁.tree.canonical dir, by simp [hfound], ?_⟩
      exact hgs.upholds.marked (hfs.upholds.marked hmarked)

/-! ## References -/

theorem resolveBuiltin_origin {keyword : String} {d : Definition μ}
    (h : resolveBuiltin s keyword = .ok d) : ∃ file, d.origin = .builtin file := by
  unfold resolveBuiltin at h
  dsimp only [bind, Except.bind] at h
  split at h
  · split at h
    · cases h
      exact ⟨_, rfl⟩
    · cases h
  · split at h
    · split at h
      · cases h
        exact ⟨_, rfl⟩
      · cases h
    · cases h

theorem tells_resolveNew (hr : Narrates resolve) (reference : String) (s : Session μ) :
    Tells (fun s => s) (resolveNew resolve reference) s fun es d s' =>
      s'.registry.meaning? reference = some d.meaning ∧ d.Housed es s' := by
  unfold resolveNew
  split
  · next keyword hsplit =>
    split
    · exact Tells.throw_bind
    · apply Tells.bind Tells.get
      rintro _ s _ - rfl
      cases hd : resolveBuiltin s keyword with
      | error e => exact Tells.throw
      | ok d =>
        refine Tells.pure ⟨?_, ?_⟩
        · unfold Registry.meaning?
          rw [hsplit]
          exact resolveBuiltin_eq_ok hd
        · intro dir name file horigin
          obtain ⟨found, hbuiltin⟩ := resolveBuiltin_origin hd
          rw [hbuiltin] at horigin
          cases horigin
  · next package keyword hsplit =>
    split
    · exact Tells.throw_bind
    · apply Tells.bind Tells.get
      rintro _ s _ - rfl
      split
      · exact Tells.throw
      · apply (tells_loadPackage hr _ _ _ _ s).mono
        rintro fs d s' - ⟨hd, hhoused⟩
        refine ⟨?_, ?_⟩
        · unfold Registry.meaning?
          rw [hsplit]
          exact hd
        · intro dir name file horigin
          obtain ⟨folder, hfound, hmarked⟩ := hhoused dir name file horigin
          exact ⟨folder, List.mem_append_right _ hfound, hmarked⟩
  · exact Tells.throw

/-- One more level of nesting. -/
theorem Narrates.resolveVia (hr : Narrates resolve) : Narrates (resolveVia resolve) := by
  intro reference s
  unfold Recounts Tells SourceMacros.resolveVia
  rw [bind_of_ok (get_apply s)]
  cases hcached : s.cached? reference with
  | some d => exact ⟨[], .refl s, fun _ _ _ => ⟨by simp [Smooth], trivial⟩⟩
  | none =>
    obtain ⟨es, hes, hpost⟩ := tells_resolveNew hr reference s
    dsimp only
    cases hrun : resolveNew resolve reference s with
    | error e s₁ =>
      rw [hrun] at hes
      rw [bind_of_error hrun]
      exact ⟨es, hes, by intro _ _ heq; cases heq⟩
    | ok d s₁ =>
      obtain ⟨hsmooth, hmeaning, hhoused⟩ := hpost d s₁ hrun
      rw [hrun] at hes
      rw [bind_of_ok hrun]
      refine ⟨_, Unfolds.learned hcached hes hmeaning hhoused, ?_⟩
      intro _ _ _
      exact ⟨hsmooth.append (by simp [Smooth]), trivial⟩

theorem resolveWithin_narrates (depth : Nat) : Narrates (μ := μ) (resolveWithin depth) := by
  induction depth with
  | zero => exact fun _ _ => Tells.throw
  | succ depth ih => exact ih.resolveVia

theorem resolve_narrates : Narrates (μ := μ) SourceMacros.resolve := by
  intro reference s
  apply Tells.bind Tells.get
  rintro _ s _ - rfl
  exact resolveWithin_narrates _ reference s

end SourceMacros
