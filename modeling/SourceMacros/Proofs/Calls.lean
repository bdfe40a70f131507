-- Calls: what may be asked of a session, and the sessions that a history of calls leads to, while
-- the user turns to other folders and anything may happen to the files.
import SourceMacros.Proofs.Narration

namespace SourceMacros

variable {μ : Type} {s s' : Session μ}

inductive Call (μ : Type) where
  | resolve (reference : String)
  | bootstrapFile (path : Path)
  | bootstrapBuiltins
  /-- A pass over a text, after a pass that left an account. -/
  | expandText (name text : String) (account : Pass μ)
  /-- A pass over a stream from its cursor on, after a pass that left an account. -/
  | expandTokens (stream : Stream) (account : Pass μ)
  | expandFile (path : Path)
  | translateFile (path : Path)
  | translateFolder (dir : Path)

namespace Call

/-- What a call does to the session. -/
def run : Call μ → Run μ Unit
  | resolve reference => do let _ ← SourceMacros.resolve reference
  | bootstrapFile path => do let _ ← SourceMacros.bootstrapFile path
  | bootstrapBuiltins => do let _ ← SourceMacros.bootstrapBuiltins
  | expandText name text account => fun s =>
    match SourceMacros.expandText name text (s, account) with
    | .ok _ (s, _) => .ok () s
    | .error e (s, _) => .error e s
  | expandTokens stream account => fun s =>
    match PassRun.expandStream SourceMacros.resolve { session := s, stream, pass := account } with
    | .ok _ a => .ok () a.session
    | .error e a => .error e a.session
  | expandFile path => do let _ ← SourceMacros.expandFile path
  | translateFile path => do let _ ← SourceMacros.translateFile path
  | translateFolder dir => do let _ ← SourceMacros.translateFolder dir

/-- The session after a call, whether it succeeded or not. -/
def perform (c : Call μ) (s : Session μ) : Session μ := final (c.run s)

theorem perform_translateFile (path : Path) (s : Session μ) :
    (Call.translateFile path).perform s = final (SourceMacros.translateFile path s) := by
  change final ((do let _ ← SourceMacros.translateFile path) s) = _
  cases hrun : SourceMacros.translateFile path s with
  | ok target s' => rw [bind_of_ok hrun]; rfl
  | error e s' => rw [bind_of_error hrun]; rfl

end Call

theorem recounts_translateFolder (dir : Path) : Recounts (translateFolder dir) s := by
  unfold translateFolder translateFolderVia
  apply recounts_get.bind
  intro _ _
  apply recounts_ofExcept.bind
  intro sources _
  exact recounts_mapM (fun file _ => recounts_translateFile resolve_narrates file) sources

theorem recounts_bootstrapBuiltins : Recounts bootstrapBuiltins s := by
  unfold bootstrapBuiltins
  apply recounts_get.bind
  intro _ _
  split
  · exact Tells.pure trivial
  · apply recounts_get.bind
    intro _ _
    apply recounts_ofExcept.bind
    intro sources _
    apply (recounts_mapM (fun file _ => recounts_bootstrapFile resolve_narrates file) sources).bind
    intro _ _
    apply recounts_saveRecord.bind
    intro _ _
    exact Tells.pure trivial

/-- Every call unfolds by episodes, and in a call that succeeds no run of helper files fails. -/
theorem Call.recounts (c : Call μ) (s : Session μ) : Recounts c.run s := by
  cases c with
  | resolve reference => exact (resolve_narrates reference s).bind fun _ _ => Tells.pure trivial
  | bootstrapFile path =>
    exact (recounts_bootstrapFile resolve_narrates path).bind fun _ _ => Tells.pure trivial
  | bootstrapBuiltins => exact recounts_bootstrapBuiltins.bind fun _ _ => Tells.pure trivial
  | expandText name text account =>
    obtain ⟨es, hes, hsmooth⟩ := recounts_expandText resolve_narrates name text (s, account)
    unfold Recounts Tells Call.run
    dsimp only
    split
    · next heq =>
      unfold SourceMacros.expandText at heq
      rw [heq] at hes
      exact ⟨es, hes, fun _ _ _ => hsmooth _ _ heq⟩
    · next heq =>
      unfold SourceMacros.expandText at heq
      rw [heq] at hes
      exact ⟨es, hes, by intro _ _ heq; cases heq⟩
  | expandTokens stream account =>
    obtain ⟨es, hes, hsmooth⟩ :=
      recounts_expandStream (a := { session := s, stream, pass := account }) resolve_narrates
    unfold Recounts Tells Call.run
    dsimp only
    split
    · next heq =>
      rw [heq] at hes
      exact ⟨es, hes, fun _ _ _ => hsmooth _ _ heq⟩
    · next heq =>
      rw [heq] at hes
      exact ⟨es, hes, by intro _ _ heq; cases heq⟩
  | expandFile path =>
    exact (recounts_expandFile resolve_narrates path).bind fun _ _ => Tells.pure trivial
  | translateFile path =>
    exact (recounts_translateFile resolve_narrates path).bind fun _ _ => Tells.pure trivial
  | translateFolder dir => exact (recounts_translateFolder dir).bind fun _ _ => Tells.pure trivial

theorem Call.upholds (c : Call μ) (s : Session μ) : Upholds s (c.perform s) := by
  obtain ⟨_, h, _⟩ := c.recounts s
  exact h.upholds

/-- A reference that was resolved before is not resolved again. -/
theorem resolve_of_cached {reference : String} {d : Definition μ}
    (h : s.cached? reference = some d) : resolve reference s = .ok d s := by
  have hdepth : s.depth = (FileTree.pathLimit + 4 * s.tree.nodes.length + 63) + 1 := rfl
  unfold resolve
  rw [bind_of_ok (get_apply s), hdepth]
  unfold resolveWithin resolveVia
  rw [bind_of_ok (get_apply s), h]
  rfl

/-- A reference that cannot be resolved leaves the session that the call leaves. -/
theorem Call.perform_of_error {reference : String}
    (h : (value? (SourceMacros.resolve reference s)).isNone = true) :
    ∃ e, SourceMacros.resolve reference s = .error e ((Call.resolve reference).perform s) := by
  cases hrun : SourceMacros.resolve reference s with
  | ok d s₁ =>
    rw [hrun] at h
    cases h
  | error e s₁ =>
    have hcall : (Call.resolve reference).run s = .error e s₁ := bind_of_error hrun
    unfold Call.perform
    rw [hcall]
    exact ⟨e, rfl⟩

/-! ## Histories -/

/-- The sessions that calls lead to, with the episodes on the way. A call that succeeds has no run
of helper files that fails. Between calls the record may be saved and the session may be turned to
another folder, and files, the flag that stops a run and the memory of plugins may be changed by
others. -/
inductive Lived (start : Session μ) : List (Episode μ) → Session μ → Prop
  | start : Lived start [] start
  | call {es fs : List (Episode μ)} {s : Session μ} (c : Call μ) : Lived start es s →
      Unfolds s fs (c.perform s) → (∀ s', c.run s = .ok () s' → Smooth fs) →
      Lived start (es ++ fs) (c.perform s)
  | save {es : List (Episode μ)} {s : Session μ} : Lived start es s →
      Lived start es (final (Run.saveRecord s))
  | turn {es : List (Episode μ)} {s : Session μ} (root : Path) : Lived start es s →
      Lived start es { s with searchRoot := root }
  | outside {es : List (Episode μ)} {s : Session μ} (tree : FileTree) (interrupted : Bool)
      (memory : μ) : Lived start es s → Lived start es { s with tree, interrupted, memory }

/-- Any call leads on. -/
theorem Lived.after_call {start : Session μ} {es : List (Episode μ)} (h : Lived start es s)
    (c : Call μ) : ∃ fs, Lived start (es ++ fs) (c.perform s) := by
  obtain ⟨fs, hfs, hsmooth⟩ := c.recounts s
  exact ⟨fs, h.call c hfs fun s' hrun => (hsmooth () s' hrun).1⟩

end SourceMacros
