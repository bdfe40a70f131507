-- Every noted operation does what the operation without a log does, and what it notes accounts for
-- the marks of the session. What is said of a resolver is assumed of the resolver that an operation
-- is given, and then holds at every depth.
import SourceMacros.Proofs.NotedRuns

namespace SourceMacros

variable {μ σ τ α β : Type} {s : Session μ}

/-! ## Marks that stay -/

/-- An operation that never changes a mark. -/
def KeepsMarks (x : Run μ α) : Prop := ∀ s, (final (x s)).bootstrapped = s.bootstrapped

namespace KeepsMarks

theorem of_same {x : Run μ α} (h : ∀ s, final (x s) = s) : KeepsMarks x := fun s => by rw [h s]

theorem bind {x : Run μ α} {f : α → Run μ β} (h : KeepsMarks x) (hf : ∀ a, KeepsMarks (f a)) :
    KeepsMarks (x >>= f) := by
  intro s
  have hx := h s
  cases hrun : x s with
  | ok a s₁ =>
    rw [hrun] at hx
    rw [bind_of_ok hrun, hf a s₁]
    exact hx
  | error e s₁ =>
    rw [hrun] at hx
    rw [bind_of_error hrun]
    exact hx

theorem get : KeepsMarks (MonadState.get : Run μ (Session μ)) := of_same fun _ => rfl

theorem ofExcept (result : Except Error α) : KeepsMarks (Run.ofExcept result : Run μ α) := by
  apply of_same
  intro s
  cases result <;> rfl

theorem ofIo (path : Path) (result : Except IoCause α) :
    KeepsMarks (Run.ofIo path result : Run μ α) := by
  apply of_same
  intro s
  cases result <;> rfl

theorem readText (path : Path) : KeepsMarks (Run.readText path : Run μ String) :=
  get.bind fun _ => ofIo path _

theorem digest (path : Path) : KeepsMarks (Run.digest path : Run μ String) :=
  get.bind fun _ => (ofIo path _).bind fun _ => of_same fun _ => rfl

theorem outputPath (path : Path) : KeepsMarks (Run.outputPath path : Run μ Path) :=
  get.bind fun _ => ofExcept _

theorem loadManifest (path : Path) : KeepsMarks (Run.loadManifest path : Run μ Manifest) := by
  apply get.bind
  intro s
  split
  · exact of_same fun _ => rfl
  · split
    · exact of_same fun _ => rfl
    · exact of_same fun _ => rfl

theorem setTree (tree : FileTree) :
    KeepsMarks (modify fun s => { s with tree } : Run μ PUnit) := fun _ => rfl

theorem writeThrough (target : Path) (text : String) :
    KeepsMarks (Run.writeThrough target text : Run μ Unit) := by
  unfold Run.writeThrough
  apply get.bind
  intro s
  apply (ofIo _ _).bind
  intro tree
  apply (setTree tree).bind
  intro _
  split
  · exact setTree _
  · split
    · exact (setTree _).bind fun _ => of_same fun _ => rfl
    · exact of_same fun _ => rfl

theorem saveRecord : KeepsMarks (Run.saveRecord : Run μ Unit) :=
  fun s => (calm_saveRecord s).bootstrapped

end KeepsMarks

/-! ## Noted operations -/

/-- The noted operation does what the plain one does, and the notes that it adds lead from the marks
before it to those after it. -/
def Notes (look : σ → Session μ) (noted : NotedRun σ α) (plain : EStateM Error σ α) (s : σ) :
    Prop :=
  ∃ notes, Logs (look s) notes (look (final (plain s))) ∧
    ∀ log, noted (s, log) = beside (log ++ notes) (plain s)

namespace Notes

variable {look : σ → Session μ} {a : σ}

theorem quiet {x : EStateM Error σ α}
    (h : (look (final (x a))).bootstrapped = (look a).bootstrapped) :
    Notes look (Noted.quiet x) x a := by
  refine ⟨[], .still h, ?_⟩
  intro log
  rw [List.append_nil]
  rfl

theorem pure {v : α} : Notes look (Pure.pure v) (Pure.pure v) a :=
  ⟨[], .still rfl, fun log => by rw [List.append_nil]; rfl⟩

theorem throw {e : Error} :
    Notes look (MonadExcept.throw e : NotedRun σ α) (MonadExcept.throw e) a :=
  ⟨[], .still rfl, fun log => by rw [List.append_nil]; rfl⟩

/-- One operation after another. -/
theorem bind {noted : NotedRun σ α} {plain : EStateM Error σ α} {next : α → NotedRun σ β}
    {next' : α → EStateM Error σ β} (h : Notes look noted plain a)
    (hnext : ∀ v a₁, plain a = .ok v a₁ → Notes look (next v) (next' v) a₁) :
    Notes look (noted >>= next) (plain >>= next') a := by
  obtain ⟨notes, hlogs, hsame⟩ := h
  cases hrun : plain a with
  | error e a₁ =>
    rw [hrun] at hlogs
    refine ⟨notes, by rw [bind_of_error hrun]; exact hlogs, ?_⟩
    intro log
    have hnoted : noted (a, log) = .error e (a₁, log ++ notes) := by rw [hsame, hrun]; rfl
    rw [bind_of_error hrun, bind_of_error hnoted]
    rfl
  | ok v a₁ =>
    rw [hrun] at hlogs
    obtain ⟨later, hlater, hsame'⟩ := hnext v a₁ hrun
    refine ⟨notes ++ later, by rw [bind_of_ok hrun]; exact hlogs.append hlater, ?_⟩
    intro log
    have hnoted : noted (a, log) = .ok v (a₁, log ++ notes) := by rw [hsame, hrun]; rfl
    rw [bind_of_ok hrun, bind_of_ok hnoted, hsame', List.append_assoc]

/-- What was read is the state. -/
theorem get_bind {next : σ → NotedRun σ β} {next' : σ → EStateM Error σ β}
    (h : Notes look (next a) (next' a) a) :
    Notes look (Noted.quiet MonadState.get >>= next) (MonadState.get >>= next') a := by
  apply bind (quiet rfl)
  intro v a₁ hget
  cases hget
  exact h

/-- Nothing comes behind a failure. -/
theorem throw_bind {e : Error} {next : α → NotedRun σ β} {next' : α → EStateM Error σ β} :
    Notes look (MonadExcept.throw e >>= next) (MonadExcept.throw e >>= next') a := by
  apply bind throw
  intro v a₁ hthrow
  cases hthrow

/-- An operation on another state. -/
theorem zoom (look' : τ → Session μ) (inner : EStateM Error τ α) {focus : σ → τ}
    {back : σ → τ → σ} {noted : NotedRun τ α} {outer : EStateM Error σ α}
    (h : Notes look' noted inner (focus a))
    (hok : ∀ v t, inner (focus a) = .ok v t → outer a = .ok v (back a t))
    (herror : ∀ e t, inner (focus a) = .error e t → outer a = .error e (back a t))
    (hin : (look' (focus a)).bootstrapped = (look a).bootstrapped)
    (hout : ∀ t, (look (back a t)).bootstrapped = (look' t).bootstrapped) :
    Notes look (Noted.zoom focus back noted) outer a := by
  obtain ⟨notes, hlogs, hsame⟩ := h
  refine ⟨notes, ?_, ?_⟩
  · cases hrun : inner (focus a) with
    | ok v t =>
      rw [hrun] at hlogs
      rw [hok v t hrun]
      exact hlogs.of_marks hin.symm (hout t)
    | error e t =>
      rw [hrun] at hlogs
      rw [herror e t hrun]
      exact hlogs.of_marks hin.symm (hout t)
  · intro log
    unfold Noted.zoom
    dsimp only
    rw [hsame]
    cases hrun : inner (focus a) with
    | ok v t => rw [hok v t hrun]; rfl
    | error e t => rw [herror e t hrun]; rfl

end Notes

/-- An operation on a session that is noted. -/
abbrev SessionNotes (noted : NotedRun (Session μ) α) (plain : Run μ α) (s : Session μ) : Prop :=
  Notes (fun s => s) noted plain s

theorem KeepsMarks.notes {x : Run μ α} (h : KeepsMarks x) : SessionNotes (Noted.quiet x) x s :=
  .quiet (h s)

theorem notes_mapM {noted : β → NotedRun (Session μ) α} {plain : β → Run μ α}
    (h : ∀ b s, SessionNotes (noted b) (plain b) s) (bs : List β) :
    SessionNotes (bs.mapM noted) (bs.mapM plain) s := by
  induction bs generalizing s with
  | nil => exact .pure
  | cons b bs ih =>
    rw [List.mapM_cons, List.mapM_cons]
    apply (h b s).bind
    intro _ _ _
    apply ih.bind
    intro _ _ _
    exact .pure

/-- A noted resolver and the resolver without a log. -/
def ResolverNotes (noted : String → NotedRun (Session μ) (Definition μ))
    (plain : String → Run μ (Definition μ)) : Prop :=
  ∀ reference s, SessionNotes (noted reference) (plain reference) s

/-! ## Passes -/

variable {noted : String → NotedRun (Session μ) (Definition μ)}
  {plain : String → Run μ (Definition μ)}

section

open PassRun

variable {a : PassState μ}

abbrev PassNotes (noted : NotedRun (PassState μ) α) (plain : PassRun μ α) (a : PassState μ) :
    Prop := Notes PassState.session noted plain a

theorem notes_update (f : Pass μ → Pass μ) : PassNotes (Noted.quiet (update f)) (update f) a :=
  .quiet rfl

theorem notes_onStream (parse : Parser μ α) :
    PassNotes (Noted.quiet (onStream parse)) (onStream parse) a := by
  apply Notes.quiet
  unfold onStream
  dsimp only
  split <;> rfl

theorem notes_invocation (d : Definition μ) (keyword : Token) (start : Nat) :
    PassNotes (Noted.quiet (invocation d keyword start)) (invocation d keyword start) a := by
  apply Notes.quiet
  unfold invocation onStream
  rw [bind_of_ok (update_apply _ _)]
  cases hexpand : d.plugin.expand ⟨a.stream, a.session.interrupted, a.session.memory⟩ with
  | ok text p =>
    simp only [bind, EStateM.bind, hexpand]
    rfl
  | error e p =>
    simp only [bind, EStateM.bind, hexpand]
    rfl

theorem notes_plain (token : Token) :
    PassNotes (Noted.quiet (PassRun.plain token)) (PassRun.plain token) a := by
  apply Notes.quiet
  rcases plain_eq (μ := μ) token with heq | heq
  · rw [heq]
    rfl
  · rw [heq]
    rfl

theorem notes_importDirective (h : ResolverNotes noted plain) (keyword : Token) (start : Nat) :
    PassNotes (Noted.importDirective noted keyword start) (importDirective plain keyword start)
      a := by
  unfold Noted.importDirective importDirective
  apply (notes_update _).bind
  intro _ _ _
  apply (notes_onStream _).bind
  intro directive a₁ _
  have hsession : PassNotes (Noted.onSession (noted directive.reference))
      (onSession (plain directive.reference)) a₁ :=
    .zoom (fun s => s) _ (h directive.reference a₁.session)
      (fun _ _ hrun => by simp [onSession, hrun]) (fun _ _ hrun => by simp [onSession, hrun]) rfl
      fun _ => rfl
  apply hsession.bind
  intro _ _ _
  apply (notes_update _).bind
  intro _ _ _
  apply (notes_update _).bind
  intro _ _ _
  exact .quiet rfl

theorem notes_step (h : ResolverNotes noted plain) :
    PassNotes (Noted.step noted) (step plain) a := by
  unfold Noted.step step
  apply Notes.get_bind
  split
  · exact .throw_bind
  · apply Notes.bind (.quiet rfl)
    intro _ _ _
    cases a.stream.peek.kind with
    | indent | dedent => exact notes_update _
    | name =>
      dsimp only
      split
      · exact notes_importDirective h _ _
      · cases a.pass.trigger? a.stream.peek.text with
        | some definition => exact notes_invocation _ _ _
        | none => exact notes_plain _
    | _ => exact notes_plain _

theorem notes_steps (h : ResolverNotes noted plain) (n : Nat) :
    PassNotes (Noted.steps noted n) (steps plain n) a := by
  induction n generalizing a with
  | zero => exact .pure
  | succ n ih =>
    unfold Noted.steps steps
    apply Notes.get_bind
    split
    · exact .pure
    · exact (notes_step h).bind fun _ _ _ => ih

theorem notes_expandStream (h : ResolverNotes noted plain) :
    PassNotes (Noted.expandStream noted) (expandStream plain) a := by
  unfold Noted.expandStream expandStream
  apply (notes_update _).bind
  intro _ _ _
  apply Notes.get_bind
  apply (notes_steps h _).bind
  intro _ _ _
  apply Notes.get_bind
  apply (notes_update _).bind
  intro _ _ _
  apply Notes.get_bind
  exact .pure

end

/-! ## Files -/

theorem notes_expandText (h : ResolverNotes noted plain) (name text : String)
    (a : Session μ × Pass μ) :
    Notes Prod.fst (Noted.expandText noted name text) (expandTextVia plain name text) a := by
  unfold Noted.expandText
  cases hstream : Stream.ofSource name text with
  | error fault =>
    have hfails : expandTextVia plain name text a = .error (.grammar fault) a := by
      simp [expandTextVia, hstream]
    refine ⟨[], .still (by rw [hfails]; rfl), ?_⟩
    intro log
    rw [hfails, List.append_nil]
    rfl
  | ok stream =>
    refine Notes.zoom PassState.session _ (notes_expandStream h) ?_ ?_ rfl fun _ => rfl
    · intro _ _ hrun
      simp [expandTextVia, hstream, hrun]
    · intro _ _ hrun
      simp [expandTextVia, hstream, hrun]

theorem notes_freshPass {noted : NotedRun (Session μ × Pass μ) α} {plain : ExpandRun μ α}
    (h : Notes Prod.fst noted plain (s, {})) :
    SessionNotes (Noted.freshPass noted) (freshPass plain) s := by
  refine Notes.zoom Prod.fst plain ?_ ?_ ?_ rfl fun _ => rfl
  · exact h
  · intro _ _ hrun
    simp [freshPass, hrun]
  · intro _ _ hrun
    simp [freshPass, hrun]

theorem notes_withSearchRoot {root : Path} {noted : NotedRun (Session μ) α} {plain : Run μ α}
    (h : SessionNotes noted plain { s with searchRoot := root }) :
    SessionNotes (Noted.withSearchRoot root noted) (withSearchRoot root plain) s := by
  refine Notes.zoom (fun s => s) plain ?_ ?_ ?_ rfl fun _ => rfl
  · exact h
  · intro _ _ hrun
    simp [withSearchRoot, hrun]
  · intro _ _ hrun
    simp [withSearchRoot, hrun]

theorem notes_expandFile (h : ResolverNotes noted plain) (path : Path) :
    SessionNotes (Noted.expandFile noted path) (expandFileVia plain path) s := by
  unfold Noted.expandFile expandFileVia
  apply (KeepsMarks.readText path).notes.bind
  intro text s₁ _
  exact notes_withSearchRoot (notes_freshPass (notes_expandText h _ text _))

theorem notes_translateFile (h : ResolverNotes noted plain) (path : Path) (s : Session μ) :
    SessionNotes (Noted.translateFile noted path) (translateFileVia plain path) s := by
  unfold Noted.translateFile translateFileVia
  apply (notes_expandFile h path).bind
  intro output _ _
  apply (KeepsMarks.outputPath path).notes.bind
  intro target _ _
  split
  · exact .throw_bind
  · apply (KeepsMarks.writeThrough target output).notes.bind
    intro _ _ _
    exact .pure

theorem notes_translateFolder (h : ResolverNotes noted plain) (dir : Path) :
    SessionNotes (Noted.translateFolder noted dir) (translateFolderVia plain dir) s := by
  unfold Noted.translateFolder translateFolderVia
  apply Notes.get_bind
  apply (KeepsMarks.ofExcept _).notes.bind
  intro sources _ _
  exact notes_mapM (notes_translateFile h) sources

theorem notes_bootstrapFile (h : ResolverNotes noted plain) (path : Path) (s : Session μ) :
    SessionNotes (Noted.bootstrapFile noted path) (bootstrapFileVia plain path) s := by
  unfold Noted.bootstrapFile bootstrapFileVia
  apply Notes.get_bind
  split
  · exact .pure
  · apply (KeepsMarks.digest path).notes.bind
    intro _ _ _
    apply (KeepsMarks.outputPath path).notes.bind
    intro _ _ _
    apply Notes.get_bind
    split
    · exact .pure
    · apply (notes_translateFile h path _).bind
      intro _ _ _
      apply Notes.bind (.quiet rfl)
      intro _ _ _
      exact .pure

/-! ## Packages -/

theorem notes_runHelpers (h : ResolverNotes noted plain) (dir : Path) (manifest : Manifest)
    (s : Session μ) :
    SessionNotes (Noted.runHelpers noted dir manifest) (runHelpers plain dir manifest) s := by
  unfold Noted.runHelpers runHelpers
  induction manifest.bootstrap generalizing s with
  | nil => exact .pure
  | cons file files ih =>
    refine Notes.bind ?_ fun _ s₁ _ => ih s₁
    apply (notes_bootstrapFile h _ s).bind
    intro _ _ _
    exact .pure

theorem quiet_get (a : σ) (log : List Note) :
    (Noted.quiet get : NotedRun σ σ) (a, log) = .ok a (a, log) := rfl

theorem quiet_modify (f : σ → σ) (a : σ) (log : List Note) :
    Noted.quiet (modify f) (a, log) = .ok ⟨⟩ (f a, log) := rfl

theorem note_apply (n : Note) (a : σ) (log : List Note) :
    Noted.note n (a, log) = .ok () (a, log ++ [n]) := rfl

/-- The run of the helper files of a package is noted, however it ends. -/
theorem notes_bootstrapPackage (h : ResolverNotes noted plain) (dir : Path) (manifest : Manifest)
    (s : Session μ) :
    SessionNotes (Noted.bootstrapPackage noted dir manifest) (bootstrapPackage plain dir manifest)
      s := by
  obtain ⟨notes, hlogs, hhelpers⟩ := notes_runHelpers h dir manifest (s.mark (s.tree.canonical dir))
  rcases bootstrapPackage_cases plain dir manifest s with ⟨hmarked, hrun⟩ | ⟨hnew, hrun⟩
  · refine ⟨[], by rw [hrun]; exact .still rfl, ?_⟩
    intro log
    unfold Noted.bootstrapPackage
    rw [bind_of_ok (quiet_get s log), bind_of_ok (quiet_get s log),
      if_pos (Session.marked_iff_any.mpr hmarked), hrun, List.append_nil]
    rfl
  · have hany : ¬ s.bootstrapped.any (·.same (s.tree.canonical dir)) = true :=
      fun hany => hnew (Session.marked_iff_any.mp hany)
    rcases hrun with ⟨e, s₁, hplain, hrun⟩ | ⟨s₁, hplain, hrun⟩
    · rw [hplain] at hlogs hhelpers
      refine ⟨_, by rw [hrun]; exact hlogs.withdrew hnew, ?_⟩
      intro log
      have hend : beside (log ++ (.began (s.tree.canonical dir) :: notes ++
          [.withdrew (s.tree.canonical dir)])) (bootstrapPackage plain dir manifest s) =
          .error e (s₁.unmark (s.tree.canonical dir), log ++ [.began (s.tree.canonical dir)] ++
            notes ++ [.withdrew (s.tree.canonical dir)]) := by
        rw [hrun]
        simp [beside]
      unfold Noted.bootstrapPackage
      rw [hend, bind_of_ok (quiet_get s log), bind_of_ok (quiet_get s log), if_neg hany,
        bind_of_ok (note_apply _ s log), bind_of_ok (quiet_modify _ s _)]
      exact bind_of_error (catch_of_error (hhelpers _))
    · rw [hplain] at hlogs hhelpers
      have hcompleted := (hlogs.completed hnew).of_marks rfl (KeepsMarks.saveRecord s₁)
      refine ⟨_, by rw [hrun]; exact hcompleted, ?_⟩
      intro log
      have hend : beside (log ++ (.began (s.tree.canonical dir) :: notes ++
          [.completed (s.tree.canonical dir)])) (bootstrapPackage plain dir manifest s) =
          Noted.quiet Run.saveRecord (s₁, log ++ [.began (s.tree.canonical dir)] ++ notes ++
            [.completed (s.tree.canonical dir)]) := by
        rw [hrun]
        simp [Noted.quiet]
      unfold Noted.bootstrapPackage
      rw [hend, bind_of_ok (quiet_get s log), bind_of_ok (quiet_get s log), if_neg hany,
        bind_of_ok (note_apply _ s log), bind_of_ok (quiet_modify _ s _)]
      exact bind_of_ok (catch_of_ok (hhelpers _))

theorem notes_implementationFile (h : ResolverNotes noted plain) (file : Path)
    (reference : String) :
    SessionNotes (Noted.implementationFile noted file reference)
      (implementationFile plain file reference) s := by
  unfold Noted.implementationFile implementationFile
  apply Notes.get_bind
  split
  · apply (KeepsMarks.outputPath file).notes.bind
    intro output _ _
    apply Notes.get_bind
    split
    · apply Notes.get_bind
      split
      · exact .throw_bind
      · apply (notes_bootstrapFile h file _).bind
        intro _ _ _
        apply KeepsMarks.saveRecord.notes.bind
        intro _ _ _
        exact .pure
    · exact .pure
  · apply Notes.get_bind
    split
    · exact .throw_bind
    · exact .pure

theorem notes_loadPackage (h : ResolverNotes noted plain) (dir : Path)
    (reference package keyword : String) :
    SessionNotes (Noted.loadPackage noted dir reference package keyword)
      (loadPackage plain dir reference package keyword) s := by
  unfold Noted.loadPackage loadPackage
  apply Notes.get_bind
  apply (KeepsMarks.loadManifest _).notes.bind
  intro manifest s₁ _
  apply (notes_bootstrapPackage h dir manifest s₁).bind
  intro _ _ _
  cases manifest.entry? keyword with
  | none => exact .throw
  | some entry =>
    apply (notes_implementationFile h _ reference).bind
    intro file s₂ _
    apply Notes.get_bind
    cases s₂.registry.lookup (.package package keyword) with
    | none => exact .throw
    | some plugin => exact .pure

/-! ## References -/

theorem notes_resolveNew (h : ResolverNotes noted plain) (reference : String) :
    SessionNotes (Noted.resolveNew noted reference) (resolveNew plain reference) s := by
  unfold Noted.resolveNew resolveNew
  generalize Pieces.splitText Directive.separator reference = pieces
  match pieces with
  | [] => exact .throw
  | [keyword] =>
    dsimp only
    split
    · exact .throw_bind
    · apply Notes.get_bind
      exact (KeepsMarks.ofExcept _).notes
  | [package, keyword] =>
    dsimp only
    split
    · exact .throw_bind
    · apply Notes.get_bind
      cases packageFolder? s package with
      | none => exact .throw
      | some dir => exact notes_loadPackage h dir reference package keyword
  | _ :: _ :: _ :: _ => exact .throw

/-- One more level of nesting. -/
theorem ResolverNotes.resolveVia (h : ResolverNotes noted plain) :
    ResolverNotes (Noted.resolveVia noted) (resolveVia plain) := by
  intro reference s
  unfold Noted.resolveVia SourceMacros.resolveVia
  apply Notes.get_bind
  cases s.cached? reference with
  | some definition => exact .pure
  | none =>
    apply (notes_resolveNew h reference).bind
    intro definition _ _
    apply Notes.bind (.quiet rfl)
    intro _ _ _
    exact .pure

theorem resolveWithin_notes (depth : Nat) :
    ResolverNotes (μ := μ) (Noted.resolveWithin depth) (resolveWithin depth) := by
  induction depth with
  | zero => exact fun _ _ => .throw
  | succ depth ih => exact ih.resolveVia

theorem resolve_notes : ResolverNotes (μ := μ) Noted.resolve resolve := by
  intro reference s
  apply Notes.get_bind
  exact resolveWithin_notes _ reference s

/-! ## Calls -/

theorem notes_bootstrapBuiltins : SessionNotes Noted.bootstrapBuiltins bootstrapBuiltins s := by
  unfold Noted.bootstrapBuiltins bootstrapBuiltins
  apply Notes.get_bind
  cases s.settings.builtinDir with
  | none => exact .pure
  | some dir =>
    apply Notes.get_bind
    apply (KeepsMarks.ofExcept _).notes.bind
    intro sources _ _
    apply (notes_mapM (notes_bootstrapFile resolve_notes) sources).bind
    intro _ _ _
    apply KeepsMarks.saveRecord.notes.bind
    intro _ _ _
    exact .pure

/-- An operation whose value is dropped ends where it ends. -/
theorem void_eq_ok {x : EStateM Error σ α} {a a₁ : σ} {v : Unit}
    (h : (x >>= fun _ => pure ()) a = .ok v a₁) : ∃ w, x a = .ok w a₁ := by
  obtain ⟨w, a₂, hrun, hpure⟩ := bind_eq_ok.mp h
  cases hpure
  exact ⟨w, hrun⟩

/-- An operation whose value is dropped fails where it fails. -/
theorem void_eq_error {x : EStateM Error σ α} {a a₁ : σ} {e : Error}
    (h : (x >>= fun _ => pure ()) a = .error e a₁) : x a = .error e a₁ := by
  cases hrun : x a with
  | ok v a₂ =>
    rw [bind_of_ok hrun] at h
    cases h
  | error e' a₂ =>
    rw [bind_of_error hrun] at h
    cases h
    rfl

/-- A call with a log is the call, and what it notes accounts for the marks. -/
theorem Call.notes (c : Call μ) (s : Session μ) : SessionNotes (Noted.call c) c.run s := by
  cases c with
  | resolve reference => exact (resolve_notes reference s).bind fun _ _ _ => .pure
  | bootstrapFile path => exact (notes_bootstrapFile resolve_notes path s).bind fun _ _ _ => .pure
  | bootstrapBuiltins => exact notes_bootstrapBuiltins.bind fun _ _ _ => .pure
  | expandText name text account =>
    unfold Noted.call
    refine Notes.zoom Prod.fst (SourceMacros.expandText name text >>= fun _ => pure ()) ?_ ?_ ?_ rfl
      fun _ => rfl
    · exact (notes_expandText resolve_notes name text _).bind fun _ _ _ => .pure
    · intro _ _ hrun
      obtain ⟨output, hrun⟩ := void_eq_ok hrun
      simp [Call.run, hrun]
    · intro _ _ hrun
      simp [Call.run, void_eq_error hrun]
  | expandTokens stream account =>
    unfold Noted.call
    refine Notes.zoom PassState.session
      (PassRun.expandStream SourceMacros.resolve >>= fun _ => pure ()) ?_ ?_ ?_ rfl fun _ => rfl
    · exact (notes_expandStream resolve_notes).bind fun _ _ _ => .pure
    · intro _ _ hrun
      obtain ⟨output, hrun⟩ := void_eq_ok hrun
      simp [Call.run, hrun]
    · intro _ _ hrun
      simp [Call.run, void_eq_error hrun]
  | expandFile path => exact (notes_expandFile resolve_notes path).bind fun _ _ _ => .pure
  | translateFile path => exact (notes_translateFile resolve_notes path s).bind fun _ _ _ => .pure
  | translateFolder dir => exact (notes_translateFolder resolve_notes dir).bind fun _ _ _ => .pure

end SourceMacros
