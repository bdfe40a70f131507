-- Frames: what holds between the sessions before and after an operation, whatever it nests. Where a
-- relation holds when only the session's own knowledge changes, when the record is saved and when
-- the output of a file that may be expanded is written, it holds for whole operations, whether they
-- succeed or fail.
import SourceMacros.Proofs.Placement
import SourceMacros.Proofs.Questions
import SourceMacros.Proofs.TerminationLaws

namespace SourceMacros

variable {μ α : Type} {s s₁ s' : Session μ} {r : String → Run μ (Definition μ)} {C : Prop}
  {R : Session μ → Session μ → Prop}

/-! ## Frames -/

-- The proposition `C` says that plugins are known to be pure. Where it holds, nothing changes what
-- a text expands to.
/-- Neither files nor settings change, and at most one digest is noted. -/
structure Still (C : Prop) (s s' : Session μ) : Prop where
  tree : s'.tree = s.tree
  settings : s'.settings = s.settings
  record : s'.record = s.record ∨ ∃ file digest, s'.record = s.record.update s.tree file digest
  bare : C → s'.bare = s.bare

theorem Still.refl (s : Session μ) : Still C s s := ⟨rfl, rfl, Or.inl rfl, fun _ => rfl⟩

theorem Still.recordPath (h : Still C s s') : s'.record.path = s.record.path := by
  rcases h.record with hsame | ⟨file, digest, hnoted⟩
  · rw [hsame]
  · rw [hnoted]
    rfl

structure Frame (C : Prop) (R : Session μ → Session μ → Prop) : Prop where
  still : ∀ {s s'}, Still C s s' → R s s'
  trans : ∀ {s s₁ s'}, R s s₁ → R s₁ s' → R s s'
  save : ∀ s, R s (final (Run.saveRecord s))

/-- The relation still holds when the output of a file is written, after a pass over it. -/
def Puts (C : Prop) (R : Session μ → Session μ → Prop) (file : Path) (s : Session μ) : Prop :=
  ∀ source text s₁ target, s.tree.readText file = .ok source →
    (C → Expands s file.text source text) → R s s₁ → s₁.settings.outputPath file = .ok target →
    target.same file = false → R s (final (Run.writeThrough target text s₁))

/-- The relation holds between the sessions before and after an answer. -/
def Sure (C : Prop) (R : Session μ → Session μ → Prop) (r : String → Run μ (Definition μ))
    (reference : String) (s : Session μ) : Prop :=
  (C → s.Coherent) → R s (final (r reference s))

theorem Frame.refl (hF : Frame C R) (s : Session μ) : R s s := hF.still (.refl s)

/-- One operation after another. -/
theorem Frame.bind {β σ : Type} (look : σ → Session μ) {x : EStateM Error σ α}
    {f : α → EStateM Error σ β} {a : σ} (hF : Frame C R) (hx : R (look a) (look (final (x a))))
    (hf : ∀ v a₁, x a = .ok v a₁ → R (look a₁) (look (final (f v a₁)))) :
    R (look a) (look (final ((x >>= f) a))) := by
  cases hrun : x a with
  | error e a₁ =>
    rw [hrun] at hx
    rw [bind_of_error hrun]
    exact hx
  | ok v a₁ =>
    rw [hrun] at hx
    rw [bind_of_ok hrun]
    exact hF.trans hx (hf v a₁ hrun)

/-- An operation that leads by deeds from a coherent session leaves one. -/
theorem Does.coherent {σ : Type} {look : σ → Session μ} {x : EStateM Error σ α} {a a₁ : σ}
    {post : α → σ → Prop} {v : α} (h : Does look x a post) (ha : (look a).Coherent)
    (hrun : x a = .ok v a₁) : (look a₁).Coherent := by
  obtain ⟨⟨ds, hlead⟩, -⟩ := h
  rw [hrun] at hlead
  exact hlead.coherent ha

/-! ## Passes -/

section

open PassRun

variable {a a' : PassState μ}

theorem frame_update (hF : Frame C R) (f : Pass μ → Pass μ) :
    R a.session (final (update f a)).session := hF.refl _

/-- A parser changes at most the flag that stops a run and the memory of plugins. -/
theorem frame_onStream (hF : Frame C R) {parse : Parser μ α} (hp : C → parse.Pure) :
    R a.session (final (onStream parse a)).session := by
  apply hF.still
  refine ⟨?_, ?_, ?_, ?_⟩
  · unfold onStream
    dsimp only
    split <;> rfl
  · unfold onStream
    dsimp only
    split <;> rfl
  · unfold onStream
    dsimp only
    split <;> exact Or.inl rfl
  · intro hC
    obtain ⟨f, rfl⟩ := hp hC
    unfold onStream Parser.ofFunction
    cases hf : f a.stream with
    | mk result stream =>
      cases result with
      | ok v => simp
      | error e => simp

theorem frame_onSession {run : Run μ α} (h : R a.session (final (run a.session))) :
    R a.session (final (onSession run a)).session := by
  unfold onSession
  cases hrun : run a.session with
  | ok v session =>
    rw [hrun] at h
    exact h
  | error e session =>
    rw [hrun] at h
    exact h

theorem frame_importDirective (hF : Frame C R) {keyword : Token} {start : Nat}
    (hask : ∀ directive after,
      Directive.parse ⟨a.stream, a.session.interrupted, a.session.memory⟩ = .ok directive after →
      R a.session (final (r directive.reference a.session))) :
    R a.session (final (importDirective r keyword start a)).session := by
  unfold importDirective
  apply hF.bind PassState.session (frame_update hF _)
  rintro _ a₁ hupdate
  cases hupdate
  apply hF.bind PassState.session
    (frame_onStream hF fun _ => Directive.pure_parse)
  intro directive a₂ hparse
  have hsession := session_onStream Directive.pure_parse hparse
  have hparsed : ∃ after,
      Directive.parse ⟨a.stream, a.session.interrupted, a.session.memory⟩ =
        .ok directive after := by
    unfold onStream at hparse
    dsimp only at hparse
    split at hparse
    · next after hafter =>
      cases hparse
      exact ⟨after, hafter⟩
    · cases hparse
  obtain ⟨after, hafter⟩ := hparsed
  apply hF.bind PassState.session
  · apply frame_onSession
    rw [hsession]
    exact hask directive after hafter
  intro _ a₃ _
  apply hF.bind PassState.session (frame_update hF _)
  intro _ a₄ _
  apply hF.bind PassState.session (frame_update hF _)
  intro _ a₅ _
  exact hF.refl _

theorem frame_plain (hF : Frame C R) (token : Token) :
    R a.session (final (plain token a)).session := by
  rcases plain_eq (μ := μ) token with heq | heq
  · rw [heq]
    exact hF.refl _
  · rw [heq]
    exact frame_update hF _

theorem frame_step (hF : Frame C R) (hready : C → Ready a)
    (hask : ∀ reference, Directs a reference → R a.session (final (r reference a.session))) :
    R a.session (final (step r a)).session := by
  unfold step
  rw [bind_of_ok (get_apply a)]
  cases hstop : a.session.interrupted with
  | true =>
    simp only [if_true]
    rw [bind_of_error (throw_apply _ a)]
    exact hF.refl _
  | false =>
    simp only [Bool.false_eq_true, if_false]
    rw [bind_of_ok (set_apply _ _)]
    cases hk : a.stream.peek.kind with
    | indent | dedent => exact frame_update (a := { a with stream := a.stream.skip }) hF _
    | newline | number | string | operator | comment | blankBreak | endMarker =>
      exact frame_plain (a := { a with stream := a.stream.skip }) hF _
    | name =>
      dsimp only
      split
      · next hkeyword =>
        apply frame_importDirective (a := { a with stream := a.stream.skip }) hF
        intro directive after hparse
        exact hask directive.reference ⟨hstop, hk, hkeyword, directive, after, rfl, hparse⟩
      · cases hd : a.pass.trigger? a.stream.peek.text with
        | none => exact frame_plain (a := { a with stream := a.stream.skip }) hF _
        | some d =>
          have hmem := List.mem_of_find?_eq_some hd
          unfold invocation
          apply hF.bind PassState.session (a := { a with stream := a.stream.skip })
            (frame_update hF _)
          rintro _ a₁ hupdate
          cases hupdate
          apply hF.bind PassState.session
            (frame_onStream hF fun hC => (hready hC d hmem).expand)
          intro text a₂ _
          apply hF.bind PassState.session (frame_update hF _)
          intro _ a₃ _
          exact hF.refl _

/-- A run of steps stays in the frame when every question on the way does. -/
theorem frame_steps (hF : Frame C R) (hr : Resolves r)
    (hready : C → a.session.Coherent ∧ Ready a)
    (hask : ∀ k a₁ reference, steps r k a = .ok () a₁ → Directs a₁ reference →
      Sure C R r reference a₁.session) (n : Nat) :
    R a.session (final (steps r n a)).session := by
  induction n generalizing a with
  | zero => exact hF.refl _
  | succ n ih =>
    unfold steps
    rw [bind_of_ok (get_apply a)]
    cases hend : a.stream.atEnd with
    | true => exact hF.refl _
    | false =>
      simp only [Bool.false_eq_true, if_false]
      apply hF.bind PassState.session
      · refine frame_step hF (fun hC => (hready hC).2) ?_
        intro reference hdirects
        exact hask 0 a reference rfl hdirects fun hC => (hready hC).1
      intro _ a₁ hstep
      apply ih
      · intro hC
        have hacts := acts_step hr (hready hC).1 (hready hC).2
        exact ⟨hacts.coherent (hready hC).1 hstep, hacts.2 _ _ hstep⟩
      · intro k a₂ reference hsteps
        apply hask (k + 1) a₂ reference
        unfold steps
        rw [bind_of_ok (get_apply a)]
        simp only [hend, Bool.false_eq_true, if_false]
        rw [bind_of_ok hstep]
        exact hsteps

theorem frame_expandStream (hF : Frame C R) (hr : Resolves r) (hC : C → a.session.Coherent)
    (hask : ∀ k a₁ reference, steps r k { a with pass := {} } = .ok () a₁ →
      Directs a₁ reference → Sure C R r reference a₁.session) :
    R a.session (final (expandStream r a)).session := by
  unfold expandStream
  apply hF.bind PassState.session (frame_update hF _)
  rintro _ a₁ hupdate
  cases hupdate
  rw [bind_of_ok (get_apply _)]
  apply hF.bind PassState.session
  · refine frame_steps (a := { a with pass := {} }) hF hr ?_ hask _
    intro hcoherent
    exact ⟨hC hcoherent, fun d hd => absurd hd (by simp)⟩
  intro _ a₂ _
  exact hF.refl _

end

/-! ## Files -/

theorem frame_expandText (hF : Frame C R) (hr : Resolves r) (hC : C → s.Coherent)
    {name text : String} {pass : Pass μ}
    (hask : ∀ stream k a₁ reference, Stream.ofSource name text = .ok stream →
      PassRun.steps r k { session := s, stream, pass := {} } = .ok () a₁ →
      Directs a₁ reference → Sure C R r reference a₁.session) :
    R s (final (expandTextVia r name text (s, pass))).1 := by
  unfold expandTextVia
  dsimp only
  split
  · exact hF.refl s
  · next stream hstream =>
    have hpass := frame_expandStream (a := { session := s, stream, pass }) hF hr hC
      fun k a₁ reference => hask stream k a₁ reference hstream
    split
    · next hrun =>
      rw [hrun] at hpass
      exact hpass
    · next hrun =>
      rw [hrun] at hpass
      exact hpass

theorem frame_freshPass {run : ExpandRun μ α} (h : R s (final (run (s, {}))).1) :
    R s (final (freshPass run s)) := by
  unfold freshPass
  cases hrun : run (s, {}) with
  | ok v after =>
    rw [hrun] at h
    exact h
  | error e after =>
    rw [hrun] at h
    exact h

theorem still_searchRoot (s : Session μ) (root : Path) : Still C s { s with searchRoot := root } :=
  ⟨rfl, rfl, Or.inl rfl, fun _ => rfl⟩

theorem frame_withSearchRoot (hF : Frame C R) {root : Path} {run : Run μ α}
    (h : R { s with searchRoot := root } (final (run { s with searchRoot := root }))) :
    R s (final (withSearchRoot root run s)) := by
  unfold withSearchRoot
  have hturned := hF.trans (hF.still (still_searchRoot s root)) h
  cases hrun : run { s with searchRoot := root } with
  | ok v s₁ =>
    rw [hrun] at hturned
    exact hF.trans hturned (hF.still (still_searchRoot s₁ _))
  | error e s₁ =>
    rw [hrun] at hturned
    exact hF.trans hturned (hF.still (still_searchRoot s₁ _))

theorem readText_cases (path : Path) (s : Session μ) :
    (∃ text, s.tree.readText path = .ok text ∧ Run.readText path s = .ok text s) ∨
      ∃ e, Run.readText path s = .error e s := by
  unfold Run.readText
  rw [bind_of_ok (get_apply s)]
  cases s.tree.readText path with
  | ok text => exact Or.inl ⟨text, rfl, rfl⟩
  | error cause => exact Or.inr ⟨_, rfl⟩

/-- A pass over a file stays in the frame when every question it asks does. -/
theorem frame_expandFile (hF : Frame C R) (hr : Resolves r) (hC : C → s.Coherent) {path : Path}
    (hask : ∀ reference s₁, AsksFor r path s reference s₁ → Sure C R r reference s₁) :
    R s (final (expandFileVia r path s)) := by
  unfold expandFileVia
  rcases readText_cases path s with ⟨text, hread, hrun⟩ | ⟨e, hrun⟩
  · rw [bind_of_ok hrun]
    apply frame_withSearchRoot hF
    apply frame_freshPass
    refine frame_expandText (s := { s with searchRoot := searchFolder path }) hF hr
      (fun hcoherent => ⟨(hC hcoherent).pure, (hC hcoherent).cache⟩) ?_
    intro stream k a₁ reference hstream hsteps hdirects
    exact hask reference a₁.session ⟨text, stream, k, a₁, hread, hstream, hsteps, hdirects, rfl⟩
  · rw [bind_of_error hrun]
    exact hF.refl s

theorem outputPath_cases (path : Path) (s : Session μ) :
    (∃ target, s.settings.outputPath path = .ok target ∧ Run.outputPath path s = .ok target s) ∨
      ∃ e, Run.outputPath path s = .error e s := by
  unfold Run.outputPath
  rw [bind_of_ok (get_apply s)]
  cases s.settings.outputPath path with
  | ok target => exact Or.inl ⟨target, rfl, rfl⟩
  | error e => exact Or.inr ⟨e, rfl⟩

/-- What translating a file comes down to after a pass over it that succeeded. -/
theorem translateFile_of_expandFile {path : Path} {text : String}
    (h : expandFileVia r path s = .ok text s₁) :
    (∃ e, translateFileVia r path s = .error e s₁) ∨
      ∃ target, s₁.settings.outputPath path = .ok target ∧ target.same path = false ∧
        translateFileVia r path s = (do Run.writeThrough target text; return target : Run μ Path) s₁ := by
  unfold translateFileVia
  rw [bind_of_ok h]
  rcases outputPath_cases path s₁ with ⟨target, htarget, hrun⟩ | ⟨e, hrun⟩
  · rw [bind_of_ok hrun]
    cases hsame : target.same path with
    | true => exact Or.inl ⟨_, rfl⟩
    | false => exact Or.inr ⟨target, htarget, hsame, rfl⟩
  · rw [bind_of_error hrun]
    exact Or.inl ⟨e, rfl⟩

theorem translateFile_eq_ok {path target : Path} (h : translateFileVia r path s = .ok target s') :
    ∃ text s₁, expandFileVia r path s = .ok text s₁ ∧ s₁.settings.outputPath path = .ok target ∧
      target.same path = false ∧ Run.writeThrough target text s₁ = .ok () s' := by
  obtain ⟨text, s₁, hexpand, -⟩ := bind_eq_ok.mp h
  rcases translateFile_of_expandFile hexpand with ⟨e, hrun⟩ | ⟨target', htarget, hsame, hrun⟩
  · rw [hrun] at h
    cases h
  · rw [hrun] at h
    obtain ⟨_, s₂, hwrite, hreturn⟩ := bind_eq_ok.mp h
    cases hreturn
    exact ⟨text, s₁, hexpand, htarget, hsame, hwrite⟩

theorem frame_translateFile (hF : Frame C R) (hr : Resolves r) (hC : C → s.Coherent) {path : Path}
    (hask : ∀ reference s₁, AsksFor r path s reference s₁ → Sure C R r reference s₁)
    (hput : Puts C R path s) : R s (final (translateFileVia r path s)) := by
  have hexpand := frame_expandFile hF hr hC hask
  cases hrun : expandFileVia r path s with
  | error e s₁ =>
    rw [hrun] at hexpand
    unfold translateFileVia
    rw [bind_of_error hrun]
    exact hexpand
  | ok text s₁ =>
    rw [hrun] at hexpand
    rcases translateFile_of_expandFile hrun with ⟨e, htranslate⟩ | ⟨target, htarget, hsame, htranslate⟩
    · rw [htranslate]
      exact hexpand
    · have hsource : ∃ source, s.tree.readText path = .ok source ∧
          (C → Expands s path.text source text) := by
        rcases readText_cases path s with ⟨source, hread, -⟩ | ⟨e, hread⟩
        · refine ⟨source, hread, ?_⟩
          intro hcoherent
          obtain ⟨source', hread', hexpands⟩ :=
            (acts_expandFile hr (hC hcoherent) path).2 text s₁ hrun
          rw [hread] at hread'
          cases hread'
          exact hexpands
        · unfold expandFileVia at hrun
          rw [bind_of_error hread] at hrun
          cases hrun
      obtain ⟨source, hread, hexpands⟩ := hsource
      have hwritten := hput source text s₁ target hread hexpands hexpand htarget hsame
      rw [htranslate]
      cases hwrite : Run.writeThrough target text s₁ with
      | ok _ s₂ =>
        rw [hwrite] at hwritten
        rw [bind_of_ok hwrite]
        exact hwritten
      | error e s₂ =>
        rw [hwrite] at hwritten
        rw [bind_of_error hwrite]
        exact hwritten

theorem digest_cases (path : Path) (s : Session μ) :
    (∃ content, s.tree.read path = .ok content ∧
        Run.digest path s = .ok (Digest.ofContent content) s) ∨
      ∃ e, Run.digest path s = .error e s := by
  unfold Run.digest
  rw [bind_of_ok (get_apply s)]
  cases s.tree.read path with
  | ok content => exact Or.inl ⟨content, rfl, rfl⟩
  | error cause => exact Or.inr ⟨_, rfl⟩

theorem frame_bootstrapFile (hF : Frame C R) (hr : Resolves r) (hC : C → s.Coherent) {path : Path}
    (hask : Stale s path → ∀ reference s₁, AsksFor r path s reference s₁ → Sure C R r reference s₁)
    (hput : Stale s path → Puts C R path s) : R s (final (bootstrapFileVia r path s)) := by
  unfold bootstrapFileVia
  rw [bind_of_ok (get_apply s)]
  cases hsource : s.settings.isSource path with
  | false => exact hF.refl s
  | true =>
    simp only [Bool.not_true, Bool.false_eq_true, if_false]
    rcases digest_cases path s with ⟨content, hread, hdigest⟩ | ⟨e, hdigest⟩
    · rw [bind_of_ok hdigest]
      rcases outputPath_cases path s with ⟨output, houtput, hrun⟩ | ⟨e, hrun⟩
      · rw [bind_of_ok hrun, bind_of_ok (get_apply s)]
        split
        · exact hF.refl s
        · next hstale =>
          have hstale : Stale s path :=
            ⟨hsource, content, output, hread, houtput, by simpa using hstale⟩
          apply hF.bind id
            (frame_translateFile hF hr hC (hask hstale) (hput hstale))
          intro _ s₁ _
          apply hF.still
          exact ⟨rfl, rfl, Or.inr ⟨path, _, rfl⟩, fun _ => rfl⟩
      · rw [bind_of_error hrun]
        exact hF.refl s
    · rw [bind_of_error hdigest]
      exact hF.refl s

end SourceMacros
