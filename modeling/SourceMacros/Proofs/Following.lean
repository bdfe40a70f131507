-- Following: what an operation does with one resolver, beside what it does with another. Where the
-- first resolver does what the second does, or else gives up with a certain error, so does every
-- operation: errors pass through passes, files and packages unchanged.
import SourceMacros.Proofs.Narration

namespace SourceMacros

variable {μ α β σ : Type} {s s' s₁ : Session μ} {look : σ → Session μ} {base : Session μ}
  {e : Error} {a : σ}

/-! ## Growth -/

/-- Marks stay, and the tree develops, wherever packages are looked for. -/
structure Grows (s s' : Session μ) : Prop where
  marked : ∀ folder, s.Marked folder → s'.Marked folder
  tree : s.tree.Develops s'.tree

theorem Grows.refl (s : Session μ) : Grows s s := ⟨fun _ h => h, .refl s.tree⟩

theorem Grows.trans (h : Grows s s₁) (h' : Grows s₁ s') : Grows s s' :=
  ⟨fun folder hm => h'.marked folder (h.marked folder hm), h.tree.trans h'.tree⟩

theorem Unfolds.grows {es : List (Episode μ)} (h : Unfolds s es s') : Grows s s' :=
  ⟨fun _ => h.upholds.marked, h.develops⟩

theorem Session.grows_mark (s : Session μ) (folder : Path) : Grows s (s.mark folder) :=
  ⟨fun _ h => Session.marked_mark.mpr (Or.inr h), .refl s.tree⟩

/-! ## Operations -/

/-- The first outcome is the second, or it is a certain error. -/
def Yields (e : Error) (x y : EStateM.Result Error σ α) : Prop := x = y ∨ ∃ a, x = .error e a

/-- What fails with an error fails with it whatever comes after. -/
theorem Yields.bind {x y : EStateM Error σ α} {f g : α → EStateM Error σ β}
    (h : Yields e (x a) (y a)) (hnext : ∀ v a₁, x a = .ok v a₁ → Yields e (f v a₁) (g v a₁)) :
    Yields e ((x >>= f) a) ((y >>= g) a) := by
  rcases h with heq | ⟨a₁, hx⟩
  · cases hx : x a with
    | error e₁ a₁ =>
      rw [bind_of_error hx, bind_of_error (heq.symm.trans hx)]
      exact Or.inl rfl
    | ok v a₁ =>
      rw [bind_of_ok hx, bind_of_ok (heq.symm.trans hx)]
      exact hnext v a₁ hx
  · rw [bind_of_error hx]
    exact Or.inr ⟨a₁, rfl⟩

/-- One operation does what another does, or gives up with a certain error. The session it leaves
has grown from the base, if the session it started in had. -/
def Follows (look : σ → Session μ) (base : Session μ) (e : Error) (x y : EStateM Error σ α)
    (a : σ) : Prop :=
  Grows base (look a) → Grows base (look (final (x a))) ∧ Yields e (x a) (y a)

namespace Follows

theorem of_tells {x : EStateM Error σ α} (h : Tells look x a fun _ _ _ => True) :
    Follows look base e x x a := by
  intro hbase
  obtain ⟨es, hes, -⟩ := h
  exact ⟨hbase.trans hes.grows, Or.inl rfl⟩

theorem pure {v : α} : Follows look base e (Pure.pure v) (Pure.pure v) a :=
  of_tells (Tells.pure trivial)

theorem get : Follows look base e MonadState.get MonadState.get a :=
  of_tells (Tells.get.mono fun _ _ _ _ _ => trivial)

theorem throw_bind {e₁ : Error} {f g : α → EStateM Error σ β} :
    Follows look base e (MonadExcept.throw e₁ >>= f) (MonadExcept.throw e₁ >>= g) a := by
  intro hbase
  rw [bind_of_error (throw_apply e₁ a), bind_of_error (throw_apply e₁ a)]
  exact ⟨hbase, Or.inl rfl⟩

theorem bind {x y : EStateM Error σ α} {f g : α → EStateM Error σ β}
    (h : Follows look base e x y a)
    (hnext : ∀ v a₁, x a = .ok v a₁ → Follows look base e (f v) (g v) a₁) :
    Follows look base e (x >>= f) (y >>= g) a := by
  intro hbase
  obtain ⟨hgrows, hyields⟩ := h hbase
  constructor
  · cases hx : x a with
    | error e₁ a₁ =>
      rw [hx] at hgrows
      rw [bind_of_error hx]
      exact hgrows
    | ok v a₁ =>
      rw [hx] at hgrows
      rw [bind_of_ok hx]
      exact (hnext v a₁ hx hgrows).1
  · apply hyields.bind
    intro v a₁ hx
    rw [hx] at hgrows
    exact (hnext v a₁ hx hgrows).2

end Follows

/-- One resolver does what another does in every session that has grown from the base, or gives up
with a certain error. -/
structure Trails (base : Session μ) (e : Error) (r r' : String → Run μ (Definition μ)) : Prop where
  narrates : Narrates r
  yields : ∀ reference s, Grows base s → Yields e (r reference s) (r' reference s)

variable {r r' : String → Run μ (Definition μ)}

theorem Trails.follows (h : Trails base e r r') (reference : String) (s : Session μ) :
    Follows (fun s => s) base e (r reference) (r' reference) s := by
  intro hbase
  obtain ⟨es, hes, -⟩ := h.narrates reference s
  exact ⟨hbase.trans hes.grows, h.yields reference s hbase⟩

/-! ## Passes -/

section

open PassRun

variable {a : PassState μ}

theorem follows_onSession {x y : Run μ α} (h : Follows (fun s => s) base e x y a.session) :
    Follows PassState.session base e (onSession x) (onSession y) a := by
  intro hbase
  obtain ⟨hgrows, hyields⟩ := h hbase
  unfold onSession
  rcases hyields with heq | ⟨s₁, heq⟩
  · rw [← heq]
    refine ⟨?_, Or.inl rfl⟩
    cases hx : x a.session with
    | ok v s₁ =>
      rw [hx] at hgrows
      exact hgrows
    | error e₁ s₁ =>
      rw [hx] at hgrows
      exact hgrows
  · rw [heq] at hgrows ⊢
    exact ⟨hgrows, Or.inr ⟨_, rfl⟩⟩

theorem follows_importDirective (h : Trails base e r r') (keyword : Token) (start : Nat) :
    Follows PassState.session base e (importDirective r keyword start)
      (importDirective r' keyword start) a := by
  unfold importDirective
  apply (Follows.of_tells (recounts_update _)).bind
  intro _ _ _
  apply (Follows.of_tells (recounts_onStream _)).bind
  intro directive _ _
  apply (follows_onSession (h.follows directive.reference _)).bind
  intro _ _ _
  refine Follows.of_tells (PassRecounts.bind (recounts_update _) ?_)
  intro _ _
  apply (recounts_update _).bind
  intro _ _
  exact recounts_replaceFrom start

theorem follows_step (h : Trails base e r r') :
    Follows PassState.session base e (step r) (step r') a := by
  unfold step
  apply Follows.get.bind
  intro b _ hb
  cases hb
  split
  · exact Follows.throw_bind
  · have hset : PassRecounts (set { a with stream := a.stream.skip } : PassRun μ PUnit) a :=
      Tells.of_same rfl fun _ _ _ => trivial
    apply (Follows.of_tells hset).bind
    intro _ _ _
    cases a.stream.peek.kind with
    | indent | dedent => exact Follows.of_tells (recounts_update _)
    | newline | number | string | operator | comment | blankBreak | endMarker =>
      exact Follows.of_tells (recounts_plain _)
    | name =>
      dsimp only
      split
      · exact follows_importDirective h _ _
      · split
        · exact Follows.of_tells (recounts_invocation _ _ _)
        · exact Follows.of_tells (recounts_plain _)

theorem follows_steps (h : Trails base e r r') (n : Nat) :
    Follows PassState.session base e (steps r n) (steps r' n) a := by
  induction n generalizing a with
  | zero => exact Follows.pure
  | succ n ih =>
    unfold steps
    apply Follows.get.bind
    intro _ _ _
    split
    · exact Follows.pure
    · exact (follows_step h).bind fun _ _ _ => ih

theorem follows_expandStream (h : Trails base e r r') :
    Follows PassState.session base e (expandStream r) (expandStream r') a := by
  unfold expandStream
  apply (Follows.of_tells (recounts_update _)).bind
  intro _ _ _
  apply Follows.get.bind
  intro _ _ _
  apply (follows_steps h _).bind
  intro _ _ _
  apply Follows.of_tells
  apply PassRecounts.bind (Tells.get.mono fun _ _ _ _ _ => trivial)
  intro _ _
  apply (recounts_update _).bind
  intro _ _
  apply PassRecounts.bind (Tells.get.mono fun _ _ _ _ _ => trivial)
  intro _ _
  exact Tells.pure trivial

end

/-! ## Files -/

theorem follows_expandText (h : Trails base e r r') (name text : String)
    (a : Session μ × Pass μ) :
    Follows Prod.fst base e (expandTextVia r name text) (expandTextVia r' name text) a := by
  intro hbase
  unfold expandTextVia
  dsimp only
  split
  · exact ⟨hbase, Or.inl rfl⟩
  · next stream _ =>
    obtain ⟨hgrows, hyields⟩ :=
      follows_expandStream (a := { session := a.1, stream, pass := a.2 }) h hbase
    rcases hyields with heq | ⟨a₁, heq⟩
    · rw [← heq]
      refine ⟨?_, Or.inl rfl⟩
      split
      · next hrun =>
        rw [hrun] at hgrows
        exact hgrows
      · next hrun =>
        rw [hrun] at hgrows
        exact hgrows
    · rw [heq] at hgrows ⊢
      exact ⟨hgrows, Or.inr ⟨_, rfl⟩⟩

theorem follows_freshPass {x y : ExpandRun μ α} (h : Follows Prod.fst base e x y (s, {})) :
    Follows (fun s => s) base e (freshPass x) (freshPass y) s := by
  intro hbase
  obtain ⟨hgrows, hyields⟩ := h hbase
  unfold freshPass
  rcases hyields with heq | ⟨a₁, heq⟩
  · rw [← heq]
    refine ⟨?_, Or.inl rfl⟩
    cases hx : x (s, {}) with
    | ok v a₁ =>
      rw [hx] at hgrows
      exact hgrows
    | error e₁ a₁ =>
      rw [hx] at hgrows
      exact hgrows
  · rw [heq] at hgrows ⊢
    exact ⟨hgrows, Or.inr ⟨_, rfl⟩⟩

theorem follows_withSearchRoot {root : Path} {x y : Run μ α}
    (h : Follows (fun s => s) base e x y { s with searchRoot := root }) :
    Follows (fun s => s) base e (withSearchRoot root x) (withSearchRoot root y) s := by
  intro hbase
  obtain ⟨hgrows, hyields⟩ := h ⟨hbase.marked, hbase.tree⟩
  unfold withSearchRoot
  rcases hyields with heq | ⟨s₁, heq⟩
  · rw [← heq]
    refine ⟨?_, Or.inl rfl⟩
    cases hx : x { s with searchRoot := root } with
    | ok v s₁ =>
      rw [hx] at hgrows
      exact ⟨hgrows.marked, hgrows.tree⟩
    | error e₁ s₁ =>
      rw [hx] at hgrows
      exact ⟨hgrows.marked, hgrows.tree⟩
  · rw [heq] at hgrows ⊢
    exact ⟨⟨hgrows.marked, hgrows.tree⟩, Or.inr ⟨_, rfl⟩⟩

theorem follows_translateFile (h : Trails base e r r') (path : Path) :
    Follows (fun s => s) base e (translateFileVia r path) (translateFileVia r' path) s := by
  unfold translateFileVia expandFileVia
  refine Follows.bind (x := _ >>= _) ?_ ?_
  · apply (Follows.of_tells (recounts_readText path)).bind
    intro text _ _
    exact follows_withSearchRoot (follows_freshPass (follows_expandText h _ text _))
  · intro output _ _
    apply Follows.of_tells
    apply (recounts_outputPath path).bind
    intro target _
    split
    · exact Tells.throw_bind
    · apply (recounts_writeThrough target output).bind
      intro _ _
      exact Tells.pure trivial

theorem follows_bootstrapFile (h : Trails base e r r') (path : Path) :
    Follows (fun s => s) base e (bootstrapFileVia r path) (bootstrapFileVia r' path) s := by
  unfold bootstrapFileVia
  apply Follows.get.bind
  intro _ _ _
  split
  · exact Follows.pure
  · apply (Follows.of_tells (recounts_digest path)).bind
    intro digest _ _
    apply (Follows.of_tells (recounts_outputPath path)).bind
    intro _ _ _
    apply Follows.get.bind
    intro _ _ _
    split
    · exact Follows.pure
    · apply (follows_translateFile h path).bind
      intro _ _ _
      apply Follows.of_tells
      refine Recounts.bind (Tells.calm ?_ fun _ _ _ => trivial) fun _ _ => Tells.pure trivial
      exact ⟨rfl, rfl, rfl, rfl, rfl, .refl _⟩

/-! ## Packages -/

theorem follows_runHelpers (h : Trails base e r r') (dir : Path) (manifest : Manifest) :
    Follows (fun s => s) base e (runHelpers r dir manifest) (runHelpers r' dir manifest) s := by
  unfold runHelpers
  induction manifest.bootstrap generalizing s with
  | nil => exact Follows.pure
  | cons file files ih =>
    rw [List.forM, List.forM]
    refine Follows.bind ?_ fun _ _ _ => ih
    exact (follows_bootstrapFile h _).bind fun _ _ _ => Follows.pure

theorem follows_implementationFile (h : Trails base e r r') (file : Path) (reference : String) :
    Follows (fun s => s) base e (implementationFile r file reference)
      (implementationFile r' file reference) s := by
  unfold implementationFile
  apply Follows.get.bind
  intro _ _ _
  split
  · apply (Follows.of_tells (recounts_outputPath file)).bind
    intro output _ _
    apply Follows.get.bind
    intro _ _ _
    split
    · apply Follows.get.bind
      intro _ _ _
      split
      · exact Follows.throw_bind
      · apply (follows_bootstrapFile h file).bind
        intro _ _ _
        apply Follows.of_tells
        exact recounts_saveRecord.bind fun _ _ => Tells.pure trivial
    · exact Follows.pure
  · apply Follows.of_tells
    apply recounts_get.bind
    intro _ _
    split
    · exact Tells.throw_bind
    · exact Tells.pure trivial

end SourceMacros
