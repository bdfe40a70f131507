-- Episodes: what an operation does to what a session knows of packages and references. Whatever
-- plugins do, however deep passes nest, and whether an operation succeeds or fails, it comes down
-- to packages that are found, runs of their helper files, and references that are learned. In
-- between, only files, digests, the memory of plugins and the flag that stops a run change.
import SourceMacros.Proofs.Resolving
import SourceMacros.Proofs.TreeGrowth

namespace SourceMacros

variable {μ α : Type} {s s' s₁ : Session μ}

/-! ## Marks -/

namespace Path

theorem same_refl (p : Path) : p.same p = true := by simp [same]

theorem same_symm {p q : Path} (h : p.same q = true) : q.same p = true := by
  unfold same at h ⊢
  rw [beq_iff_eq] at h ⊢
  exact h.symm

theorem same_trans {p q r : Path} (h : p.same q = true) (h' : q.same r = true) :
    p.same r = true := by
  unfold same at h h' ⊢
  rw [beq_iff_eq] at h h' ⊢
  exact h.trans h'

end Path

/-- The package in a canonical folder is marked as bootstrapped. -/
def Session.Marked (s : Session μ) (folder : Path) : Prop :=
  ∃ marked ∈ s.bootstrapped, marked.same folder = true

theorem Session.marked_iff_any {folder : Path} :
    s.bootstrapped.any (·.same folder) = true ↔ s.Marked folder := List.any_eq_true

theorem Session.isBootstrapped_iff {dir : Path} :
    s.isBootstrapped dir = true ↔ s.Marked (s.tree.canonical dir) := Session.marked_iff_any

theorem Session.Marked.of_same {folder other : Path} (h : s.Marked folder)
    (hsame : folder.same other = true) : s.Marked other := by
  obtain ⟨marked, hmem, hmarked⟩ := h
  exact ⟨marked, hmem, Path.same_trans hmarked hsame⟩

theorem Session.marked_mark {folder other : Path} :
    (s.mark folder).Marked other ↔ folder.same other = true ∨ s.Marked other := by
  simp [Session.Marked, Session.mark]

theorem Session.marked_unmark {folder other : Path} :
    (s.unmark folder).Marked other ↔ s.Marked other ∧ other.same folder = false := by
  constructor
  · rintro ⟨marked, hmem, hmarked⟩
    obtain ⟨hmem, hkept⟩ := List.mem_filter.mp hmem
    refine ⟨⟨marked, hmem, hmarked⟩, ?_⟩
    rw [Bool.eq_false_iff]
    intro hsame
    simp [Path.same_trans hmarked hsame] at hkept
  · rintro ⟨⟨marked, hmem, hmarked⟩, hother⟩
    refine ⟨marked, List.mem_filter.mpr ⟨hmem, ?_⟩, hmarked⟩
    rw [Bool.not_eq_true', Bool.eq_false_iff]
    intro hsame
    rw [Path.same_trans (Path.same_symm hmarked) hsame] at hother
    cases hother

/-- Runs the helper files that a manifest lists. -/
def runHelpers (resolve : String → Run μ (Definition μ)) (dir : Path) (manifest : Manifest) :
    Run μ Unit :=
  manifest.bootstrap.forM fun file => do
    let _ ← bootstrapFileVia resolve (dir.join ⟨file⟩)

/-- A package is bootstrapped already, or else its helper files are run under its mark: a failure
takes the mark away, and after a success the record is saved. -/
theorem bootstrapPackage_cases (resolve : String → Run μ (Definition μ)) (dir : Path)
    (manifest : Manifest) (s : Session μ) :
    (s.Marked (s.tree.canonical dir) ∧ bootstrapPackage resolve dir manifest s = .ok () s) ∨
      ¬ s.Marked (s.tree.canonical dir) ∧
        ((∃ e s₁, runHelpers resolve dir manifest (s.mark (s.tree.canonical dir)) = .error e s₁ ∧
            bootstrapPackage resolve dir manifest s =
              .error e (s₁.unmark (s.tree.canonical dir))) ∨
          ∃ s₁, runHelpers resolve dir manifest (s.mark (s.tree.canonical dir)) = .ok () s₁ ∧
            bootstrapPackage resolve dir manifest s = Run.saveRecord s₁) := by
  unfold bootstrapPackage
  rw [bind_of_ok (get_apply s), bind_of_ok (get_apply s)]
  by_cases hmarked : s.Marked (s.tree.canonical dir)
  · rw [if_pos (Session.marked_iff_any.mpr hmarked)]
    exact Or.inl ⟨hmarked, rfl⟩
  · rw [if_neg fun h => hmarked (Session.marked_iff_any.mp h)]
    refine Or.inr ⟨hmarked, ?_⟩
    have hmark : (modify (·.mark (s.tree.canonical dir)) : Run μ PUnit) s =
        .ok ⟨⟩ (s.mark (s.tree.canonical dir)) := rfl
    rw [bind_of_ok hmark]
    cases hrun : runHelpers resolve dir manifest (s.mark (s.tree.canonical dir)) with
    | error e s₁ =>
      refine Or.inl ⟨e, s₁, rfl, ?_⟩
      exact bind_of_error (catch_of_error hrun)
    | ok _ s₁ =>
      refine Or.inr ⟨s₁, rfl, ?_⟩
      exact bind_of_ok (catch_of_ok hrun)

/-! ## Episodes -/

inductive Episode (μ : Type) where
  /-- A package was found at a path, with its canonical folder. -/
  | found (dir folder : Path)
  /-- The helper files of the package in a canonical folder were started. -/
  | began (folder : Path)
  /-- All of them were run. -/
  | completed (folder : Path)
  /-- One of them failed, and the mark of the package was taken away. -/
  | withdrew (folder : Path)
  /-- A reference was resolved to a definition. -/
  | learned (reference : String) (definition : Definition μ)

/-- Neither session knows more of packages and references than the other. -/
structure Calm (s s' : Session μ) : Prop where
  settings : s'.settings = s.settings
  registry : s'.registry = s.registry
  searchRoot : s'.searchRoot = s.searchRoot
  cache : s'.cache = s.cache
  bootstrapped : s'.bootstrapped = s.bootstrapped
  tree : s.tree.Develops s'.tree

theorem Calm.of_tree (tree : FileTree) (h : s.tree.Develops tree) : Calm s { s with tree } :=
  ⟨rfl, rfl, rfl, rfl, rfl, h⟩

/-- A definition from a package that was found, and that is marked as bootstrapped. -/
def Definition.Housed (d : Definition μ) (es : List (Episode μ)) (s : Session μ) : Prop :=
  ∀ dir name file, d.origin = .package dir name file →
    ∃ folder, .found dir folder ∈ es ∧ s.Marked folder

/-- One session unfolds into another by episodes. -/
inductive Unfolds : Session μ → List (Episode μ) → Session μ → Prop
  | calm {s s' : Session μ} : Calm s s' → Unfolds s [] s'
  | append {s s₁ s' : Session μ} {es fs : List (Episode μ)} :
      Unfolds s es s₁ → Unfolds s₁ fs s' → Unfolds s (es ++ fs) s'
  /-- Packages are looked for in another folder for a while. -/
  | turned {s s' : Session μ} {root : Path} {es : List (Episode μ)} :
      Unfolds { s with searchRoot := root } es s' →
      Unfolds s es { s' with searchRoot := s.searchRoot }
  | found (s : Session μ) (dir : Path) : Unfolds s [.found dir (s.tree.canonical dir)] s
  | completed {s s' : Session μ} {resolve : String → Run μ (Definition μ)} {dir : Path}
      {manifest : Manifest} {folder : Path} {es : List (Episode μ)} : ¬ s.Marked folder →
      runHelpers resolve dir manifest (s.mark folder) = .ok () s' →
      Unfolds (s.mark folder) es s' →
      Unfolds s (.began folder :: es ++ [.completed folder]) s'
  | withdrew {s s' : Session μ} {resolve : String → Run μ (Definition μ)} {dir : Path}
      {manifest : Manifest} {folder : Path} {e : Error} {es : List (Episode μ)} :
      ¬ s.Marked folder →
      runHelpers resolve dir manifest (s.mark folder) = .error e s' →
      Unfolds (s.mark folder) es s' →
      Unfolds s (.began folder :: es ++ [.withdrew folder]) (s'.unmark folder)
  /-- A reference that was not known before is learned, whatever was learned on the way. -/
  | learned {s s' : Session μ} {reference : String} {d : Definition μ} {es : List (Episode μ)} :
      s.cached? reference = none → Unfolds s es s' →
      s'.registry.meaning? reference = some d.meaning → d.Housed es s' →
      Unfolds s (es ++ [.learned reference d]) (s'.remember reference d)

theorem Unfolds.refl (s : Session μ) : Unfolds s [] s :=
  .calm ⟨rfl, rfl, rfl, rfl, rfl, .refl s.tree⟩

/-! ## What stays -/

/-- What no operation changes, and what it may only add to. -/
structure Upholds (s s' : Session μ) : Prop where
  settings : s'.settings = s.settings
  registry : s'.registry = s.registry
  searchRoot : s'.searchRoot = s.searchRoot
  cached : ∀ reference d, s.cached? reference = some d → s'.cached? reference = some d
  bootstrapped : s.bootstrapped ⊆ s'.bootstrapped

theorem Session.cached?_remember_self (s : Session μ) (reference : String) (d : Definition μ) :
    (s.remember reference d).cached? reference = some d := by
  simp [Session.cached?, Session.remember]

theorem Session.cached?_remember_of_ne (s : Session μ) {reference other : String}
    (d : Definition μ) (h : other ≠ reference) :
    (s.remember reference d).cached? other = s.cached? other := by
  simp only [Session.cached?, Session.remember]
  rw [List.find?_cons_of_neg (by simpa using Ne.symm h), List.find?_filter]
  congr 1
  apply congrArg (fun p => List.find? p s.cache)
  funext entry
  by_cases hentry : entry.1 = other
  · simp [hentry, h]
  · simp [hentry]

theorem Unfolds.upholds {es : List (Episode μ)} (h : Unfolds s es s') : Upholds s s' := by
  induction h with
  | calm h =>
    refine ⟨h.settings, h.registry, h.searchRoot, ?_, by rw [h.bootstrapped]; exact fun _ hm => hm⟩
    intro reference d hd
    unfold Session.cached? at hd ⊢
    rw [h.cache]
    exact hd
  | append _ _ ih ih' =>
    exact ⟨ih'.settings.trans ih.settings, ih'.registry.trans ih.registry,
      ih'.searchRoot.trans ih.searchRoot, fun r d hd => ih'.cached r d (ih.cached r d hd),
      fun _ hm => ih'.bootstrapped (ih.bootstrapped hm)⟩
  | turned _ ih => exact ⟨ih.settings, ih.registry, rfl, ih.cached, ih.bootstrapped⟩
  | found => exact ⟨rfl, rfl, rfl, fun _ _ hd => hd, fun _ hm => hm⟩
  | completed _ _ _ ih =>
    exact ⟨ih.settings, ih.registry, ih.searchRoot, ih.cached,
      fun _ hm => ih.bootstrapped (List.mem_cons_of_mem _ hm)⟩
  | withdrew hnew _ _ ih =>
    refine ⟨ih.settings, ih.registry, ih.searchRoot, ih.cached, ?_⟩
    -- The mark that is taken away was not there before.
    intro marked hmem
    refine List.mem_filter.mpr ⟨ih.bootstrapped (List.mem_cons_of_mem _ hmem), ?_⟩
    rw [Bool.not_eq_true', Bool.eq_false_iff]
    exact fun hsame => hnew ⟨marked, hmem, hsame⟩
  | @learned _ _ reference _ _ hnew _ _ _ ih =>
    refine ⟨ih.settings, ih.registry, ih.searchRoot, ?_, ih.bootstrapped⟩
    intro other e he
    by_cases hother : other = reference
    · subst hother
      rw [hnew] at he
      cases he
    · rw [Session.cached?_remember_of_ne _ _ hother]
      exact ih.cached other e he

theorem Upholds.marked (h : Upholds s s') {folder : Path} (hm : s.Marked folder) :
    s'.Marked folder := by
  obtain ⟨marked, hmem, hsame⟩ := hm
  exact ⟨marked, h.bootstrapped hmem, hsame⟩

theorem Unfolds.develops {es : List (Episode μ)} (h : Unfolds s es s') :
    s.tree.Develops s'.tree := by
  induction h with
  | calm h => exact h.tree
  | append _ _ ih ih' => exact ih.trans ih'
  | turned _ ih => exact ih
  | found => exact .refl _
  | completed _ _ _ ih => exact ih
  | withdrew _ _ _ ih => exact ih
  | learned _ _ _ _ ih => exact ih

/-- What was learned is what the registry says. -/
theorem Unfolds.meanings {es : List (Episode μ)} (h : Unfolds s es s')
    (hs : ∀ entry ∈ s.cache, s.registry.meaning? entry.1 = some entry.2.meaning) :
    ∀ entry ∈ s'.cache, s'.registry.meaning? entry.1 = some entry.2.meaning := by
  induction h with
  | calm h =>
    rw [h.cache, h.registry]
    exact hs
  | append _ _ ih ih' => exact ih' (ih hs)
  | turned _ ih => exact ih hs
  | found => exact hs
  | completed _ _ _ ih => exact ih hs
  | withdrew _ _ _ ih => exact ih hs
  | learned _ _ hmeaning _ ih =>
    intro entry hentry
    rcases List.mem_cons.mp hentry with rfl | hentry
    · exact hmeaning
    · exact ih hs entry (List.mem_filter.mp hentry).1

/-! ## Operations -/

/-- No run of helper files failed. -/
def Smooth (es : List (Episode μ)) : Prop := ∀ folder, .withdrew folder ∉ es

theorem Smooth.append {es fs : List (Episode μ)} (h : Smooth es) (h' : Smooth fs) :
    Smooth (es ++ fs) := by
  intro folder hmem
  rcases List.mem_append.mp hmem with hmem | hmem
  · exact h folder hmem
  · exact h' folder hmem

/-- Whatever comes of an operation, it unfolds by episodes. Where it succeeds no run of helper files
failed, and what it returns is as said. The operation may work on more than a session. -/
def Tells {σ : Type} (look : σ → Session μ) (run : EStateM Error σ α) (s : σ)
    (post : List (Episode μ) → α → σ → Prop) : Prop :=
  ∃ es, Unfolds (look s) es (look (final (run s))) ∧
    ∀ a s', run s = .ok a s' → Smooth es ∧ post es a s'

namespace Tells

variable {σ β : Type} {look : σ → Session μ} {s : σ} {run : EStateM Error σ α}
  {post : List (Episode μ) → α → σ → Prop}

theorem calm (h : Calm (look s) (look (final (run s))))
    (hpost : ∀ a s', run s = .ok a s' → post [] a s') : Tells look run s post :=
  ⟨[], .calm h, fun a s' heq => ⟨by simp [Smooth], hpost a s' heq⟩⟩

theorem of_same (h : look (final (run s)) = look s)
    (hpost : ∀ a s', run s = .ok a s' → post [] a s') : Tells look run s post := by
  refine ⟨[], ?_, fun a s' heq => ⟨by simp [Smooth], hpost a s' heq⟩⟩
  rw [h]
  exact .refl _

theorem pure {a : α} (h : post [] a s) : Tells look (Pure.pure a) s post := by
  apply of_same rfl
  intro _ _ heq
  cases heq
  exact h

theorem throw {e : Error} : Tells look (throw e) s post := by
  apply of_same rfl
  intro _ _ heq
  cases heq

theorem throw_bind {e : Error} {next : α → EStateM Error σ β}
    {post : List (Episode μ) → β → σ → Prop} :
    Tells look (MonadExcept.throw e >>= next) s post := by
  have hrun : (MonadExcept.throw e >>= next) s = .error e s := bind_of_error (throw_apply e s)
  apply of_same
  · rw [hrun]
    rfl
  · intro _ _ heq
    rw [hrun] at heq
    cases heq

theorem get : Tells look (MonadState.get : EStateM Error σ σ) s fun _ a s' => a = s' := by
  apply of_same rfl
  intro _ _ heq
  cases heq
  rfl

theorem modify {f : σ → σ} (h : Calm (look s) (look (f s))) :
    Tells look (modify f) s fun _ _ s' => f s = s' := by
  apply calm h
  intro _ _ heq
  cases heq
  rfl

theorem mono {other : List (Episode μ) → α → σ → Prop} (h : Tells look run s post)
    (himp : ∀ es a s', Unfolds (look s) es (look s') → post es a s' → other es a s') :
    Tells look run s other := by
  obtain ⟨es, hes, hpost⟩ := h
  refine ⟨es, hes, ?_⟩
  intro a s' heq
  obtain ⟨hsmooth, hp⟩ := hpost a s' heq
  rw [heq] at hes
  exact ⟨hsmooth, himp es a s' hes hp⟩

/-- One operation after another. -/
theorem bind {next : α → EStateM Error σ β} {post' : List (Episode μ) → β → σ → Prop}
    (h : Tells look run s post)
    (hnext : ∀ es a s₁, Unfolds (look s) es (look s₁) → post es a s₁ →
      Tells look (next a) s₁ fun fs b s' => post' (es ++ fs) b s') :
    Tells look (run >>= next) s post' := by
  obtain ⟨es, hes, hpost⟩ := h
  cases hrun : run s with
  | error e s₁ =>
    rw [hrun] at hes
    unfold Tells
    rw [bind_of_error hrun]
    exact ⟨es, hes, by intro _ _ heq; cases heq⟩
  | ok a s₁ =>
    rw [hrun] at hes
    obtain ⟨hsmooth, hp⟩ := hpost a s₁ hrun
    obtain ⟨fs, hfs, hpost'⟩ := hnext es a s₁ hes hp
    unfold Tells
    rw [bind_of_ok hrun]
    refine ⟨es ++ fs, .append hes hfs, ?_⟩
    intro b s' heq
    obtain ⟨hsmooth', hp'⟩ := hpost' b s' heq
    exact ⟨hsmooth.append hsmooth', hp'⟩

end Tells

/-- An operation on a session that unfolds by episodes. -/
abbrev Recounts (run : Run μ α) (s : Session μ) : Prop :=
  Tells (fun s => s) run s fun _ _ _ => True

theorem Recounts.bind {β : Type} {run : Run μ α} {next : α → Run μ β} (h : Recounts run s)
    (hnext : ∀ a s₁, Recounts (next a) s₁) : Recounts (run >>= next) s :=
  Tells.bind h fun _ a s₁ _ _ => hnext a s₁

theorem recounts_of_same {run : Run μ α} (h : final (run s) = s) : Recounts run s :=
  Tells.of_same h fun _ _ _ => trivial

theorem recounts_ofExcept {result : Except Error α} : Recounts (Run.ofExcept result) s := by
  cases result with
  | ok a => exact recounts_of_same rfl
  | error e => exact recounts_of_same rfl

theorem tells_ofIo {path : Path} {result : Except IoCause α} :
    Tells (fun s => s) (Run.ofIo path result) s fun _ a s' => result = .ok a ∧ s = s' := by
  cases result with
  | ok a => exact Tells.pure ⟨rfl, rfl⟩
  | error cause => exact Tells.throw

theorem recounts_ofIo {path : Path} {result : Except IoCause α} :
    Recounts (Run.ofIo path result) s := tells_ofIo.mono fun _ _ _ _ _ => trivial

theorem recounts_get : Recounts (MonadState.get : Run μ (Session μ)) s := recounts_of_same rfl

theorem recounts_readText (path : Path) : Recounts (Run.readText path) s :=
  recounts_get.bind fun _ _ => recounts_ofIo

theorem recounts_digest (path : Path) : Recounts (Run.digest path) s := by
  apply recounts_get.bind
  intro _ _
  apply recounts_ofIo.bind
  intro _ _
  exact recounts_of_same rfl

theorem recounts_outputPath (path : Path) : Recounts (Run.outputPath path) s :=
  recounts_get.bind fun _ _ => recounts_ofExcept

theorem recounts_loadManifest (path : Path) : Recounts (Run.loadManifest path) s := by
  apply recounts_get.bind
  intro _ _
  split
  · exact recounts_of_same rfl
  · split
    · exact recounts_of_same rfl
    · exact recounts_of_same rfl

theorem calm_saveRecord (s : Session μ) : Calm s (final (Run.saveRecord s)) := by
  have hsave := save_develops s.record s.tree
  unfold Run.saveRecord
  split
  · next heq =>
    rw [heq] at hsave
    exact ⟨rfl, rfl, rfl, rfl, rfl, hsave⟩
  · next heq =>
    rw [heq] at hsave
    exact ⟨rfl, rfl, rfl, rfl, rfl, hsave⟩

theorem recounts_saveRecord : Recounts Run.saveRecord s :=
  Tells.calm (calm_saveRecord s) fun _ _ _ => trivial

theorem tells_setTree {tree : FileTree} (h : s.tree.Develops tree) :
    Tells (fun s => s) (modify fun s => { s with tree } : Run μ PUnit) s fun _ _ s' =>
      { s with tree } = s' := Tells.modify (.of_tree tree h)

theorem recounts_writeThrough (target : Path) (text : String) :
    Recounts (Run.writeThrough target text) s := by
  unfold Run.writeThrough
  dsimp only
  apply Tells.bind Tells.get
  rintro _ s _ - rfl
  apply Tells.bind (tells_ofIo (μ := μ))
  rintro _ tree _ - ⟨hwrite, rfl⟩
  apply Tells.bind (tells_setTree (FileTree.write_develops hwrite))
  rintro _ _ _ - rfl
  split
  · next hrename =>
    have hmoved := FileTree.rename_develops hrename
    exact (tells_setTree hmoved).mono fun _ _ _ _ _ => trivial
  · split
    · next hremove =>
      have hremoved := FileTree.removeFile_develops hremove
      apply Tells.bind (tells_setTree hremoved)
      intro _ _ _ _ _
      exact Tells.throw
    · exact Tells.throw

end SourceMacros
