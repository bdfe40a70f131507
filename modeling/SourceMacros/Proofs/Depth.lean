-- Depth: how many levels of resolution are enough. The levels that mark a package are bounded by
-- the folders there are to mark. The levels that open an implementation source are bounded by
-- nothing, unless a guard says how often a source may be opened inside itself.
import SourceMacros.Proofs.Bounds

namespace SourceMacros

variable {μ σ α : Type} {s s' : Session μ} {e : Error} {reference : String}

/-! ## Depth -/

/-- Resolves a reference with so many levels left. Below the last one there is only an error. -/
def resolveAbove (bottom : Error) : Nat → String → Run μ (Definition μ)
  | 0, _ => throw bottom
  | n + 1, reference => resolveVia (resolveAbove bottom n) reference

theorem resolveAbove_tooDeep (n : Nat) : resolveAbove .tooDeep n = resolveWithin (μ := μ) n := by
  induction n with
  | zero => rfl
  | succ n ih =>
    funext reference
    unfold resolveAbove resolveWithin
    rw [ih]

/-- So many levels are enough: the outcome does not depend on what lies below them. -/
def Ends (n : Nat) (reference : String) (s : Session μ) : Prop :=
  ∀ bottom bottom', resolveAbove bottom n reference s = resolveAbove bottom' n reference s

/-- Resolves a reference while some implementation sources are open. None of them may be opened
once more that is open as often as the limit says. -/
def resolveGuarded (limit : Nat) (refusal bottom : Error) :
    Nat → List Path → String → Run μ (Definition μ)
  | 0, _, _ => throw bottom
  | n + 1, opened, reference => fun s =>
    match due? s reference with
    | none => resolveVia (resolveGuarded limit refusal bottom n opened) reference s
    | some file =>
      if opened.count file < limit then
        resolveVia (resolveGuarded limit refusal bottom n (file :: opened)) reference s
      else .error refusal s

/-- So many levels are enough under a guard, whatever the guard answers. -/
def GuardedEnds (limit n : Nat) (reference : String) (s : Session μ) : Prop :=
  ∀ refusal bottom bottom', resolveGuarded limit refusal bottom n [] reference s =
    resolveGuarded limit refusal bottom' n [] reference s

/-- The guard is not met on so many levels: the outcome does not depend on what it answers. -/
def Unrefused (limit n : Nat) (reference : String) (s : Session μ) : Prop :=
  ∀ refusal refusal' bottom, resolveGuarded limit refusal bottom n [] reference s =
    resolveGuarded limit refusal' bottom n [] reference s

/-! ## Outcomes at two depths -/

/-- What does not depend on the error is the same. -/
theorem eq_of_yields {x y : EStateM.Result Error σ α} (h : ∀ e, Yields e x y) : x = y := by
  rcases h .tooDeep with heq | ⟨a, hdeep⟩
  · exact heq
  · rcases h .interrupted with heq | ⟨b, hstop⟩
    · exact heq
    · rw [hdeep] at hstop
      cases hstop

theorem resolveAbove_narrates (bottom : Error) (n : Nat) :
    Narrates (μ := μ) (resolveAbove bottom n) := by
  induction n with
  | zero => exact fun _ _ => Tells.throw
  | succ n ih => exact ih.resolveVia

theorem resolveGuarded_narrates (limit : Nat) (refusal bottom : Error) (n : Nat)
    (opened : List Path) : Narrates (μ := μ) (resolveGuarded limit refusal bottom n opened) := by
  induction n generalizing opened with
  | zero => exact fun _ _ => Tells.throw
  | succ n ih =>
    intro reference s
    have hvia := fun opened => (ih opened).resolveVia reference s
    unfold Recounts Tells resolveGuarded
    dsimp only
    split
    · exact hvia opened
    · split
      · exact hvia _
      · exact ⟨[], .refl s, by intro _ _ heq; cases heq⟩

/-- What lies deeper shows only where the error below the last level does. -/
theorem yields_resolveAbove (bottom bottom' : Error) (n m : Nat) (reference : String)
    (s : Session μ) : Yields bottom (resolveAbove bottom n reference s)
      (resolveAbove bottom' (n + m) reference s) := by
  induction n generalizing reference s with
  | zero => exact Or.inr ⟨s, rfl⟩
  | succ n ih =>
    rw [Nat.succ_add]
    exact yields_resolveVia (resolveAbove_narrates bottom n) (fun _ _ other s' _ => ih other s')
      fun _ _ other s' _ => ih other s'

theorem Ends.resolveAbove_eq {n : Nat} (h : Ends n reference s) (m : Nat) (bottom bottom' : Error) :
    resolveAbove bottom' (n + m) reference s = resolveAbove bottom n reference s := by
  apply Eq.symm
  apply eq_of_yields
  intro e
  rw [h bottom e]
  exact yields_resolveAbove e bottom' n m reference s

/-- Where levels are not enough, the error below the last one is the outcome. -/
theorem error_of_not_ends {n : Nat} (h : ¬ Ends n reference s) (bottom : Error) :
    ∃ s', resolveAbove bottom n reference s = .error bottom s' := by
  by_cases herror : ∃ s', resolveAbove bottom n reference s = .error bottom s'
  · exact herror
  · have hsame : ∀ bottom', resolveAbove bottom n reference s = resolveAbove bottom' n reference s :=
      fun bottom' => (yields_resolveAbove bottom bottom' n 0 reference s).resolve_right herror
    exact absurd (fun b b' => (hsame b).symm.trans (hsame b')) h

/-- The guard shows only where its answer does. -/
theorem yields_resolveGuarded (limit : Nat) (refusal bottom : Error) (n : Nat)
    (opened : List Path) (reference : String) (s : Session μ) :
    Yields refusal (resolveGuarded limit refusal bottom n opened reference s)
      (resolveAbove bottom n reference s) := by
  induction n generalizing opened reference s with
  | zero => exact Or.inl rfl
  | succ n ih =>
    have hvia : ∀ opened, Yields refusal
        (resolveVia (resolveGuarded limit refusal bottom n opened) reference s)
        (resolveVia (resolveAbove bottom n) reference s) := fun opened =>
      yields_resolveVia (resolveGuarded_narrates limit refusal bottom n opened)
        (fun _ _ other s' _ => ih opened other s') fun _ _ other s' _ => ih opened other s'
    unfold resolveGuarded resolveAbove
    split
    · exact hvia opened
    · split
      · exact hvia _
      · exact Or.inr ⟨s, rfl⟩

theorem yields_resolveGuarded_deeper (limit : Nat) (refusal bottom bottom' : Error) (n m : Nat)
    (opened : List Path) (reference : String) (s : Session μ) :
    Yields bottom (resolveGuarded limit refusal bottom n opened reference s)
      (resolveGuarded limit refusal bottom' (n + m) opened reference s) := by
  induction n generalizing opened reference s with
  | zero => exact Or.inr ⟨s, rfl⟩
  | succ n ih =>
    have hvia : ∀ opened, Yields bottom
        (resolveVia (resolveGuarded limit refusal bottom n opened) reference s)
        (resolveVia (resolveGuarded limit refusal bottom' (n + m) opened) reference s) :=
      fun opened => yields_resolveVia (resolveGuarded_narrates limit refusal bottom n opened)
        (fun _ _ other s' _ => ih opened other s') fun _ _ other s' _ => ih opened other s'
    rw [Nat.succ_add]
    unfold resolveGuarded
    cases due? s reference with
    | none => exact hvia opened
    | some file =>
      dsimp only
      split
      · exact hvia _
      · exact Or.inl rfl

/-- A guard is not met on fewer levels than it lets a source be opened. -/
theorem resolveGuarded_eq_above {limit : Nat} (refusal bottom : Error) {n : Nat}
    {opened : List Path} (h : opened.length + n ≤ limit) :
    resolveGuarded limit refusal bottom n opened = resolveAbove (μ := μ) bottom n := by
  induction n generalizing opened with
  | zero => rfl
  | succ n ih =>
    funext reference s
    unfold resolveGuarded resolveAbove
    split
    · rw [ih (by omega)]
    · next file _ =>
      have hcount : opened.count file ≤ opened.length := List.count_le_length
      rw [if_pos (by omega), ih (by rw [List.length_cons]; omega)]

/-- Where so many levels are enough, a guard that lets a source be opened as often is not met. -/
theorem Ends.unrefused {n : Nat} (h : Ends n reference s) (m : Nat) : Unrefused n m reference s := by
  have hsame : ∀ refusal bottom, resolveGuarded n refusal bottom m [] reference s =
      resolveAbove bottom m reference s := by
    intro refusal bottom
    rcases Nat.le_total m n with hle | hle
    · rw [resolveGuarded_eq_above refusal bottom (by simpa using hle)]
    · obtain ⟨k, rfl⟩ := Nat.exists_eq_add_of_le hle
      rw [h.resolveAbove_eq k bottom bottom]
      apply Eq.symm
      apply eq_of_yields
      intro e
      have hdeeper := yields_resolveGuarded_deeper n refusal e bottom n k [] reference s
      rw [resolveGuarded_eq_above refusal e (by simp), h e bottom] at hdeeper
      exact hdeeper
  intro refusal refusal' bottom
  rw [hsame, hsame]

/-- Where a guard is not met, the outcome is that without a guard. -/
theorem Unrefused.resolveGuarded_eq {limit n : Nat} (h : Unrefused limit n reference s)
    (refusal bottom : Error) : resolveGuarded limit refusal bottom n [] reference s =
      resolveAbove bottom n reference s := by
  apply eq_of_yields
  intro e
  rw [h refusal e bottom]
  exact yields_resolveGuarded limit e bottom n [] reference s

/-! ## What is left to open -/

instance (s : Session μ) (folder : Path) : Decidable (s.Marked folder) :=
  decidable_of_iff _ Session.marked_iff_any

/-- The folders among some paths that are not marked. -/
def unmarked (paths : Finset Path) (s : Session μ) : Finset Path :=
  paths.filter fun folder => ¬ s.Marked folder

/-- The openings of some sources that a guard still lets through, numbered from the first. -/
def openings (paths : Finset Path) (limit : Nat) (opened : List Path) : Finset (Path × Nat) :=
  (paths ×ˢ Finset.range limit).filter fun opening => opened.count opening.1 ≤ opening.2

variable {paths : Finset Path} {limit : Nat} {opened : List Path}

theorem unmarked_subset (h : Grows s s') : unmarked paths s' ⊆ unmarked paths s := by
  intro folder hfolder
  obtain ⟨hmem, hnew⟩ := Finset.mem_filter.mp hfolder
  exact Finset.mem_filter.mpr ⟨hmem, fun hmarked => hnew (h.marked folder hmarked)⟩

theorem card_unmarked_lt {folder : Path} (hmem : folder ∈ paths) (hnew : ¬ s.Marked folder)
    (h : Grows (s.mark folder) s') : (unmarked paths s').card < (unmarked paths s).card := by
  have hmarked : s'.Marked folder :=
    h.marked folder (Session.marked_mark.mpr (Or.inl (Path.same_refl folder)))
  apply Finset.card_lt_card
  rw [Finset.ssubset_iff_of_subset (unmarked_subset ((s.grows_mark folder).trans h))]
  refine ⟨folder, Finset.mem_filter.mpr ⟨hmem, hnew⟩, ?_⟩
  intro hleft
  exact (Finset.mem_filter.mp hleft).2 hmarked

theorem card_openings_lt {file : Path} (hmem : file ∈ paths) (h : opened.count file < limit) :
    (openings paths limit (file :: opened)).card < (openings paths limit opened).card := by
  have hsubset : openings paths limit (file :: opened) ⊆ openings paths limit opened := by
    intro opening hopening
    obtain ⟨hpath, hcount⟩ := Finset.mem_filter.mp hopening
    exact Finset.mem_filter.mpr ⟨hpath, Nat.le_trans List.count_le_count_cons hcount⟩
  apply Finset.card_lt_card
  rw [Finset.ssubset_iff_of_subset hsubset]
  refine ⟨(file, opened.count file), ?_, ?_⟩
  · exact Finset.mem_filter.mpr
      ⟨Finset.mem_product.mpr ⟨hmem, Finset.mem_range.mpr h⟩, Nat.le_refl _⟩
  · intro hopening
    have hcount := (Finset.mem_filter.mp hopening).2
    rw [List.count_cons_self] at hcount
    exact Nat.not_succ_le_self _ hcount

/-- With a guard, each level marks a folder or uses up an opening, so as many levels are enough as
there are folders to mark and openings left. -/
theorem resolveGuarded_settles {bound : Nat} (hbound : FileTree.pathLimit ≤ bound)
    (hpaths : ∀ p : Path, p.text.utf8ByteSize ≤ 3 * bound + 2 → p ∈ paths) (limit : Nat)
    (refusal bottom bottom' : Error) (n : Nat) (opened : List Path) (reference : String)
    (s : Session μ) (hs : s.tree.Bounded bound)
    (hn : (unmarked paths s).card + (openings paths limit opened).card < n) :
    resolveGuarded limit refusal bottom n opened reference s =
      resolveGuarded limit refusal bottom' n opened reference s := by
  induction n generalizing opened reference s with
  | zero => exact absurd hn (Nat.not_lt_zero _)
  | succ n ih =>
    have hname : FileTree.nameLimit ≤ bound := Nat.le_trans (by decide) hbound
    have hopens : ∀ opened',
        (openings paths limit opened').card ≤ (openings paths limit opened).card →
        ∀ folder, opens? s reference = some folder → ∀ other s', Grows (s.mark folder) s' →
          resolveGuarded limit refusal bottom n opened' other s' =
            resolveGuarded limit refusal bottom' n opened' other s' := by
      intro opened' hless folder hfolder other s' hgrows
      obtain ⟨hsize, hnew⟩ := size_opens hbound hs hfolder
      have hfewer := card_unmarked_lt (hpaths folder hsize) hnew hgrows
      exact ih opened' other s' (hs.develops hname hgrows.tree) (by omega)
    unfold resolveGuarded
    cases hdue : due? s reference with
    | none =>
      apply eq_of_yields
      intro e
      apply yields_resolveVia (resolveGuarded_narrates limit refusal bottom n opened)
      · intro folder hfolder other s' hgrows
        exact Or.inl (hopens opened (Nat.le_refl _) folder hfolder other s' hgrows)
      · intro file hfile
        rw [hdue] at hfile
        cases hfile
    | some file =>
      dsimp only
      split
      · next hroom =>
        have hfewer := card_openings_lt (hpaths file (size_due hbound hdue)) hroom
        apply eq_of_yields
        intro e
        apply yields_resolveVia (resolveGuarded_narrates limit refusal bottom n (file :: opened))
        · intro folder hfolder other s' hgrows
          exact Or.inl (hopens _ (Nat.le_of_lt hfewer) folder hfolder other s' hgrows)
        · intro _ _ other s' hgrows
          have hmarks : (unmarked paths s').card ≤ (unmarked paths s).card :=
            Finset.card_le_card (unmarked_subset hgrows)
          exact Or.inl (ih (file :: opened) other s' (hs.develops hname hgrows.tree) (by omega))
      · rfl

/-- With any guard resolution ends. -/
theorem exists_guardedEnds (limit : Nat) (reference : String) (s : Session μ) :
    ∃ n, GuardedEnds limit n reference s := by
  obtain ⟨bound, hbound, hs⟩ := s.tree.exists_bounded
  have hfinite := finite_paths (3 * bound + 2)
  refine ⟨(unmarked hfinite.toFinset s).card + (openings hfinite.toFinset limit []).card + 1, ?_⟩
  intro refusal bottom bottom'
  refine resolveGuarded_settles hbound ?_ limit refusal bottom bottom' _ [] reference s hs
    (Nat.lt_succ_self _)
  intro p hp
  exact hfinite.mem_toFinset.mpr hp

end SourceMacros
