-- Logs of the runs of helper files. A log says when the helper files of a package were started
-- and how that ended, and runs of different packages may nest. In a log that accounts for the marks
-- of a session, a run starts only where its package is not marked, so none is run through twice.
import SourceMacros.Proofs.Episodes

namespace SourceMacros

/-! ## Notes -/

/-- What happens to the helper files of the package in a canonical folder. -/
inductive Note where
  /-- They were started. -/
  | began (folder : Path)
  /-- All of them were run. -/
  | completed (folder : Path)
  /-- One of them failed, and the mark of the package was taken away. -/
  | withdrew (folder : Path)
  deriving DecidableEq, Repr

namespace Note

/-- The note of a run that starts in a folder. -/
def starts (folder : Path) : Note → Bool
  | began run => run.same folder
  | _ => false

/-- The note of a run that ends in a folder, one way or the other. -/
def ends (folder : Path) : Note → Bool
  | began _ => false
  | completed run => run.same folder
  | withdrew run => run.same folder

/-- The note of a run in a folder that went through. -/
def completes (folder : Path) : Note → Bool
  | completed run => run.same folder
  | _ => false

end Note

/-- More runs were started in a folder than have ended. -/
def InProgress (log : List Note) (folder : Path) : Prop :=
  log.countP (Note.ends folder) < log.countP (Note.starts folder)

instance (log : List Note) (folder : Path) : Decidable (InProgress log folder) :=
  inferInstanceAs (Decidable (_ < _))

/-! ## Logs -/

variable {μ : Type} {s s' s₁ : Session μ} {es fs : List Note}

/-- The notes that lead from the marks of one session to those of another. -/
inductive Logs : Session μ → List Note → Session μ → Prop
  | still {s s' : Session μ} : s'.bootstrapped = s.bootstrapped → Logs s [] s'
  | append {s s₁ s' : Session μ} {es fs : List Note} :
      Logs s es s₁ → Logs s₁ fs s' → Logs s (es ++ fs) s'
  | completed {s s' : Session μ} {folder : Path} {es : List Note} : ¬ s.Marked folder →
      Logs (s.mark folder) es s' → Logs s (.began folder :: es ++ [.completed folder]) s'
  | withdrew {s s' : Session μ} {folder : Path} {es : List Note} : ¬ s.Marked folder →
      Logs (s.mark folder) es s' →
      Logs s (.began folder :: es ++ [.withdrew folder]) (s'.unmark folder)

/-- Only the marks matter. -/
theorem Logs.of_marks {t t' : Session μ} (h : Logs s es s')
    (hs : t.bootstrapped = s.bootstrapped) (hs' : t'.bootstrapped = s'.bootstrapped) :
    Logs t es t' := by
  have hleft : Logs t ([] ++ es) s' := .append (.still hs.symm) h
  have hboth := Logs.append hleft (.still hs')
  rwa [List.nil_append, List.append_nil] at hboth

theorem Logs.marked (h : Logs s es s') {folder : Path} (hm : s.Marked folder) :
    s'.Marked folder := by
  induction h with
  | still hsame =>
    unfold Session.Marked at hm ⊢
    rwa [hsame]
  | append _ _ ih ih' => exact ih' (ih hm)
  | completed _ _ ih => exact ih (Session.marked_mark.mpr (Or.inr hm))
  | withdrew hnew _ ih =>
    refine Session.marked_unmark.mpr ⟨ih (Session.marked_mark.mpr (Or.inr hm)), ?_⟩
    rw [Bool.eq_false_iff]
    exact fun hsame => hnew (hm.of_same hsame)

/-- In a whole log every run that starts also ends. -/
theorem Logs.starts_eq_ends (h : Logs s es s') (folder : Path) :
    es.countP (Note.starts folder) = es.countP (Note.ends folder) := by
  induction h with
  | still => rfl
  | append _ _ ih ih' => rw [List.countP_append, List.countP_append, ih, ih']
  | @completed s s' run es _ _ ih | @withdrew s s' run es _ _ ih =>
    cases hrun : run.same folder with
    | true => simp [List.countP_append, Note.starts, Note.ends, hrun, ih]
    | false => simp [List.countP_append, Note.starts, Note.ends, hrun, ih]

theorem countP_completes_le (log : List Note) (folder : Path) :
    log.countP (Note.completes folder) ≤ log.countP (Note.ends folder) := by
  apply List.countP_mono_left
  intro n _ hn
  cases n with
  | completed run => exact hn
  | began run | withdrew run => cases hn

/-- No run starts in a folder whose package is marked. -/
theorem Logs.starts_of_marked (h : Logs s es s') {folder : Path} (hm : s.Marked folder) :
    es.countP (Note.starts folder) = 0 := by
  induction h with
  | still => rfl
  | append h _ ih ih' => rw [List.countP_append, ih hm, ih' (h.marked hm)]
  | @completed s s' run es hnew _ ih | @withdrew s s' run es hnew _ ih =>
    have hrun : run.same folder = false := by
      rw [Bool.eq_false_iff]
      exact fun hsame => hnew (hm.of_same (Path.same_symm hsame))
    have hinner := ih (Session.marked_mark.mpr (Or.inr hm))
    simp [List.countP_append, Note.starts, hrun, hinner]

theorem Logs.completes_of_marked (h : Logs s es s') {folder : Path} (hm : s.Marked folder) :
    es.countP (Note.completes folder) = 0 := by
  have hstarts := h.starts_of_marked hm
  have hends := h.starts_eq_ends folder
  have hle := countP_completes_le es folder
  omega

/-- A package is marked when it was marked before, or when its helper files were run through. -/
theorem Logs.marked_iff (h : Logs s es s') (folder : Path) :
    s'.Marked folder ↔ s.Marked folder ∨ 0 < es.countP (Note.completes folder) := by
  induction h with
  | still hsame =>
    unfold Session.Marked
    simp [hsame]
  | append _ _ ih ih' =>
    rw [ih', ih, List.countP_append, Nat.add_pos_iff_pos_or_pos, or_assoc]
  | @completed s s' run es _ _ ih =>
    rw [ih, Session.marked_mark]
    cases hrun : run.same folder with
    | true => simp [List.countP_append, Note.completes, hrun]
    | false => simp [List.countP_append, Note.completes, hrun]
  | @withdrew s s' run es hnew hinner ih =>
    rw [Session.marked_unmark, ih, Session.marked_mark]
    cases hrun : run.same folder with
    | true =>
      -- The mark of the run is the only one that its package has had.
      have hnone := hinner.completes_of_marked (Session.marked_mark.mpr (Or.inl hrun))
      have hbefore : ¬ s.Marked folder := fun hm => hnew (hm.of_same (Path.same_symm hrun))
      simp [List.countP_append, Note.completes, Path.same_symm hrun, hnone,
        hbefore]
    | false =>
      have hother : folder.same run = false := by
        rw [Bool.eq_false_iff] at hrun ⊢
        exact fun hsame => hrun (Path.same_symm hsame)
      simp [List.countP_append, Note.completes, hother]

/-- No two runs of the helper files in a folder go through. -/
theorem Logs.completes_le_one (h : Logs s es s') (folder : Path) :
    es.countP (Note.completes folder) ≤ 1 := by
  induction h with
  | still => simp
  | @append s s₁ s' es fs h h' ih ih' =>
    rw [List.countP_append]
    rcases Nat.eq_zero_or_pos (es.countP (Note.completes folder)) with hnone | hsome
    · omega
    · have := h'.completes_of_marked ((h.marked_iff folder).mpr (Or.inr hsome))
      omega
  | @completed s s' run es _ hinner ih =>
    cases hrun : run.same folder with
    | true =>
      have hnone := hinner.completes_of_marked (Session.marked_mark.mpr (Or.inl hrun))
      simp [List.countP_append, Note.completes, hrun, hnone]
    | false => simpa [List.countP_append, Note.completes, hrun] using ih
  | withdrew _ _ ih =>
    simpa [List.countP_append, Note.completes] using ih

/-! ## Starts -/

/-- A start is in the first or in the second of two logs. -/
theorem split_at_began {before after : List Note} {folder : Path}
    (h : es ++ fs = before ++ .began folder :: after) :
    (∃ rest, es = before ++ .began folder :: rest) ∨
      ∃ rest, before = es ++ rest ∧ fs = rest ++ .began folder :: after := by
  rcases List.append_eq_append_iff.mp h with ⟨rest, hbefore, hfs⟩ | ⟨rest, hes, hafter⟩
  · exact Or.inr ⟨rest, hbefore, hfs⟩
  · cases rest with
    | nil =>
      refine Or.inr ⟨[], ?_, ?_⟩
      · simpa using hes.symm
      · simpa using hafter.symm
    | cons n rest =>
      cases hafter
      exact Or.inl ⟨rest, hes⟩

/-- A run starts only where no run in its folder is in progress and none has gone through. -/
theorem Logs.before_start (h : Logs s es s') {before after : List Note} {folder : Path}
    (heq : es = before ++ .began folder :: after) :
    before.countP (Note.starts folder) = before.countP (Note.ends folder) ∧
      before.countP (Note.completes folder) = 0 := by
  have hfresh : ∀ {t t' : Session μ} {log rest : List Note}, Logs t log t' → ∀ {prior},
      log = prior ++ .began folder :: rest → ¬ t.Marked folder := by
    rintro t t' log rest hlog prior rfl hm
    have hnone := hlog.starts_of_marked hm
    simp [List.countP_append, Note.starts, Path.same_refl] at hnone
  induction h generalizing before after with
  | still => simp at heq
  | @append s s₁ s' es fs h h' ih ih' =>
    rcases split_at_began heq with ⟨rest, hes⟩ | ⟨rest, hbefore, hfs⟩
    · exact ih hes
    · obtain ⟨hstarts, hnone⟩ := ih' hfs
      have hes : es.countP (Note.completes folder) = 0 := by
        have hunmarked := hfresh h' hfs
        rw [h.marked_iff] at hunmarked
        omega
      rw [hbefore, List.countP_append, List.countP_append, List.countP_append,
        h.starts_eq_ends folder, hstarts, hnone, hes]
      exact ⟨rfl, rfl⟩
  | @completed s s' run es _ hinner ih | @withdrew s s' run es _ hinner ih =>
    cases before with
    | nil => simp
    | cons n before =>
      simp only [List.cons_append, List.cons.injEq] at heq
      obtain ⟨rfl, heq⟩ := heq
      rcases split_at_began heq with ⟨rest, hes⟩ | ⟨rest, -, hlast⟩
      · obtain ⟨hstarts, hnone⟩ := ih hes
        have hrun : run.same folder = false := by
          rw [Bool.eq_false_iff]
          exact fun hsame => hfresh hinner hes (Session.marked_mark.mpr (Or.inl hsame))
        simp [Note.starts, Note.ends, Note.completes, hrun, hstarts, hnone]
      · cases rest with
        | nil => simp at hlast
        | cons m rest => simp at hlast

end SourceMacros
