-- The laws of packages and references. A call keeps what a session knows, however it ends. A
-- package is marked exactly when all its helper files were run once, and a macro of a package
-- that is not marked was learned inside a run of its helper files that failed later.
import SourceMacros.Proofs.Calls

namespace SourceMacros

variable {μ : Type} {s s' : Session μ} {es fs : List (Episode μ)}

/-! ## Runs of helper files -/

/-- No run starts for a package that is marked. -/
theorem Unfolds.began_unmarked (h : Unfolds s es s') {folder : Path} (hbegan : .began folder ∈ es) :
    ¬ s.Marked folder := by
  induction h with
  | calm => cases hbegan
  | append h _ ih ih' =>
    rcases List.mem_append.mp hbegan with hbegan | hbegan
    · exact ih hbegan
    · exact fun hmarked => ih' hbegan (h.upholds.marked hmarked)
  | turned _ ih => exact ih hbegan
  | found => simp at hbegan
  | completed hnew _ _ ih | withdrew hnew _ _ ih =>
    simp only [List.cons_append, List.mem_cons, Episode.began.injEq, List.mem_append, reduceCtorEq,
      List.not_mem_nil, or_false] at hbegan
    rcases hbegan with rfl | hbegan
    · exact hnew
    · exact fun hmarked => ih hbegan (Session.marked_mark.mpr (Or.inr hmarked))
  | learned _ _ _ _ ih =>
    simp only [List.mem_append, List.mem_singleton, reduceCtorEq, or_false] at hbegan
    exact ih hbegan

theorem Unfolds.began_of_completed (h : Unfolds s es s') {folder : Path}
    (hcompleted : .completed folder ∈ es) : .began folder ∈ es := by
  induction h with
  | calm => cases hcompleted
  | append _ _ ih ih' =>
    rcases List.mem_append.mp hcompleted with hcompleted | hcompleted
    · exact List.mem_append_left _ (ih hcompleted)
    · exact List.mem_append_right _ (ih' hcompleted)
  | turned _ ih => exact ih hcompleted
  | found => simp at hcompleted
  | completed _ _ _ ih =>
    simp only [List.cons_append, List.mem_cons, reduceCtorEq, List.mem_append,
      Episode.completed.injEq, List.not_mem_nil, or_false, false_or] at hcompleted
    rcases hcompleted with hcompleted | rfl
    · simp [ih hcompleted]
    · simp
  | withdrew _ _ _ ih =>
    simp only [List.cons_append, List.mem_cons, reduceCtorEq, List.mem_append, List.not_mem_nil,
      or_false, false_or] at hcompleted
    simp [ih hcompleted]
  | learned _ _ _ _ ih =>
    simp only [List.mem_append, List.mem_singleton, reduceCtorEq, or_false] at hcompleted
    exact List.mem_append_left _ (ih hcompleted)

/-- A run of the helper files in a folder was completed. -/
def RanThrough (es : List (Episode μ)) (folder : Path) : Prop :=
  ∃ run, run.same folder = true ∧ .completed run ∈ es

theorem ranThrough_append {folder : Path} :
    RanThrough (es ++ fs) folder ↔ RanThrough es folder ∨ RanThrough fs folder := by
  constructor
  · rintro ⟨run, hsame, hmem⟩
    rcases List.mem_append.mp hmem with hmem | hmem
    · exact Or.inl ⟨run, hsame, hmem⟩
    · exact Or.inr ⟨run, hsame, hmem⟩
  · rintro (⟨run, hsame, hmem⟩ | ⟨run, hsame, hmem⟩)
    · exact ⟨run, hsame, List.mem_append_left _ hmem⟩
    · exact ⟨run, hsame, List.mem_append_right _ hmem⟩

/-- A package is marked when it was marked before, or when its helper files were run through. -/
theorem Unfolds.marked_iff (h : Unfolds s es s') (folder : Path) :
    s'.Marked folder ↔ s.Marked folder ∨ RanThrough es folder := by
  induction h with
  | calm h =>
    unfold Session.Marked
    rw [h.bootstrapped]
    simp [RanThrough]
  | append _ _ ih ih' => rw [ih', ih, ranThrough_append, or_assoc]
  | turned _ ih => exact ih
  | found => simp [RanThrough]
  | @completed _ _ _ _ _ run es _ _ _ ih =>
    have hrun : RanThrough (.began run :: es ++ [.completed run]) folder ↔
        run.same folder = true ∨ RanThrough es folder := by
      simp only [RanThrough, List.cons_append, List.mem_cons, reduceCtorEq, List.mem_append,
        Episode.completed.injEq, List.not_mem_nil, or_false, false_or]
      grind
    rw [ih, Session.marked_mark, hrun, or_assoc, or_left_comm]
  | @withdrew s s' _ _ _ run _ es hnew _ hin ih =>
    have hrun : RanThrough (.began run :: es ++ [.withdrew run]) folder ↔ RanThrough es folder := by
      simp [RanThrough]
    rw [Session.marked_unmark, ih, Session.marked_mark, hrun]
    constructor
    · rintro ⟨(hsame | hmarked) | hthrough, hother⟩
      · rw [Path.same_symm hsame] at hother
        cases hother
      · exact Or.inl hmarked
      · exact Or.inr hthrough
    · intro hmarked
      refine ⟨hmarked.elim (fun h => Or.inl (Or.inr h)) Or.inr, ?_⟩
      rw [Bool.eq_false_iff]
      intro hsame
      rcases hmarked with hmarked | ⟨other, hother, hcompleted⟩
      · exact hnew (hmarked.of_same hsame)
      · -- Inside the run its own package is marked, so no other run of it can be completed.
        apply hin.began_unmarked (hin.began_of_completed hcompleted)
        exact Session.marked_mark.mpr
          (Or.inl (Path.same_symm (Path.same_trans hother hsame)))
  | learned _ _ _ _ ih =>
    rw [ranThrough_append]
    simpa [RanThrough, Session.Marked, Session.remember] using ih

/-! ## What was learned -/

/-- A reference was learned inside a run of the helper files in a folder, and the run failed. -/
def LearnedInVain (es : List (Episode μ)) (folder : Path) (reference : String)
    (d : Definition μ) : Prop :=
  ∃ run before during after, run.same folder = true ∧
    es = before ++ (.began run :: during ++ [.withdrew run]) ++ after ∧
    .learned reference d ∈ during

theorem LearnedInVain.append {folder : Path} {reference : String} {d : Definition μ}
    (h : LearnedInVain es folder reference d) (before after : List (Episode μ)) :
    LearnedInVain (before ++ es ++ after) folder reference d := by
  obtain ⟨run, first, during, last, hsame, rfl, hmem⟩ := h
  exact ⟨run, before ++ first, during, last ++ after, hsame, by simp, hmem⟩

/-- The package of a definition was found, and it is marked, or else the definition was learned in
vain. -/
def Accounted (es : List (Episode μ)) (s : Session μ) (reference : String) (d : Definition μ) :
    Prop :=
  ∀ dir name file, d.origin = .package dir name file →
    ∃ folder, .found dir folder ∈ es ∧ (s.Marked folder ∨ LearnedInVain es folder reference d)

theorem Accounted.append {reference : String} {d : Definition μ} (h : Accounted es s reference d)
    (hs : ∀ folder, s.Marked folder → s'.Marked folder) (before after : List (Episode μ)) :
    Accounted (before ++ es ++ after) s' reference d := by
  intro dir name file horigin
  obtain ⟨folder, hfound, hmarked | hvain⟩ := h dir name file horigin
  · exact ⟨folder, by simp [hfound], Or.inl (hs folder hmarked)⟩
  · exact ⟨folder, by simp [hfound], Or.inr (hvain.append before after)⟩

/-- What was learned in a run that fails is accounted for after it. -/
theorem Accounted.withdraw {reference : String} {d : Definition μ} (h : Accounted es s reference d)
    (hlearned : .learned reference d ∈ es) (run : Path) :
    Accounted (.began run :: es ++ [.withdrew run]) (s.unmark run) reference d := by
  intro dir name file horigin
  obtain ⟨folder, hfound, hmarked | hvain⟩ := h dir name file horigin
  · refine ⟨folder, by simp [hfound], ?_⟩
    cases hsame : folder.same run with
    | true => exact Or.inr ⟨run, [], es, [], Path.same_symm hsame, by simp, hlearned⟩
    | false => exact Or.inl (Session.marked_unmark.mpr ⟨hmarked, hsame⟩)
  · exact ⟨folder, by simp [hfound], Or.inr (hvain.append [.began run] [.withdrew run])⟩

/-- What is remembered after an operation was remembered before, or it was learned on the way and is
accounted for. -/
theorem Unfolds.accounted (h : Unfolds s es s') {reference : String} {d : Definition μ}
    (hd : s'.cached? reference = some d) : s.cached? reference = some d ∨
      .learned reference d ∈ es ∧ Accounted es s' reference d := by
  induction h generalizing reference d with
  | calm h =>
    unfold Session.cached? at hd ⊢
    rw [h.cache] at hd
    exact Or.inl hd
  | @append _ _ _ es fs _ h' ih ih' =>
    rcases ih' hd with hd | ⟨hlearned, haccounted⟩
    · rcases ih hd with hd | ⟨hlearned, haccounted⟩
      · exact Or.inl hd
      · refine Or.inr ⟨List.mem_append_left _ hlearned, ?_⟩
        exact haccounted.append (fun _ => h'.upholds.marked) [] fs
    · refine Or.inr ⟨List.mem_append_right _ hlearned, ?_⟩
      simpa using haccounted.append (fun _ hm => hm) es []
  | turned _ ih => exact ih hd
  | found => exact Or.inl hd
  | @completed _ _ _ _ _ run es _ _ _ ih =>
    rcases ih hd with hd | ⟨hlearned, haccounted⟩
    · exact Or.inl hd
    · refine Or.inr ⟨by simp [hlearned], ?_⟩
      exact haccounted.append (fun _ hm => hm) [.began run] [.completed run]
  | @withdrew _ _ _ _ _ run _ es _ _ _ ih =>
    rcases ih hd with hd | ⟨hlearned, haccounted⟩
    · exact Or.inl hd
    · exact Or.inr ⟨by simp [hlearned], haccounted.withdraw hlearned run⟩
  | @learned s s' other e es _ _ _ hhoused ih =>
    by_cases hother : reference = other
    · subst hother
      rw [Session.cached?_remember_self] at hd
      cases hd
      refine Or.inr ⟨by simp, ?_⟩
      intro dir name file horigin
      obtain ⟨folder, hfound, hmarked⟩ := hhoused dir name file horigin
      exact ⟨folder, List.mem_append_left _ hfound, Or.inl hmarked⟩
    · rw [Session.cached?_remember_of_ne _ _ hother] at hd
      rcases ih hd with hd | ⟨hlearned, haccounted⟩
      · exact Or.inl hd
      · refine Or.inr ⟨List.mem_append_left _ hlearned, ?_⟩
        exact haccounted.append (fun _ hm => hm) [] [.learned other e]

/-! ## Histories -/

theorem Lived.marked_iff {start : Session μ} (hstart : start.bootstrapped = [])
    (h : Lived start es s) (folder : Path) : s.Marked folder ↔ RanThrough es folder := by
  induction h with
  | start => simp [Session.Marked, hstart, RanThrough]
  | call c _ hfs _ ih => rw [hfs.marked_iff, ih, ranThrough_append]
  | @save _ s _ ih =>
    unfold Session.Marked at ih ⊢
    rw [(calm_saveRecord s).bootstrapped]
    exact ih
  | turn _ _ ih => exact ih
  | outside _ _ _ _ ih => exact ih

theorem Lived.accounted {start : Session μ} (hstart : start.cache = []) (h : Lived start es s)
    {reference : String} {d : Definition μ} (hd : s.cached? reference = some d) :
    Accounted es s reference d := by
  induction h generalizing reference d with
  | start =>
    rw [Session.cached?, hstart] at hd
    cases hd
  | @call es fs _ c _ hfs _ ih =>
    rcases hfs.accounted hd with hd | ⟨-, haccounted⟩
    · exact (ih hd).append (fun _ => hfs.upholds.marked) [] fs
    · simpa using haccounted.append (fun _ hm => hm) es []
  | @save _ s _ ih =>
    have hcalm := calm_saveRecord s
    unfold Session.cached? at hd
    rw [hcalm.cache] at hd
    intro dir name file horigin
    obtain ⟨folder, hfound, hmarked⟩ := ih hd dir name file horigin
    refine ⟨folder, hfound, ?_⟩
    unfold Session.Marked at hmarked ⊢
    rw [hcalm.bootstrapped]
    exact hmarked
  | turn _ _ ih => exact ih hd
  | outside _ _ _ _ ih => exact ih hd

/-! ## A package whose helper fails -/

/-- The manifest of a package with one macro and some helper files. -/
def manifestText (file helpers : String) : String :=
  "\x7b\"name\": \"p\", \"package\": \"p\", \"description\": \"d\", \"macros\": [" ++
    "\x7b\"name\": \"m\", \"keyword\": \"m\", \"description\": \"d\", \"file\": \"" ++ file ++
    "\"\x7d], \"bootstrap\": [" ++ helpers ++ "]\x7d"

/-- A session over one installed package with its files. -/
def packageSession (files : List (String × String)) : Session Unit :=
  let file (entry : String × String) : Key × Node :=
    (["pkgs", "p", entry.1], .file entry.2.toUTF8)
  .start { packagesRoot := some ⟨"pkgs"⟩ } (Registry.standard.insert (.package "p" "m") .hello)
    ⟨(["pkgs"], .folder) :: (["pkgs", "p"], .folder) :: files.map file, []⟩ false ()

/-- The first helper imports the macro of its own package, and the second one is faulty. -/
@[irreducible]
def faultyPackage : Session Unit :=
  packageSession [("macros.json", manifestText "m.py" "\"a.mpy\", \"b.mpy\""), ("m.py", ""),
    ("a.mpy", "macro import p.m\n"), ("b.mpy", ")\n")]

/-- The session after the macro of the faulty package was asked for. -/
@[irreducible]
def faultyResolved : Session Unit := (Call.resolve "p.m").perform faultyPackage

theorem faultyPackage_fresh : faultyPackage.cache = [] ∧ faultyPackage.bootstrapped = [] := by
  unfold faultyPackage
  exact ⟨rfl, rfl⟩

theorem faultyResolved_facts : (value? (resolve "p.m" faultyPackage)).isNone = true ∧
    (faultyResolved.cached? "p.m").map Definition.origin =
      some (.package ⟨"pkgs/p"⟩ "p" ⟨"pkgs/p/m.py"⟩) ∧
    faultyResolved.isBootstrapped ⟨"pkgs/p"⟩ = false ∧
    faultyResolved.tree.canonical ⟨"pkgs/p"⟩ = faultyPackage.tree.canonical ⟨"pkgs/p"⟩ ∧
    value? ((Call.translateFile ⟨"pkgs/p/b.mpy"⟩).run faultyResolved) = none := by
  decide +kernel

theorem faultyResolved_lived : ∃ es, Lived faultyPackage es faultyResolved := by
  unfold faultyResolved
  exact Lived.start.after_call (.resolve "p.m")

/-! ## The laws -/

/-- A call keeps the settings, the registry and the search root. It keeps every definition that was
resolved before, which is what its reference leads to whatever becomes of the files, and it keeps
every mark. -/
theorem a_call_keeps_what_the_session_knows (c : Call μ) (s : Session μ) :
    Upholds s (c.perform s) ∧
      ∀ reference d tree, s.cached? reference = some d →
        resolve reference { c.perform s with tree } = .ok d { c.perform s with tree } := by
  refine ⟨c.upholds s, ?_⟩
  intro reference d tree hd
  exact resolve_of_cached ((c.upholds s).cached reference d hd)

/-- A translation that fails keeps the macro, and nothing that becomes of its files takes it away. -/
theorem a_failed_translation_keeps_the_macro :
    let after := (Call.translateFile ⟨"pkgs/p/b.mpy"⟩).perform faultyResolved
    value? ((Call.translateFile ⟨"pkgs/p/b.mpy"⟩).run faultyResolved) = none ∧
      Upholds faultyResolved after ∧
      ∃ d, faultyResolved.cached? "p.m" = some d ∧
        resolve "p.m" { after with tree := ⟨[], []⟩ } = .ok d { after with tree := ⟨[], []⟩ } := by
  obtain ⟨-, horigin, -, -, hfails⟩ := faultyResolved_facts
  obtain ⟨d, hd, -⟩ := Option.map_eq_some_iff.mp horigin
  obtain ⟨hupholds, hresolve⟩ :=
    a_call_keeps_what_the_session_knows (.translateFile ⟨"pkgs/p/b.mpy"⟩) faultyResolved
  exact ⟨hfails, hupholds, d, hd, hresolve "p.m" d ⟨[], []⟩ hd⟩

/-- What holds of a remembered macro, of the path that its package was found at, and of the
canonical folder that the package had then. -/
structure Lodged (es : List (Episode μ)) (s : Session μ) (reference : String) (d : Definition μ)
    (dir folder : Path) : Prop where
  found : .found dir folder ∈ es
  /-- The package is marked exactly when its helper files were run through. -/
  marked : s.Marked folder ↔ RanThrough es folder
  /-- It is not marked exactly when the macro was learned in a run of its helper files that failed,
  and no run has come through. -/
  unmarked : ¬ s.Marked folder ↔
    LearnedInVain es folder reference d ∧ ¬ RanThrough es folder
  /-- While the package stays where it was, its mark says whether it is bootstrapped. -/
  stays : s.tree.canonical dir = folder → (s.isBootstrapped dir = true ↔ s.Marked folder)

/-- Wherever calls lead, and whatever is called next, the package of a remembered macro is marked,
unless the macro was learned inside a run of the helper files of its own package that failed. -/
theorem a_package_macro_lacks_its_mark_only_if_learned_in_vain {start : Session μ}
    (hcache : start.cache = []) (hmarks : start.bootstrapped = []) (h : Lived start es s) :
    (∀ c : Call μ, ∃ fs, Lived start (es ++ fs) (c.perform s)) ∧
      ∀ reference d dir name file, s.cached? reference = some d →
        d.origin = .package dir name file → ∃ folder, Lodged es s reference d dir folder := by
  refine ⟨h.after_call, ?_⟩
  intro reference d dir name file hd horigin
  obtain ⟨folder, hfound, hmarked⟩ := h.accounted hcache hd dir name file horigin
  have hiff := h.marked_iff hmarks folder
  refine ⟨folder, hfound, hiff, ?_, ?_⟩
  · constructor
    · intro hnot
      exact ⟨hmarked.resolve_left hnot, fun hran => hnot (hiff.mpr hran)⟩
    · rintro ⟨-, hnot⟩ hleft
      exact hnot (hiff.mp hleft)
  · rintro rfl
    exact Session.isBootstrapped_iff

theorem the_faulty_package_lodges_its_macro :
    faultyPackage.cache = [] ∧ faultyPackage.bootstrapped = [] ∧
      ∃ es d folder, Lived faultyPackage es faultyResolved ∧
        faultyResolved.cached? "p.m" = some d ∧
        d.origin = .package ⟨"pkgs/p"⟩ "p" ⟨"pkgs/p/m.py"⟩ ∧
        Lodged es faultyResolved "p.m" d ⟨"pkgs/p"⟩ folder := by
  obtain ⟨hcache, hmarks⟩ := faultyPackage_fresh
  obtain ⟨es, hlived⟩ := faultyResolved_lived
  obtain ⟨d, hd, horigin⟩ := Option.map_eq_some_iff.mp faultyResolved_facts.2.1
  obtain ⟨folder, hlodged⟩ :=
    (a_package_macro_lacks_its_mark_only_if_learned_in_vain hcache hmarks hlived).2 _ _ _ _ _ hd
      horigin
  exact ⟨hcache, hmarks, es, d, folder, hlived, hd, horigin, hlodged⟩

/-- The macro was learned while the first helper was expanded. The second helper failed and took
the mark away, and still the macro is at hand. -/
theorem a_macro_outlives_the_failed_bootstrap_of_its_package :
    faultyPackage.cache = [] ∧ faultyPackage.bootstrapped = [] ∧
      ∃ es e d, Lived faultyPackage es faultyResolved ∧
        resolve "p.m" faultyPackage = .error e faultyResolved ∧
        d.origin = .package ⟨"pkgs/p"⟩ "p" ⟨"pkgs/p/m.py"⟩ ∧
        faultyResolved.tree.canonical ⟨"pkgs/p"⟩ = faultyPackage.tree.canonical ⟨"pkgs/p"⟩ ∧
        faultyResolved.cached? "p.m" = some d ∧
        faultyResolved.isBootstrapped ⟨"pkgs/p"⟩ = false ∧
        resolve "p.m" faultyResolved = .ok d faultyResolved := by
  obtain ⟨hcache, hmarks⟩ := faultyPackage_fresh
  obtain ⟨es, hlived⟩ := faultyResolved_lived
  obtain ⟨hnone, horigin, hunmarked, hplace, -⟩ := faultyResolved_facts
  obtain ⟨d, hd, horigin⟩ := Option.map_eq_some_iff.mp horigin
  obtain ⟨e, herror⟩ := Call.perform_of_error hnone
  rw [← faultyResolved] at herror
  exact ⟨hcache, hmarks, es, e, d, hlived, herror, horigin, hplace, hd, hunmarked,
    resolve_of_cached hd⟩

end SourceMacros
