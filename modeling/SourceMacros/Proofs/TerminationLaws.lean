-- The laws of termination. Resolution nests in two ways: through the helper files of a package,
-- which are run once under its mark, and through implementation sources, which nothing guards. It
-- ends exactly when no source is opened inside itself without end, and a macro whose
-- implementation imports it is never resolved.
import SourceMacros.Proofs.Depth
import SourceMacros.Proofs.PackageLaws

namespace SourceMacros

variable {μ : Type} {s s' : Session μ} {e : Error} {reference : String}

/-! ## Texts that ask for a reference first -/

section

open PassRun

variable {r : String → Run μ (Definition μ)}

/-- A text that is not at its end and whose first tokens import a reference. -/
structure Imports (keyword name text reference : String) (stream : Stream) : Prop where
  lexes : Stream.ofSource name text = .ok stream
  kind : stream.peek.kind = .name
  keyword : stream.peek.text = keyword
  size : stream.cursor < stream.front.size
  parses : ∀ memory : μ, ∃ directive parsed, directive.reference = reference ∧
    Directive.parse ⟨stream.skip, false, memory⟩ = .ok directive parsed

/-- A pure parser leaves the session as it was. -/
theorem session_onStream {α : Type} {parse : Parser μ α} (hp : parse.Pure) {a a' : PassState μ}
    {value : α} (h : onStream parse a = .ok value a') : a'.session = a.session := by
  obtain ⟨f, rfl⟩ := hp
  unfold onStream Parser.ofFunction at h
  dsimp only at h
  cases hf : f a.stream with
  | mk result stream =>
    rw [hf] at h
    cases result with
    | error e => cases h
    | ok v =>
      cases h
      rfl

theorem Imports.directive {keyword name text : String} {stream : Stream} {a : PassState μ}
    (h : Imports (μ := μ) keyword name text reference stream) (hstream : a.stream = stream.skip)
    (hready : a.session.interrupted = false) :
    ∃ directive a', directive.reference = reference ∧
      onStream Directive.parse a = .ok directive a' ∧ a'.session = a.session := by
  obtain ⟨directive, parsed, hreference, hparse⟩ := h.parses a.session.memory
  have hrun : ∃ a', onStream Directive.parse a = .ok directive a' := by
    unfold onStream
    dsimp only
    rw [hstream, hready, hparse]
    exact ⟨_, rfl⟩
  obtain ⟨a', hrun⟩ := hrun
  exact ⟨directive, a', hreference, hrun, session_onStream Directive.pure_parse hrun⟩

theorem step_asks {name text : String} {a : PassState μ}
    (h : Imports (μ := μ) a.session.settings.importKeyword name text reference a.stream)
    (hready : a.session.interrupted = false) (hask : r reference a.session = .error e s') :
    ∃ a', step r a = .error e a' := by
  unfold step
  rw [bind_of_ok (get_apply a)]
  simp only [hready, Bool.false_eq_true, if_false]
  rw [bind_of_ok (set_apply _ _)]
  simp only [h.kind, h.keyword, if_true]
  unfold importDirective
  rw [bind_of_ok (update_apply _ _)]
  obtain ⟨directive, b, rfl, hparse, hsession⟩ := h.directive (a := { a with
    stream := a.stream.skip
    pass := a.pass.copyThrough (a.stream.peek.start.line - 1) }) rfl hready
  have herror : onSession (r directive.reference) b = .error e { b with session := s' } := by
    unfold onSession
    rw [hsession, hask]
  rw [bind_of_ok hparse, bind_of_error herror]
  exact ⟨_, rfl⟩

/-- A pass over a text that imports a reference first asks for it before anything else. -/
theorem expandText_asks {name text : String} {stream : Stream}
    (h : Imports (μ := μ) s.settings.importKeyword name text reference stream)
    (hready : s.interrupted = false) (hask : r reference s = .error e s') (account : Pass μ) :
    ∃ after, expandTextVia r name text (s, account) = .error e after := by
  obtain ⟨n, hn⟩ : ∃ n, stream.front.size - stream.cursor = n + 1 :=
    ⟨stream.front.size - stream.cursor - 1, by have := h.size; omega⟩
  obtain ⟨a, hstep⟩ := step_asks (a := { session := s, stream, pass := {} }) h hready hask
  have hsteps : steps r (n + 1) { session := s, stream, pass := {} } = .error e a := by
    have hend : stream.atEnd = false := by simp [Stream.atEnd, h.kind]
    unfold steps
    rw [bind_of_ok (get_apply _)]
    simp only [hend, Bool.false_eq_true, if_false]
    rw [bind_of_error hstep]
  have hrun : expandStream r { session := s, stream, pass := account } = .error e a := by
    unfold expandStream
    rw [bind_of_ok (update_apply _ _), bind_of_ok (get_apply _)]
    dsimp only
    rw [hn, bind_of_error hsteps]
  unfold expandTextVia
  simp only [h.lexes, hrun]
  exact ⟨_, rfl⟩

theorem translateFile_asks {file : Path} {text : String} {stream : Stream}
    (htext : s.tree.readText file = .ok text)
    (h : Imports (μ := μ) s.settings.importKeyword file.text text reference stream)
    (hready : s.interrupted = false)
    (hask : r reference { s with searchRoot := searchFolder file } = .error e s') :
    ∃ after, translateFileVia r file s = .error e after := by
  have hread : Run.readText file s = .ok text s := by
    unfold Run.readText
    rw [bind_of_ok (get_apply s), htext]
    rfl
  obtain ⟨after, hpass⟩ := expandText_asks (s := { s with searchRoot := searchFolder file }) h hready
    hask {}
  have hexpand : expandFileVia r file s = .error e { after.1 with searchRoot := s.searchRoot } := by
    unfold expandFileVia
    rw [bind_of_ok hread]
    unfold withSearchRoot freshPass
    rw [hpass]
  unfold translateFileVia
  rw [bind_of_error hexpand]
  exact ⟨_, rfl⟩

/-- Making the output of a source that imports a reference first asks for it, from the folder of
the source. -/
theorem implementationFile_asks {file : Path} {text : String} {stream : Stream}
    (hpending : isPending s file = true) (htext : s.tree.readText file = .ok text)
    (h : Imports (μ := μ) s.settings.importKeyword file.text text reference stream)
    (hready : s.interrupted = false)
    (hask : r reference { s with searchRoot := searchFolder file } = .error e s')
    (other : String) : ∃ after, implementationFile r file other s = .error e after := by
  unfold isPending at hpending
  simp only [Bool.and_eq_true] at hpending
  obtain ⟨⟨hsource, hfile⟩, houtput⟩ := hpending
  split at houtput
  · next output hpath =>
    rw [Bool.not_eq_true'] at houtput
    have hplace : Run.outputPath file s = .ok output s := by
      unfold Run.outputPath
      rw [bind_of_ok (get_apply s), hpath]
      rfl
    have hdigest : Run.digest file s = .ok (Digest.ofContent text.toUTF8) s := by
      unfold Run.digest
      rw [bind_of_ok (get_apply s), toUTF8_of_readText htext]
      rfl
    obtain ⟨after, htranslate⟩ := translateFile_asks htext h hready hask
    have hbootstrap : bootstrapFileVia r file s = .error e after := by
      unfold bootstrapFileVia
      rw [bind_of_ok (get_apply s)]
      simp only [hsource, Bool.not_true, Bool.false_eq_true, if_false]
      rw [bind_of_ok hdigest, bind_of_ok hplace, bind_of_ok (get_apply s)]
      simp only [houtput, Bool.false_and, Bool.false_eq_true, if_false]
      rw [bind_of_error htranslate]
    unfold implementationFile
    dsimp only
    rw [bind_of_ok (get_apply s), if_pos hsource, bind_of_ok hplace, bind_of_ok (get_apply s)]
    simp only [houtput, Bool.not_false, if_true]
    rw [bind_of_ok (get_apply s)]
    simp only [hfile, Bool.not_true, Bool.false_eq_true, if_false]
    rw [bind_of_error hbootstrap]
    exact ⟨_, rfl⟩
  · cases houtput

/-- Resolving a reference asks for another one at once, where the implementation of its macro is
pending, and imports that one first. -/
theorem resolveVia_asks {dir : Path} {manifest : Manifest} {keyword other text : String}
    {entry : Entry} {s₁ : Session μ} {stream : Stream}
    (hsought : sought? s other = some (dir, manifest, keyword))
    (hboot : bootstrapPackage r dir manifest s = .ok () s₁)
    (hentry : manifest.entry? keyword = some entry)
    (hpending : isPending s₁ (dir.join ⟨entry.file⟩) = true)
    (htext : s₁.tree.readText (dir.join ⟨entry.file⟩) = .ok text)
    (h : Imports (μ := μ) s₁.settings.importKeyword (dir.join ⟨entry.file⟩).text text reference
      stream)
    (hready : s₁.interrupted = false)
    (hask : r reference { s₁ with searchRoot := searchFolder (dir.join ⟨entry.file⟩) } =
      .error e s') : ∃ after, resolveVia r other s = .error e after := by
  obtain ⟨hnew, package, -, hload⟩ := resolveNew_of_sought hsought
  obtain ⟨after, hfile⟩ := implementationFile_asks hpending htext h hready hask other
  have hrun : resolveNew r other s = .error e after := by
    rw [hload]
    unfold loadEntry
    rw [bind_of_ok hboot, hentry]
    dsimp only
    rw [bind_of_error hfile]
  unfold resolveVia
  rw [bind_of_ok (get_apply s), hnew]
  dsimp only
  rw [bind_of_error hrun]
  exact ⟨_, rfl⟩

/-- Resolving a reference in one session asks for it in another before anything comes of it. -/
def Asks (reference : String) (s s₁ : Session μ) : Prop :=
  ∀ (r : String → Run μ (Definition μ)) e s', r reference s₁ = .error e s' →
    ∃ after, resolveVia r reference s = .error e after

/-- A reference that asks for itself again and again never comes to an end. -/
theorem error_of_circle {P : Session μ → Prop}
    (h : ∀ s, P s → ∃ s₁, P s₁ ∧ Asks reference s s₁) (hs : P s) (n : Nat) (bottom : Error) :
    ∃ s', resolveAbove bottom n reference s = .error bottom s' := by
  induction n generalizing s with
  | zero => exact ⟨s, rfl⟩
  | succ n ih =>
    obtain ⟨s₁, hs₁, hasks⟩ := h s hs
    obtain ⟨s', herror⟩ := ih hs₁
    exact hasks (resolveAbove bottom n) bottom s' herror

theorem not_ends_of_error {n : Nat}
    (h : ∀ bottom, ∃ s', resolveAbove bottom n reference s = .error bottom s') :
    ¬ Ends n reference s := by
  intro hends
  obtain ⟨s₁, hdeep⟩ := h .tooDeep
  obtain ⟨s₂, hstop⟩ := h .interrupted
  have hsame := hends .tooDeep .interrupted
  rw [hdeep, hstop] at hsame
  cases hsame

/-- A package without helper files is bootstrapped by its mark alone, when no record is kept. -/
theorem bootstrapPackage_of_no_helpers {manifest : Manifest} (hhelpers : manifest.bootstrap = [])
    (hrecord : s.record.path = none) (dir : Path) :
    ∃ marks, ∀ r, bootstrapPackage r dir manifest s = .ok () { s with bootstrapped := marks } := by
  by_cases hmarked : s.Marked (s.tree.canonical dir)
  · refine ⟨s.bootstrapped, ?_⟩
    intro r
    rcases bootstrapPackage_cases r dir manifest s with ⟨-, hrun⟩ | ⟨hnew, -⟩
    · exact hrun
    · exact absurd hmarked hnew
  · refine ⟨s.tree.canonical dir :: s.bootstrapped, ?_⟩
    intro r
    have hnothing : runHelpers r dir manifest (s.mark (s.tree.canonical dir)) =
        .ok () (s.mark (s.tree.canonical dir)) := by
      unfold runHelpers
      rw [hhelpers]
      rfl
    rcases bootstrapPackage_cases r dir manifest s with ⟨hold, -⟩ | ⟨-, hrun⟩
    · exact absurd hold hmarked
    rw [hnothing] at hrun
    rcases hrun with ⟨e, s₁, hfails, -⟩ | ⟨s₁, hran, hrun⟩
    · cases hfails
    · cases hran
      rw [hrun]
      unfold Run.saveRecord HashRecord.save Session.mark
      simp only [hrecord]

end

/-! ## A package that asks for itself -/

/-- The implementation of the macro is a source that imports the macro, and it has no output. -/
@[irreducible]
def circularPackage : Session Unit :=
  packageSession [("macros.json", manifestText "m.mpy" ""), ("m.mpy", "macro import p.m\n")]

/-- Where the package is looked for on the way round. -/
def circularRoots : List Path := [⟨"/"⟩, ⟨"/pkgs/p"⟩, ⟨"pkgs/p"⟩]

/-- The sessions on the way round. -/
def Circling (s : Session Unit) : Prop :=
  ∃ root ∈ circularRoots, ∃ marks,
    s = { circularPackage with searchRoot := root, bootstrapped := marks }

/-- The first tokens of a text import a reference. -/
def importsFirst (keyword name text reference : String) : Bool :=
  match Stream.ofSource name text with
  | .error _ => false
  | .ok stream =>
    stream.peek.kind == .name && stream.peek.text == keyword &&
      decide (stream.cursor < stream.front.size) &&
      match (Directive.parse : Parser Unit Directive) ⟨stream.skip, false, ()⟩ with
      | .ok directive _ => directive.reference == reference
      | .error _ _ => false

theorem imports_of_importsFirst {keyword name text : String}
    (h : importsFirst keyword name text reference = true) :
    ∃ stream, Imports (μ := Unit) keyword name text reference stream := by
  unfold importsFirst at h
  split at h
  · cases h
  · next stream hstream =>
    simp only [Bool.and_eq_true, beq_iff_eq, decide_eq_true_eq] at h
    obtain ⟨⟨⟨hkind, hkeyword⟩, hsize⟩, hparse⟩ := h
    split at hparse
    · next directive parsed hdirective =>
      exact ⟨stream, hstream, hkind, hkeyword, hsize,
        fun _ => ⟨directive, parsed, beq_iff_eq.mp hparse, hdirective⟩⟩
    · cases hparse

/-- From every root the macro is found pending, and its source leads to a root again. -/
theorem circularPackage_facts : circularPackage.record.path = none ∧
    circularPackage.interrupted = false ∧
    ∀ root ∈ circularRoots,
      (sought? { circularPackage with searchRoot := root } "p.m").any (fun (dir, manifest, keyword) =>
        manifest.bootstrap.isEmpty && (manifest.entry? keyword).any fun entry =>
          let file := dir.join ⟨entry.file⟩
          isPending circularPackage file && circularRoots.contains (searchFolder file) &&
            (circularPackage.tree.readText file).toOption.any fun text =>
              importsFirst circularPackage.settings.importKeyword file.text text "p.m") = true := by
  decide +kernel

theorem circling_asks (s : Session Unit) (h : Circling s) :
    ∃ s₁, Circling s₁ ∧ Asks "p.m" s s₁ := by
  obtain ⟨root, hroot, marks, rfl⟩ := h
  obtain ⟨hrecord, hready, hfacts⟩ := circularPackage_facts
  obtain ⟨⟨dir, manifest, keyword⟩, hsought, hfacts⟩ :=
    (Option.any_eq_true _ _).mp (hfacts root hroot)
  simp only [Bool.and_eq_true, List.isEmpty_iff] at hfacts
  obtain ⟨hhelpers, hfacts⟩ := hfacts
  obtain ⟨entry, hentry, hfacts⟩ := (Option.any_eq_true _ _).mp hfacts
  simp only [Bool.and_eq_true] at hfacts
  obtain ⟨⟨hpending, hnext⟩, hfacts⟩ := hfacts
  obtain ⟨text, htext, hfirst⟩ := exists_ok_of_any hfacts
  obtain ⟨stream, himports⟩ := imports_of_importsFirst hfirst
  obtain ⟨marks', hboot⟩ := bootstrapPackage_of_no_helpers
    (s := { circularPackage with searchRoot := root, bootstrapped := marks }) hhelpers hrecord dir
  refine ⟨{ circularPackage with
    searchRoot := searchFolder (dir.join ⟨entry.file⟩), bootstrapped := marks' }, ?_, ?_⟩
  · exact ⟨_, List.contains_iff_mem.mp hnext, marks', rfl⟩
  · intro r e s' hask
    exact resolveVia_asks hsought (hboot r) hentry hpending htext himports hready hask

/-- Resolution ends with any guard on how often an implementation source may be opened inside
itself. Without one it ends exactly when there is a guard that it would never meet. Where so many
levels are enough, more of them change nothing; where none are, the bound on nesting stops it. -/
theorem resolution_ends_exactly_when_some_guard_is_never_met (reference : String)
    (s : Session μ) :
    (∀ limit, ∃ n, GuardedEnds limit n reference s) ∧
      ((∃ n, Ends n reference s) ↔ ∃ limit, ∀ n, Unrefused limit n reference s) ∧
      (∀ n, Ends n reference s → ∀ m, n ≤ m →
        resolveWithin m reference s = resolveWithin n reference s) ∧
      ((¬ ∃ n, Ends n reference s) → ∃ s', resolve reference s = .error .tooDeep s') := by
  refine ⟨fun limit => exists_guardedEnds limit reference s, ⟨?_, ?_⟩, ?_, ?_⟩
  · rintro ⟨n, hends⟩
    exact ⟨n, hends.unrefused⟩
  · rintro ⟨limit, hfree⟩
    obtain ⟨n, hguarded⟩ := exists_guardedEnds limit reference s
    refine ⟨n, ?_⟩
    intro bottom bottom'
    rw [← (hfree n).resolveGuarded_eq .tooDeep bottom, ← (hfree n).resolveGuarded_eq .tooDeep bottom']
    exact hguarded .tooDeep bottom bottom'
  · intro n hends m hle
    obtain ⟨k, rfl⟩ := Nat.exists_eq_add_of_le hle
    rw [← resolveAbove_tooDeep, ← resolveAbove_tooDeep]
    exact hends.resolveAbove_eq k .tooDeep .tooDeep
  · intro hendless
    obtain ⟨s', herror⟩ := error_of_not_ends (fun h => hendless ⟨s.depth, h⟩) .tooDeep
    rw [resolveAbove_tooDeep] at herror
    unfold resolve
    rw [bind_of_ok (get_apply s)]
    exact ⟨s', herror⟩

/-- Every level asks the next one for the same macro, from a session that differs by its search
root and by a mark. -/
theorem a_macro_whose_implementation_imports_it_is_never_resolved :
    circularPackage.cache = [] ∧ circularPackage.bootstrapped = [] ∧
      circularPackage.registry.Pure ∧
      (∀ n bottom, ∃ s', resolveAbove bottom n "p.m" circularPackage = .error bottom s') ∧
      ¬ ∃ n, Ends n "p.m" circularPackage := by
  have hstart : Circling circularPackage :=
    ⟨⟨"/"⟩, by simp [circularRoots], [], by unfold circularPackage; rfl⟩
  have herror := error_of_circle circling_asks hstart
  have hpure : circularPackage.registry.Pure := by
    unfold circularPackage
    exact Registry.pure_standard.insert _ (Parser.pure_return _)
  refine ⟨by unfold circularPackage; rfl, by unfold circularPackage; rfl, hpure, herror, ?_⟩
  rintro ⟨n, hends⟩
  exact not_ends_of_error (herror n) hends

end SourceMacros
