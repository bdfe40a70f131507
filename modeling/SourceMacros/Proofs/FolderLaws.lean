-- The law of folders: a folder is translated completely. Every source below it has its output in the
-- list, once and in the order of a walk, and at the end every output is a rendition of its source,
-- whatever was written on the way.
import SourceMacros.Proofs.Independence
import SourceMacros.Proofs.Renditions
import SourceMacros.Proofs.Walks

namespace SourceMacros

open FileTree (IsSourceAt walkPath)

variable {μ : Type} {s s₁ s' : Session μ} {dir : Path} {found : List Key} {targets : List Path}

/-! ## Files one after another -/

theorem FileTree.Meets.file {t : FileTree} {names key : Key} (h : t.Meets dir names key)
    (ht : t.Sound) : ∃ content, t.get? key = some (.file content) := by
  cases h with
  | @self _ content hfind => exact ⟨content, ht.find_stands (by decide) hfind⟩
  | @below _ _ content _ hget => exact ⟨content, hget⟩

/-- The output of a file that a walk met is a rendition of it, in the place that the path of the
output named at first. -/
def Delivered (s s' : Session μ) (dir : Path) (names : Key) (target : Path) : Prop :=
  s.settings.outputPath (walkPath dir names) = .ok target ∧ ∃ key folder on,
    s.tree.Meets dir names key ∧ s.tree.Enters target folder on ∧ IsSourceAt s.settings key ∧
    s.settings.outputKey? key = some (folder ++ [on]) ∧ Rendered s s'.tree key (folder ++ [on])

/-- A file that was met at first is translated later in the run. -/
theorem delivered_of_translateFile {names : Key} {target : Path} {s₂ : Session μ} (hs : s.Orderly)
    (h : Renders s s₁) (hcoherent : s₁.Coherent) (hmet : ∃ key, s.tree.Meets dir names key)
    (hsource : s.settings.isSource (walkPath dir names) = true)
    (hrun : translateFile (walkPath dir names) s₁ = .ok target s₂) :
    Delivered s s₂ dir names target := by
  have hsource₁ := hsource
  rw [← h.settings] at hsource₁
  obtain ⟨htarget, folder, name, on, hfile, hbeside, hout, hrendered⟩ :=
    rendered_of_translateFile (h.orderly hs) hcoherent hsource₁ hrun
  rw [h.settings] at htarget hout
  obtain ⟨key, hmeets⟩ := hmet
  obtain ⟨folder', hkey, hplace⟩ := hmeets.enters hs.sound hfile
  have hsame := h.sources hs
  obtain ⟨rfl, hnamed, hkeySource, -⟩ :=
    hbeside.beside hplace hs.unlinked hsame.evolves hsource htarget
  obtain ⟨content, hcontent⟩ := hmeets.file hs.sound
  subst hkey
  have hcontent₁ := (hsame.sources _ content hkeySource).mpr hcontent
  exact ⟨htarget, _, folder', on, hmeets, hnamed, hkeySource, hout,
    (hrendered content hcontent₁).of_renders hs h hkeySource⟩

theorem Delivered.stays {names : Key} {target : Path} (h : Delivered s s₁ dir names target)
    (hs : s.Orderly) (hrenders : Renders s s₁) (hlater : Renders s₁ s') :
    Delivered s s' dir names target := by
  obtain ⟨htarget, key, folder, on, hmeets, hnamed, hkey, hout, hrendered⟩ := h
  exact ⟨htarget, key, folder, on, hmeets, hnamed, hkey, hout,
    hrendered.stays hs hrenders hlater hkey hout⟩

/-- Sources that were met at first are translated one after another. -/
theorem delivered_of_mapM (hs : s.Orderly) (h : Renders s s₁) (hcoherent : s₁.Coherent)
    (hfound : ∀ names ∈ found, (∃ key, s.tree.Meets dir names key) ∧
      s.settings.isSource (walkPath dir names) = true)
    (hrun : (found.map (walkPath dir)).mapM translateFile s₁ = .ok targets s') :
    Renders s₁ s' ∧ List.Forall₂ (Delivered s s' dir) found targets := by
  induction found generalizing s₁ targets with
  | nil =>
    cases hrun
    exact ⟨frame_renders.refl _, .nil⟩
  | cons names found ih =>
    obtain ⟨hmet, hsource⟩ := hfound names List.mem_cons_self
    rw [List.map_cons, List.mapM_cons] at hrun
    have hfirst : Renders s₁ (final (translateFile (walkPath dir names) s₁)) :=
      renders_translateFile hcoherent (by rw [h.settings]; exact hsource)
    cases htranslate : translateFile (walkPath dir names) s₁ with
    | error e s₂ =>
      rw [bind_of_error htranslate] at hrun
      cases hrun
    | ok target s₂ =>
      rw [htranslate] at hfirst
      rw [bind_of_ok htranslate] at hrun
      have hfirst : Renders s₁ s₂ := hfirst
      cases hrest : (found.map (walkPath dir)).mapM translateFile s₂ with
      | error e s₃ =>
        rw [bind_of_error hrest] at hrun
        cases hrun
      | ok rest s₃ =>
        rw [bind_of_ok hrest] at hrun
        cases hrun
        have hsecond := frame_renders.trans h hfirst
        have hcoherent₂ :=
          (acts_translateFile resolve_resolves hcoherent (walkPath dir names)).coherent hcoherent
            htranslate
        obtain ⟨hlater, hdelivered⟩ := ih hsecond hcoherent₂
          (fun other hother => hfound other (List.mem_cons_of_mem _ hother)) hrest
        refine ⟨frame_renders.trans hfirst hlater, .cons ?_ hdelivered⟩
        exact (delivered_of_translateFile hs h hcoherent hmet hsource htranslate).stays hs hsecond
          hlater

/-! ## No output twice -/

theorem Path.front_ne_nil (p : Path) : p.front ≠ [] := by
  unfold Path.front
  split
  · next hslash =>
    obtain ⟨text, -, hpieces⟩ := Path.pieces_of_endsInSlash hslash
    rw [hpieces, List.dropLast_concat]
    exact Path.pieces_ne_nil _
  · exact p.pieces_ne_nil

/-- The path of an output below a folder goes on from the folder with the names of its source. -/
theorem Delivered.pieces {root names : Key} {target : Path}
    (h : Delivered s s' dir names target) (hs : s.tree.Sound)
    (hroot : s.tree.find dir .reach = .ok (.node root .folder)) :
    ∃ init name, names = init ++ [name] ∧
      (Path.cutName name).2 = some s.settings.sourceExtension ∧
      target.pieces = dir.front ++ (init ++ [Path.outputName s.settings.outputExtension name]) ∧
      ∀ piece ∈ init ++ [Path.outputName s.settings.outputExtension name], Path.IsName piece := by
  obtain ⟨htarget, key, folder, on, hmeets, hnamed, hkey, -⟩ := h
  obtain ⟨hslash, rfl⟩ := Settings.outputPath_eq_ok.mp htarget
  cases hmeets with
  | self hfind =>
    rw [FileTree.find_reach_of_inspect (by simp) hfind] at hroot
    cases hroot
  | @below root' _ content hroot' hget =>
    have hfolder : s.tree.get? root' = some .folder := hs.find_stands (by decide) hroot'
    have hspelled : ∀ name ∈ names, FileTree.Spelled name := fun name hname =>
      hs.spelled_of_get? hget (List.mem_append_right root' hname)
    rcases List.eq_nil_or_concat names with rfl | ⟨init, name, rfl⟩
    · rw [List.append_nil, hfolder] at hget
      cases hget
    rw [List.concat_eq_append] at *
    have hname := hspelled name (by simp)
    rw [← List.append_assoc] at hkey
    have hcut := Settings.cut_of_isSourceAt hname hkey
    have hpieces := Path.pieces_walkPath (FileTree.find_eq_ok.mp hroot').1.nonempty (by simp) hspelled
    rw [← List.append_assoc] at hpieces
    obtain ⟨houtput, hon⟩ := Path.pieces_of_output hpieces hname.1 hcut hslash hnamed.fileName
    refine ⟨init, name, rfl, hcut, by rw [houtput, hon, List.append_assoc], ?_⟩
    intro piece hpiece
    rcases List.mem_append.mp hpiece with hpiece | hpiece
    · exact (hspelled piece (by simp [hpiece])).1
    · rw [List.mem_singleton.mp hpiece, ← hon]
      exact hnamed.named

/-- The outputs of two sources that a walk meets are different paths. -/
theorem Delivered.not_same {names others : Key} {target goal : Path} (hs : s.tree.Sound)
    (h : Delivered s s' dir names target) (h' : Delivered s s' dir others goal)
    (hne : names ≠ others) : target.same goal = false := by
  rw [Bool.eq_false_iff]
  intro hsame
  have hroot : ∃ root, s.tree.find dir .reach = .ok (.node root .folder) := by
    obtain ⟨-, _, _, _, hmeets, -⟩ := h
    obtain ⟨-, _, _, _, hmeets', -⟩ := h'
    cases hmeets with
    | below hroot _ => exact ⟨_, hroot⟩
    | self _ =>
      cases hmeets' with
      | below hroot _ => exact ⟨_, hroot⟩
      | self _ => exact absurd rfl hne
  obtain ⟨root, hroot⟩ := hroot
  obtain ⟨init, name, rfl, hcut, hpieces, hnames⟩ := h.pieces hs hroot
  obtain ⟨init', name', rfl, hcut', hpieces', hnames'⟩ := h'.pieces hs hroot
  have hbehind := Path.eq_of_same dir.front_ne_nil hpieces hpieces' (by simp) (by simp) hnames
    hnames' hsame
  obtain ⟨rfl, hlast⟩ := List.append_inj' hbehind rfl
  exact hne (by rw [Path.outputName_inj hcut hcut' (List.cons.inj hlast).1])

theorem forall₂_pairwise {α β : Type} {R : α → β → Prop} {S : α → α → Prop} {T : β → β → Prop}
    {xs : List α} {ys : List β} (h : List.Forall₂ R xs ys) (hxs : xs.Pairwise S)
    (himp : ∀ {x x' y y'}, R x y → R x' y' → S x x' → T y y') : ys.Pairwise T := by
  induction h with
  | nil => exact .nil
  | @cons x y xs ys hxy hrest ih =>
    obtain ⟨hx, hxs⟩ := List.pairwise_cons.mp hxs
    refine List.pairwise_cons.mpr ⟨?_, ih hxs⟩
    intro y' hy'
    obtain ⟨i, hi, rfl⟩ := List.getElem_of_mem hy'
    have hi' : i < xs.length := by rw [hrest.length_eq]; exact hi
    exact himp hxy (hrest.get hi' hi) (hx _ (List.getElem_mem hi'))

/-! ## The law -/

theorem a_folder_is_translated_completely (hs : s.Orderly) (hcoherent : s.Coherent)
    (h : translateFolder dir s = .ok targets s') :
    ∃ found, s.tree.Chosen dir s.settings.isSource found ∧
      targets.Pairwise (fun target goal => target.same goal = false) ∧
      List.Forall₂ (fun names target => s.settings.outputPath (walkPath dir names) = .ok target ∧
        ∃ key out path text output, s.tree.Meets dir names key ∧
          s.settings.outputKey? key = some out ∧ s.tree.get? key = some (.file text.toUTF8) ∧
          s.tree.ComesToName path key ∧ Expands s path.text text output ∧
          s'.tree.get? out = some (.file output.toUTF8) ∧
          (s'.tree.readText target = .ok output ∨
            (∃ other link content, s.tree.get? other = some (.link link) ∧
              s'.tree.get? other = some (.file content)) ∧
            s'.tree.node? target = none)) found targets := by
  unfold translateFolder translateFolderVia at h
  rw [bind_of_ok (get_apply s)] at h
  cases hsources : sourcesBelow s dir with
  | error e =>
    rw [hsources] at h
    cases h
  | ok sources =>
    rw [hsources] at h
    obtain ⟨found, rfl, hchosen⟩ := sourcesBelow_eq_ok hs.sound hsources
    obtain ⟨hrenders, hdelivered⟩ := delivered_of_mapM hs (frame_renders.refl s) hcoherent
      (fun names hnames => (hchosen.complete names).mp hnames) h
    refine ⟨found, hchosen, ?_, hdelivered.imp ?_⟩
    · exact forall₂_pairwise hdelivered hchosen.ascending fun hfirst hsecond hprecedes =>
        hfirst.not_same hs.sound hsecond hprecedes.2
    · rintro names target ⟨htarget, key, folder, on, hmeets, hnamed, hkey, hout, path, text, output,
        hfile, hnames, hexpands, hheld⟩
      refine ⟨htarget, key, _, path, text, output, hmeets, hout, hfile, hnames, hexpands, hheld, ?_⟩
      rcases hnamed.evolve hs.unlinked (hrenders.sources hs).evolves with hstays | ⟨hlink, hclosed⟩
      · exact Or.inl (hstays.reads hheld)
      · refine Or.inr ⟨hlink, ?_⟩
        obtain ⟨cause, hcause⟩ := hclosed .reach (by decide)
        unfold FileTree.node?
        rw [hcause]

/-- A session over a folder with a source and a package, whose helper is a source below that folder
as well. -/
@[irreducible]
def nestedSession : Session Unit :=
  .start { hashRecord := some ⟨"digests.json"⟩ }
    (Registry.standard.insert (.package "p" "m") .hello)
    ⟨[(["a.mpy"], .file "macro import p.m\nm\n".toUTF8), (["p"], .folder),
      (["p", "macros.json"], .file (manifestText "m.py" "\"h.mpy\"").toUTF8),
      (["p", "m.py"], .file "".toUTF8), (["p", "h.mpy"], .file "x = 1\n".toUTF8)], []⟩ false ()

theorem nestedSession_linkless : nestedSession.tree.Linkless := by
  apply FileTree.linkless_of_nodes
  unfold nestedSession
  simp [Session.start]

theorem digestsPath : (⟨"digests.json"⟩ : Path).fileName? = some "digests.json" ∧
    (⟨"digests.json"⟩ : Path).extension? = some "json" := by
  decide

theorem nestedSession_orderly : nestedSession.Orderly ∧ nestedSession.Coherent := by
  have hfacts : nestedSession.settings = { hashRecord := some ⟨"digests.json"⟩ } ∧
      nestedSession.record.path = some ⟨"digests.json"⟩ ∧ nestedSession.tree.Sound := by
    unfold nestedSession
    exact ⟨rfl, rfl, by decide⟩
  obtain ⟨hsettings, hrecord, hsound⟩ := hfacts
  have hextension := digestsPath.2
  have hlinks := nestedSession_linkless
  refine ⟨⟨hsound, hlinks.unlinked, ?_, hlinks.recordApart ?_ ?_⟩, ?_⟩
  · rw [hsettings]
    exact Settings.separates_of_plain (by decide) (by decide) (by decide) (by decide) (by decide)
  · intro path hpath
    rw [hrecord] at hpath
    cases hpath
    rw [hsettings]
    simp [Settings.isSource, hextension]
  · intro path other target hpath htarget hnames
    rw [hrecord] at hpath
    cases hpath
    rw [hsettings] at htarget
    obtain ⟨-, rfl⟩ := Settings.outputPath_eq_ok.mp htarget
    unfold Path.extension? at hextension
    rw [hnames] at hextension
    rcases Path.extension?_putExtension other.dropExtension (by decide : "py" ≠ "") (by decide)
      (by decide) with hnone | hsome
    · exact absurd (hnone.symm.trans hextension) (by decide)
    · exact absurd (hsome.symm.trans hextension) (by decide)
  · unfold nestedSession
    exact .fresh (Registry.pure_standard.insert _ (Parser.pure_return _))

/-- The pass over the first source writes the output of the helper, which is then written again. -/
theorem a_folder_is_translated_with_the_package_in_it :
    nestedSession.Orderly ∧ nestedSession.Coherent ∧
      ∃ s', translateFolder ⟨"."⟩ nestedSession = .ok [⟨"./a.py"⟩, ⟨"./p/h.py"⟩] s' ∧
        ∃ found, nestedSession.tree.Chosen ⟨"."⟩ nestedSession.settings.isSource found ∧
          found.length = 2 := by
  obtain ⟨hs, hcoherent⟩ := nestedSession_orderly
  have hvalue : value? (translateFolder ⟨"."⟩ nestedSession) =
      some [⟨"./a.py"⟩, ⟨"./p/h.py"⟩] := by
    decide +kernel
  obtain ⟨s', hrun⟩ := value?_eq_some.mp hvalue
  obtain ⟨found, hchosen, -, hdelivered⟩ :=
    a_folder_is_translated_completely hs hcoherent hrun
  exact ⟨hs, hcoherent, s', hrun, found, hchosen, hdelivered.length_eq⟩

/-- A session over two sources, where the temporary file beside one output has the name of the other
output. -/
@[irreducible]
def shadowedSession : Session Unit :=
  .start { outputExtension := "tmp" } .standard
    ⟨[([".a.tmp.mpy"], .file "x = 1\n".toUTF8), (["a.mpy"], .file "y = 2\n".toUTF8)], []⟩ false ()

/-- An output is lost where a temporary file takes its place, and it is lost to its own path where
it takes the place of a link that the path leads through. -/
theorem listed_outputs_get_lost :
    (shadowedSession.settings.KeepsSources
          fun path => shadowedSession.settings.isSource path = true) ∧
      shadowedSession.tree.Sound ∧ shadowedSession.tree.Unlinked ∧
      shadowedSession.record.path = none ∧ shadowedSession.Coherent ∧
      (∃ s', translateFolder ⟨"."⟩ shadowedSession =
          .ok [⟨"./.a.tmp.tmp"⟩, ⟨"./a.tmp"⟩] s' ∧ s'.tree.node? ⟨"./.a.tmp.tmp"⟩ = none) ∧
      detourSession.settings.Separates ∧ detourSession.tree.Sound ∧
      detourSession.tree.Unlinked ∧ detourSession.record.path = none ∧ detourSession.Coherent ∧
      ∃ s', translateFolder ⟨"d.py/.."⟩ detourSession = .ok [⟨"d.py/../d.py"⟩] s' ∧
        s'.tree.node? ⟨"d.py/../d.py"⟩ = none := by
  have hfacts : shadowedSession.tree.Sound ∧ shadowedSession.record.path = none ∧
      value? (translateFolder ⟨"."⟩ shadowedSession) = some [⟨"./.a.tmp.tmp"⟩, ⟨"./a.tmp"⟩] ∧
      ((final (translateFolder ⟨"."⟩ shadowedSession)).tree.node?
        ⟨"./.a.tmp.tmp"⟩).isNone = true ∧
      detourSession.record.path = none ∧
      value? (translateFolder ⟨"d.py/.."⟩ detourSession) = some [⟨"d.py/../d.py"⟩] ∧
      ((final (translateFolder ⟨"d.py/.."⟩ detourSession)).tree.node?
        ⟨"d.py/../d.py"⟩).isNone = true := by
    decide +kernel
  obtain ⟨hsound, hrecord, hvalue, hnode, hrecord', hvalue', hnode'⟩ := hfacts
  obtain ⟨s₁, hrun⟩ := value?_eq_some.mp hvalue
  obtain ⟨s₂, hrun'⟩ := value?_eq_some.mp hvalue'
  rw [hrun] at hnode
  rw [hrun'] at hnode'
  refine ⟨?_, hsound, ?_, hrecord, ?_, ⟨s₁, hrun, Option.isNone_iff_eq_none.mp hnode⟩, ?_,
    detourSession_sound.1, detourSession_sound.2, hrecord', ?_, s₂, hrun',
    Option.isNone_iff_eq_none.mp hnode'⟩
  · unfold shadowedSession
    exact Settings.keepsSources_of_plain _ (by decide) (by decide) (by decide) (by decide)
  · apply FileTree.Linkless.unlinked
    apply FileTree.linkless_of_nodes
    unfold shadowedSession
    simp [Session.start]
  · unfold shadowedSession
    exact .fresh Registry.pure_standard
  · unfold detourSession
    exact Settings.separates_of_plain (by decide) (by decide) (by decide) (by decide) (by decide)
  · unfold detourSession
    exact .fresh Registry.pure_standard

end SourceMacros
