-- Renditions: outputs that hold what the sources beside them expand to. Operations may write an
-- output again and again, but under settings that keep names apart it stays a rendition of its
-- source, for nothing else is written in its place.
import SourceMacros.Proofs.SourceLaws

namespace SourceMacros

open FileTree (IsSourceAt)

/-! ## Keys of outputs -/

/-- The key of the output of the source at a key. It lies beside the source, if it has a name. -/
def Settings.outputKey? (settings : Settings) (key : Key) : Option Key :=
  match settings.outputPath (FileTree.keyPath key) with
  | .ok target => target.fileName?.map fun name => key.dropLast ++ [name]
  | .error _ => none

namespace Settings

variable {settings : Settings} {key folder out : Key} {name : String}

theorem outputKey?_eq_some : settings.outputKey? key = some out ↔
    ∃ target name, settings.outputPath (FileTree.keyPath key) = .ok target ∧
      target.fileName? = some name ∧ out = key.dropLast ++ [name] := by
  unfold outputKey?
  cases settings.outputPath (FileTree.keyPath key) with
  | ok target => simp [eq_comm]
  | error e => simp

theorem cut_of_isSourceAt (hname : FileTree.Spelled name)
    (h : IsSourceAt settings (folder ++ [name])) :
    (Path.cutName name).2 = some settings.sourceExtension := by
  obtain ⟨other, hother, hcut⟩ := isSource_iff.mp h
  rw [FileTree.fileName?_keyPath folder hname] at hother
  cases hother
  exact hcut

/-- No two sources have their outputs in one place. -/
theorem outputKey?_inj {other : String} {folder' : Key} (hname : FileTree.Spelled name)
    (hother : FileTree.Spelled other) (hsource : IsSourceAt settings (folder ++ [name]))
    (hsource' : IsSourceAt settings (folder' ++ [other]))
    (h : settings.outputKey? (folder ++ [name]) = some out)
    (h' : settings.outputKey? (folder' ++ [other]) = some out) :
    folder ++ [name] = folder' ++ [other] := by
  have hparts : ∀ {folder : Key} {name : String}, FileTree.Spelled name →
      IsSourceAt settings (folder ++ [name]) → settings.outputKey? (folder ++ [name]) = some out →
      out = folder ++ [Path.outputName settings.outputExtension name] := by
    intro folder name hname hsource h
    obtain ⟨target, on, htarget, hon, rfl⟩ := outputKey?_eq_some.mp h
    obtain ⟨hslash, rfl⟩ := outputPath_eq_ok.mp htarget
    obtain ⟨init, hpieces⟩ := FileTree.pieces_keyPath folder hname
    obtain ⟨-, rfl⟩ := Path.pieces_of_output hpieces hname.1 (cut_of_isSourceAt hname hsource)
      hslash hon
    rw [List.dropLast_concat]
  have heq := (hparts hname hsource h).symm.trans (hparts hother hsource' h')
  obtain ⟨rfl, hnames⟩ := List.append_inj' heq rfl
  rw [Path.outputName_inj (cut_of_isSourceAt hname hsource) (cut_of_isSourceAt hother hsource')
    (List.cons.inj hnames).1]

end Settings

namespace FileTree

variable {t t₁ : FileTree} {file target : Path} {folder : Key} {name : String} {text : String}
  {settings : Settings}

/-- A file that is read is named by its path. -/
theorem enters_of_readText (h : t.readText file = .ok text) :
    ∃ folder name, t.Enters file folder name := by
  unfold readText read at h
  cases hfind : t.find file .reach with
  | error cause =>
    rw [hfind] at h
    cases h
  | ok found =>
    have hfile : ∃ key content, found = .node key (.file content) := by
      rw [hfind] at h
      rcases found with ⟨key, node⟩ | ⟨key⟩
      · cases node with
        | file content => exact ⟨key, content, rfl⟩
        | folder => cases h
        | link target => cases h
      · cases h
    obtain ⟨init, name, hpieces, hname⟩ := name_of_follow (by decide) (Or.inl hfile)
      (find_eq_ok.mp hfind).2
    obtain ⟨folder, henters⟩ := enters_of_find (by decide) hpieces hname hfind
    exact ⟨folder, name, henters⟩

/-- The text that is read is that of the file in the place that the path names. -/
theorem Enters.content_of_readText {content : ByteArray} (h : t.Enters file folder name)
    (hfile : t.get? (folder ++ [name]) = some (.file content)) (hread : t.readText file = .ok text) :
    content = text.toUTF8 := by
  have hfind := h.find (by decide : Purpose.reach ≠ .identify)
    (Or.inr fun link hlink => by rw [hfile] at hlink; cases hlink)
  have hcontent := toUTF8_of_readText hread
  unfold read at hcontent
  rw [hfile] at hfind
  rw [hfind] at hcontent
  exact Except.ok.inj hcontent

/-- The path of the output of a source names a place beside it. -/
theorem Enters.output {on : String} (h : t.Enters file folder name)
    (hsource : settings.isSource file = true) (htarget : settings.outputPath file = .ok target)
    (hopenable : Openable target) (hon : target.fileName? = some on) (hnamed : Path.IsName on)
    (hshort : on.utf8ByteSize ≤ nameLimit) : t.Enters target folder on := by
  have hcut := Settings.cut_of_isSourceAt h.spelled (h.isSourceAt.mpr hsource)
  obtain ⟨hslash, rfl⟩ := Settings.outputPath_eq_ok.mp htarget
  obtain ⟨init, m, hpieces, hway⟩ := h.way
  obtain ⟨houtput, -⟩ := Path.pieces_of_output hpieces h.named hcut hslash hon
  refine ⟨hopenable, hnamed, hshort, init, m, houtput, ?_⟩
  have hbase : t.base (file.withExtension settings.outputExtension) = t.base file := by
    unfold base
    rw [Path.isAbsolute_congr houtput hpieces hnamed.ne_empty h.named.ne_empty]
  rw [hbase]
  exact hway

/-- The output of a source is put beside it, however the tree has evolved since the source was
there. -/
theorem Enters.beside {folder' : Key} {on : String} (h : t₁.Enters target folder on)
    (hfile : t.Enters file folder' name) (ht : t.Unlinked) (hevolves : t.Evolves t₁)
    (hsource : settings.isSource file = true) (htarget : settings.outputPath file = .ok target) :
    folder' = folder ∧ t.Enters target folder on ∧ IsSourceAt settings (folder ++ [name]) ∧
      settings.outputKey? (folder ++ [name]) = some (folder ++ [on]) := by
  have hplace : IsSourceAt settings (folder' ++ [name]) := hfile.isSourceAt.mpr hsource
  have hcut := Settings.cut_of_isSourceAt hfile.spelled hplace
  have hbeside := hfile.output hsource htarget h.openable h.fileName h.named h.short
  obtain ⟨hslash, rfl⟩ := Settings.outputPath_eq_ok.mp htarget
  obtain ⟨init, -, hpieces, -⟩ := hfile.way
  obtain rfl : folder' = folder := by
    rcases hbeside.evolve ht hevolves with hstays | ⟨-, hclosed⟩
    · exact (h.unique hstays).1
    · obtain ⟨cause, hcause⟩ := hclosed .inspect (by decide)
      rw [h.find (by decide) (Or.inl rfl)] at hcause
      cases hcause
  refine ⟨rfl, hbeside, hplace, ?_⟩
  obtain ⟨init', hkey⟩ := pieces_keyPath folder' hfile.spelled
  refine Settings.outputKey?_eq_some.mpr
    ⟨_, on, Settings.outputPath_eq_ok.mpr ⟨hslash, rfl⟩, ?_, by rw [List.dropLast_concat]⟩
  rw [← h.fileName, Path.fileName?_withExtension hkey hfile.named hcut hslash,
    Path.fileName?_withExtension hpieces hfile.named hcut hslash]

end FileTree

/-! ## Sessions that keep names apart -/

variable {μ : Type} {s s₁ s' : Session μ} {t' : FileTree} {key out : Key}

/-- Outputs, temporary files and sources have different names. -/
structure Settings.Separates (settings : Settings) : Prop where
  sources : settings.KeepsSources fun path => settings.isSource path = true
  temporaries : ∀ path other target goal, settings.isSource path = true →
    settings.isSource other = true → settings.outputPath path = .ok target →
    settings.outputPath other = .ok goal → target.temporary.fileName? ≠ goal.fileName?

/-- Extensions without points separate names, if they differ from each other and from that of
temporary files. -/
theorem Settings.separates_of_plain {settings : Settings} (hne : settings.outputExtension ≠ "")
    (hpoint : '.' ∉ settings.outputExtension.toList)
    (hother : settings.outputExtension ≠ settings.sourceExtension)
    (hsource : settings.sourceExtension ≠ "tmp") (houtput : settings.outputExtension ≠ "tmp") :
    settings.Separates := by
  refine ⟨Settings.keepsSources_of_plain _ hne hpoint hother hsource, ?_⟩
  intro path other target goal _ _ _ hgoal hnames
  obtain ⟨hslash, rfl⟩ := Settings.outputPath_eq_ok.mp hgoal
  have htemporary := target.extension?_temporary
  unfold Path.extension? at htemporary
  rw [hnames] at htemporary
  rcases Path.extension?_putExtension other.dropExtension hne hpoint hslash with hnone | hsome
  · exact absurd (hnone.symm.trans htemporary) (by simp)
  · exact houtput (Option.some.inj (hsome.symm.trans htemporary))

/-- The record is kept neither in a source nor in the place of an output. -/
structure Session.RecordApart (s : Session μ) : Prop where
  source : s.KeepsRecord
  output : ∀ path key source content, s.record.path = some path → s.tree.ComesToFill path key →
    IsSourceAt s.settings source → s.tree.get? source = some (.file content) →
    s.settings.outputKey? source ≠ some key

/-- Without links, the record is apart if its path has neither the name of a source nor that of an
output. -/
theorem FileTree.Linkless.recordApart (ht : s.tree.Linkless)
    (hsource : ∀ path, s.record.path = some path → s.settings.isSource path = false)
    (houtput : ∀ path other target, s.record.path = some path →
      s.settings.outputPath other = .ok target → path.fileName? ≠ target.fileName?) :
    s.RecordApart := by
  refine ⟨ht.keepsRecord hsource, ?_⟩
  intro path key source content hpath hfills _ _ hkey
  obtain ⟨t', folder, name, rfl, henters⟩ := ht.enters_of_fills hfills
  obtain ⟨target, name', htarget, hname', heq⟩ := Settings.outputKey?_eq_some.mp hkey
  obtain ⟨-, hnames⟩ := List.append_inj' heq rfl
  apply houtput path _ target hpath htarget
  rw [henters.fileName, hname', (List.cons.inj hnames).1]

/-- The tree is sound, and neither links nor names nor the record get in the way of outputs. -/
structure Session.Orderly (s : Session μ) : Prop where
  sound : s.tree.Sound
  unlinked : s.tree.Unlinked
  separates : s.settings.Separates
  apart : s.RecordApart

/-! ## Renditions -/

/-- The output of a source holds what the text of the source expands to, under a path of it. -/
def Rendered (s : Session μ) (t' : FileTree) (key out : Key) : Prop :=
  ∃ path text output, s.tree.get? key = some (.file text.toUTF8) ∧ s.tree.ComesToName path key ∧
    Expands s path.text text output ∧ t'.get? out = some (.file output.toUTF8)

/-- Whatever changes in the place of an output is a rendition of its source. -/
structure Renders (s s' : Session μ) : Prop where
  settings : s'.settings = s.settings
  recordPath : s'.record.path = s.record.path
  bare : s'.bare = s.bare
  sources : s.Orderly → FileTree.SameSources s.settings s.tree s'.tree
  outputs : s.Orderly → ∀ key out content, IsSourceAt s.settings key →
    s.tree.get? key = some (.file content) → s.settings.outputKey? key = some out →
    s.tree.get? out = none ∨ s'.tree.get? out = s.tree.get? out ∨ Rendered s s'.tree key out

theorem Renders.orderly (h : Renders s s') (hs : s.Orderly) : s'.Orderly := by
  have hsame := h.sources hs
  refine ⟨hsame.sound, hsame.evolves.unlinked hs.unlinked, by rw [h.settings]; exact hs.separates,
    ?_, ?_⟩
  · rintro path key hpath ⟨t', hlater, hfills⟩
    rw [h.recordPath] at hpath
    rw [h.settings]
    exact hs.apart.source path key hpath ⟨t', hsame.evolves.trans hlater, hfills⟩
  · rintro path key source content hpath ⟨t', hlater, hfills⟩ hsource hfile
    rw [h.recordPath] at hpath
    rw [h.settings] at hsource ⊢
    exact hs.apart.output path key source content hpath ⟨t', hsame.evolves.trans hlater, hfills⟩
      hsource ((hsame.sources source content hsource).mp hfile)

theorem Rendered.congr {t : FileTree} (h : Rendered s t key out)
    (hout : t'.get? out = t.get? out) : Rendered s t' key out := by
  obtain ⟨path, text, output, hfile, hnames, hexpands, hheld⟩ := h
  exact ⟨path, text, output, hfile, hnames, hexpands, by rw [hout]; exact hheld⟩

/-- What is rendered later is a rendition from the start. -/
theorem Rendered.of_renders (h : Rendered s₁ t' key out) (hs : s.Orderly) (hrenders : Renders s s₁)
    (hkey : IsSourceAt s.settings key) : Rendered s t' key out := by
  obtain ⟨path, text, output, hfile, ⟨t'', folder, name, hlater, hnames⟩, hexpands, hout⟩ := h
  have hsame := hrenders.sources hs
  refine ⟨path, text, output, (hsame.sources key _ hkey).mp hfile,
    ⟨t'', folder, name, hsame.evolves.trans hlater, hnames⟩, ?_, hout⟩
  unfold Expands at hexpands ⊢
  rw [← hrenders.bare]
  exact hexpands

/-- A rendition stays one. -/
theorem Rendered.stays (h : Rendered s s₁.tree key out) (hs : s.Orderly) (hrenders : Renders s s₁)
    (hlater : Renders s₁ s') (hkey : IsSourceAt s.settings key)
    (hout : s.settings.outputKey? key = some out) : Rendered s s'.tree key out := by
  have hstart := h
  obtain ⟨_, text, output, hfile, _, _, hheld⟩ := h
  have hfile₁ := ((hrenders.sources hs).sources key _ hkey).mpr hfile
  have hkey₁ : IsSourceAt s₁.settings key := by rw [hrenders.settings]; exact hkey
  have hout₁ : s₁.settings.outputKey? key = some out := by rw [hrenders.settings]; exact hout
  rcases hlater.outputs (hrenders.orderly hs) key out _ hkey₁ hfile₁ hout₁ with
    hnone | hsame | hrendered
  · rw [hheld] at hnone
    cases hnone
  · exact hstart.congr hsame
  · exact hrendered.of_renders hs hrenders hkey

theorem frame_renders : Frame (μ := μ) True Renders := by
  refine ⟨?_, ?_, ?_⟩
  · intro s s' hstill
    refine ⟨hstill.settings, hstill.recordPath, hstill.bare trivial, ?_, ?_⟩
    · intro hs
      rw [hstill.tree]
      exact .refl hs.sound
    · intro _ key out content _ _ _
      rw [hstill.tree]
      exact Or.inr (Or.inl rfl)
  · intro s s₁ s' h h'
    refine ⟨h'.settings.trans h.settings, h'.recordPath.trans h.recordPath, h'.bare.trans h.bare,
      ?_, ?_⟩
    · intro hs
      have hlater := h'.sources (h.orderly hs)
      rw [h.settings] at hlater
      exact (h.sources hs).trans hlater
    · intro hs key out content hkey hfile hout
      rcases h.outputs hs key out content hkey hfile hout with hnone | hsame | hrendered
      · exact Or.inl hnone
      · have hfile₁ := ((h.sources hs).sources key content hkey).mpr hfile
        have hlater := h'.outputs (h.orderly hs) key out content
        rw [h.settings, hsame] at hlater
        refine (hlater hkey hfile₁ hout).imp id (Or.imp id ?_)
        exact fun hrendered => hrendered.of_renders hs h hkey
      · exact Or.inr (Or.inr (hrendered.stays hs h h' hkey hout))
  · intro s
    obtain ⟨dirty, hfinal⟩ := final_saveRecord s
    rw [hfinal]
    refine ⟨rfl, rfl, rfl, fun hs => FileTree.sameSources_save hs.sound hs.apart.source, ?_⟩
    intro hs key out content hkey hfile hout
    obtain ⟨-, -, hchanges⟩ := FileTree.save_changes (r := s.record) hs.sound
    rcases hchanges out with hsame | ⟨hnone, -⟩ | ⟨path, hpath, hfills⟩
    · exact Or.inr (Or.inl hsame)
    · exact Or.inl hnone
    · exact absurd hout (hs.apart.output path out key content hpath hfills hkey hfile)

/-! ## Writing renditions -/

variable {file target : Path} {source text : String}

/-- The temporary file of an output is not written in the place of another output. -/
theorem Session.Orderly.temporary_ne {other : Key} (hs : s.Orderly)
    (hsource : s.settings.isSource file = true) (htarget : s.settings.outputPath file = .ok target)
    (hfills : s.tree.Fills target.temporary other) (hkey : IsSourceAt s.settings key)
    (hout : s.settings.outputKey? key = some out) : out ≠ other := by
  obtain ⟨goal, name, hgoal, hname, rfl⟩ := Settings.outputKey?_eq_some.mp hout
  obtain ⟨folder, rfl, henters⟩ := hfills.enters_temporary hs.unlinked
  intro heq
  obtain ⟨-, hnames⟩ := List.append_inj' heq rfl
  apply hs.separates.temporaries file (FileTree.keyPath key) target goal hsource hkey htarget hgoal
  rw [henters.fileName, hname, (List.cons.inj hnames).1]

/-- The output of a source that is written after a pass over it is a rendition of the source. -/
theorem rendered_of_enters {t₁ : FileTree} {folder : Key} {name on : String} {content : ByteArray}
    (hfile : s.tree.Enters file folder name)
    (hcontent : s.tree.get? (folder ++ [name]) = some (.file content))
    (hread : s.tree.readText file = .ok source) (hexpands : Expands s file.text source text) :
    Rendered s (t₁.set (folder ++ [on]) (.file text.toUTF8)) (folder ++ [name])
      (folder ++ [on]) := by
  refine ⟨file, source, text, ?_, ⟨s.tree, folder, name, .refl _, hfile, rfl⟩, hexpands,
    FileTree.get?_set_self _ _ (by simp)⟩
  rw [hcontent, hfile.content_of_readText hcontent hread]

theorem changes_writeThrough (hs : s.Orderly) (h : Renders s s₁)
    (hsource : s.settings.isSource file = true) (hread : s.tree.readText file = .ok source)
    (hexpands : Expands s file.text source text)
    (htarget : s.settings.outputPath file = .ok target) {content : ByteArray}
    (hkey : IsSourceAt s.settings key) (hfile : s.tree.get? key = some (.file content))
    (hout : s.settings.outputKey? key = some out) :
    (final (Run.writeThrough target text s₁)).tree.get? out = s₁.tree.get? out ∨
      Rendered s (final (Run.writeThrough target text s₁)).tree key out := by
  have hs₁ := h.orderly hs
  have hne : ∀ other, s₁.tree.Fills target.temporary other → out ≠ other := by
    intro other hfills
    have hsource₁ := hsource
    have htarget₁ := htarget
    have hkey₁ := hkey
    have hout₁ := hout
    rw [← h.settings] at hsource₁ htarget₁ hkey₁ hout₁
    exact hs₁.temporary_ne hsource₁ htarget₁ hfills hkey₁ hout₁
  rcases writeThrough_cases hs₁.sound hs₁.unlinked target text with
    ⟨e, hrun⟩ | ⟨e, other, hfills, hrun⟩ | ⟨other, folder, on, hfills, henters, hgoal, -, hrun⟩
  · rw [hrun]
    exact Or.inl rfl
  · rw [hrun]
    exact Or.inl (hs₁.sound.get?_erase_of_ne (hfills.housed hs₁.sound).1 (hne other hfills))
  · rw [hrun]
    by_cases heq : folder ++ [on] = out
    · subst heq
      obtain ⟨folder₀, name, hplace⟩ := FileTree.enters_of_readText hread
      obtain ⟨rfl, -, hplaceSource, hplaceOut⟩ :=
        henters.beside hplace hs.unlinked (h.sources hs).evolves hsource htarget
      -- The source is the one that is read, for no other has its output here.
      have hkeySpelled : ∃ folder' name', key = folder' ++ [name'] ∧ FileTree.Spelled name' := by
        have hroot : key ≠ [] := FileTree.ne_root_of_get? (t := s.tree) (by simp [hfile])
        exact ⟨key.dropLast, key.getLast hroot, (List.dropLast_concat_getLast hroot).symm,
          hs.sound.spelled_of_get? hfile (List.getLast_mem hroot)⟩
      obtain ⟨folder', name', rfl, hspelled⟩ := hkeySpelled
      have hsameKey := Settings.outputKey?_inj hspelled hplace.spelled hkey hplaceSource hout
        hplaceOut
      rw [hsameKey] at hfile ⊢
      exact Or.inr (rendered_of_enters hplace hfile hread hexpands)
    · refine Or.inl ?_
      rw [final_ok, FileTree.get?_set_of_ne _ _ heq,
        hs₁.sound.get?_erase_of_ne (hfills.housed hs₁.sound).1 (hne other hfills)]

theorem puts_renders (hsource : s.settings.isSource file = true) : Puts True Renders file s := by
  intro source text s₁ target hread hexpands h htarget hsame
  obtain ⟨tree, hfinal⟩ := final_writeThrough target text s₁
  rw [h.settings] at htarget
  refine ⟨by rw [hfinal]; exact h.settings, by rw [hfinal]; exact h.recordPath,
    by rw [hfinal]; exact h.bare, ?_, ?_⟩
  · intro hs
    have hs₁ := h.orderly hs
    obtain ⟨houtput, htemporary⟩ := hs.separates.sources file target hsource htarget hsame
    exact (h.sources hs).trans
      (sameSources_writeThrough hs₁.sound hs₁.unlinked houtput htemporary text)
  · intro hs key out content hkey hfile hout
    rcases changes_writeThrough hs h hsource hread (hexpands trivial) htarget hkey hfile hout with
      hsame | hrendered
    · rw [hsame]
      refine (h.outputs hs key out content hkey hfile hout).imp id (Or.imp id ?_)
      exact fun hrendered => hrendered.congr hsame
    · exact Or.inr (Or.inr hrendered)

/-! ## Whole files -/

theorem renders_expandFile (hs : s.Coherent) (path : Path) :
    Renders s (final (expandFile path s)) :=
  frame_pass frame_renders (fun _ => hs) fun _ _ _ hsource => puts_renders hsource

theorem renders_translateFile (hs : s.Coherent) (hsource : s.settings.isSource file = true) :
    Renders s (final (translateFile file s)) := by
  refine frame_translateFile frame_renders resolve_resolves (fun _ => hs) ?_ (puts_renders hsource)
  intro reference s₁ _ hs₁
  exact frame_resolve frame_renders hs₁ fun _ _ _ hlisted => puts_renders hlisted

/-- A source that is translated is in a place that its path names, and its output is put beside it.
Where the source is no link, the output is a rendition of it. -/
theorem rendered_of_translateFile (hs : s.Orderly) (hcoherent : s.Coherent)
    (hsource : s.settings.isSource file = true) (h : translateFile file s = .ok target s') :
    s.settings.outputPath file = .ok target ∧ ∃ folder name on,
      s.tree.Enters file folder name ∧ s.tree.Enters target folder on ∧
      s.settings.outputKey? (folder ++ [name]) = some (folder ++ [on]) ∧
      ∀ content, s.tree.get? (folder ++ [name]) = some (.file content) →
        Rendered s s'.tree (folder ++ [name]) (folder ++ [on]) := by
  obtain ⟨text, s₁, hexpand, htarget, -, hwritten⟩ := translateFile_eq_ok h
  have hpass : Renders s s₁ := by
    have hpass := renders_expandFile hcoherent file
    rw [expandFile, hexpand] at hpass
    exact hpass
  have hs₁ := hpass.orderly hs
  obtain ⟨source, hread, hexpands⟩ :=
    (acts_expandFile resolve_resolves hcoherent file).2 text s₁ hexpand
  rw [hpass.settings] at htarget
  rcases writeThrough_cases hs₁.sound hs₁.unlinked target text with
    ⟨e, hwrite⟩ | ⟨e, key, -, hwrite⟩ | ⟨key, folder, on, -, henters, -, -, hwrite⟩
  · rw [hwrite] at hwritten
    cases hwritten
  · rw [hwrite] at hwritten
    cases hwritten
  · rw [hwrite] at hwritten
    cases hwritten
    obtain ⟨folder₀, name, hfile⟩ := FileTree.enters_of_readText hread
    obtain ⟨rfl, hbeside, -, hout⟩ :=
      henters.beside hfile hs.unlinked (hpass.sources hs).evolves hsource htarget
    exact ⟨htarget, folder₀, name, on, hfile, hbeside, hout,
      fun content hcontent => rendered_of_enters hfile hcontent hread hexpands⟩

end SourceMacros
