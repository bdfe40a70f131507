-- The law of sources: no operation overwrites one. What is written has the name of an output, of a
-- temporary file or of the record, so a source stands while none of these is the name of a source.
import SourceMacros.Proofs.Extensions
import SourceMacros.Proofs.TranslationLaws

namespace SourceMacros

/-! ## Names of keys -/

namespace Path

/-- Pieces that end in a name make a path that ends in it. -/
theorem pieces_ofPieces_concat (init : List String) {name : String} (h : '/' ∉ name.toList) :
    ∃ init', (ofPieces (init ++ [name])).pieces = init' ++ [name] := by
  have hlast : (Pieces.split '/' name.toList).map String.ofList = [name] := by
    simp [Pieces.split_of_not_mem '/' h]
  have htext : (ofPieces (init ++ [name])).text.toList =
      (init.map String.toList).flatMap (· ++ ['/']) ++ name.toList := by
    unfold ofPieces
    rw [Pieces.toList_joinText, List.map_append, List.map_singleton, join_concat]
  unfold pieces Pieces.splitText
  rw [htext]
  rcases List.eq_nil_or_concat init with rfl | ⟨before, last, rfl⟩
  · exact ⟨[], by simpa using hlast⟩
  · have hslash : ((before.concat last).map String.toList).flatMap (· ++ ['/']) ++ name.toList =
        ((before.map String.toList).flatMap (· ++ ['/']) ++ last.toList) ++ '/' :: name.toList := by
      simp
    rw [hslash, Pieces.split_append_sep, List.map_append, hlast]
    exact ⟨_, rfl⟩

end Path

namespace FileTree

variable {t t' t₁ : FileTree} {key folder : Key} {name : String} {path : Path}
  {settings : Settings}

theorem pieces_keyPath (folder : Key) (h : Spelled name) :
    ∃ init, (keyPath (folder ++ [name])).pieces = init ++ [name] := by
  have hkey : keyPath (folder ++ [name]) = Path.ofPieces ("" :: folder ++ [name]) := by
    simp [keyPath]
  rw [hkey]
  exact Path.pieces_ofPieces_concat ("" :: folder) h.2

theorem fileName?_keyPath (folder : Key) (h : Spelled name) :
    (keyPath (folder ++ [name])).fileName? = some name := by
  obtain ⟨init, hpieces⟩ := pieces_keyPath folder h
  exact Path.fileName?_of_pieces hpieces h.1

/-- The file at a key is a source by its own name. -/
def IsSourceAt (settings : Settings) (key : Key) : Prop := settings.isSource (keyPath key) = true

instance (settings : Settings) (key : Key) : Decidable (IsSourceAt settings key) :=
  inferInstanceAs (Decidable (_ = true))

theorem Enters.isSourceAt (h : t.Enters path folder name) :
    IsSourceAt settings (folder ++ [name]) ↔ settings.isSource path = true := by
  unfold IsSourceAt
  rw [Settings.isSource_iff, Settings.isSource_iff, fileName?_keyPath folder h.spelled, h.fileName]

/-! ## Trees with the same sources -/

/-- A sound tree evolves into another that has the same sources with the same contents. -/
structure SameSources (settings : Settings) (t t' : FileTree) : Prop where
  sound : t'.Sound
  evolves : t.Evolves t'
  sources : ∀ key content, IsSourceAt settings key →
    (t'.get? key = some (.file content) ↔ t.get? key = some (.file content))

theorem SameSources.refl (ht : t.Sound) : SameSources settings t t :=
  ⟨ht, .refl t, fun _ _ _ => Iff.rfl⟩

theorem SameSources.trans (h : SameSources settings t t₁) (h' : SameSources settings t₁ t') :
    SameSources settings t t' :=
  ⟨h'.sound, h.evolves.trans h'.evolves,
    fun key content hkey => (h'.sources key content hkey).trans (h.sources key content hkey)⟩

/-- A change of one node that is no source leaves the sources as they were. -/
theorem SameSources.of_change (hsound : t'.Sound) (hevolves : t.Evolves t')
    (hkeep : ∀ other, other ≠ key → t'.get? other = t.get? other)
    (hkey : ¬ IsSourceAt settings key) : SameSources settings t t' := by
  refine ⟨hsound, hevolves, ?_⟩
  intro other content hother
  rw [hkeep other]
  rintro rfl
  exact hkey hother

theorem sameSources_erase {target : Path} (h : t.Fills target.temporary key) (ht : t.Sound)
    (hu : t.Unlinked) (htarget : settings.isSource target.temporary = false) :
    SameSources settings t (t.erase key) := by
  obtain ⟨folder, hkey, henters⟩ := h.enters_temporary hu
  obtain ⟨hold, -⟩ := h.housed ht
  refine .of_change (ht.erase hold)
    (ht.evolves_erase hold ⟨_, by rw [hkey]; exact List.getLast?_concat⟩)
    (fun other hne => ht.get?_erase_of_ne hold hne) ?_
  rw [hkey, henters.isSourceAt, htarget]
  simp

/-- What saving a record does to a node: nothing, or a folder is made where nothing was, or the
record is written there. -/
theorem save_changes {r : HashRecord} (ht : t.Sound) :
    (final (r.save t)).Sound ∧ t.Evolves (final (r.save t)) ∧
      ∀ key, (final (r.save t)).get? key = t.get? key ∨
        (t.get? key = none ∧ (final (r.save t)).get? key = some .folder) ∨
        ∃ path, r.path = some path ∧ t.ComesToFill path key := by
  refine save_relates (R := fun t t' => t.Sound → t'.Sound ∧ t.Evolves t' ∧
    ∀ key, t'.get? key = t.get? key ∨ (t.get? key = none ∧ t'.get? key = some .folder) ∨
      ∃ path, r.path = some path ∧ t.ComesToFill path key) ?_ ?_ ?_ ?_ ht
  · exact fun t ht => ⟨ht, .refl t, fun _ => Or.inl rfl⟩
  · intro t t₁ t₂ h h' ht
    obtain ⟨hsound, hevolves, hfirst⟩ := h ht
    obtain ⟨hsound', hevolves', hsecond⟩ := h' hsound
    refine ⟨hsound', hevolves.trans hevolves', ?_⟩
    intro key
    rcases hsecond key with hsame | ⟨hvacant, hmade⟩ | ⟨path, hpath, t', hlater, hfills⟩
    · rw [hsame]
      exact hfirst key
    · rcases hfirst key with hsame | ⟨-, hmade'⟩ | hfilled
      · exact Or.inr (Or.inl ⟨by rw [← hsame]; exact hvacant, hmade⟩)
      · rw [hvacant] at hmade'
        cases hmade'
      · exact Or.inr (Or.inr hfilled)
    · exact Or.inr (Or.inr ⟨path, hpath, t', hevolves.trans hlater, hfills⟩)
  · intro path above t key _ _ hplace ht
    obtain ⟨hvacant, folder, name, rfl, hfolder, hname⟩ := ht.place_stands hplace
    refine ⟨ht.set hfolder hname (by simp [hvacant]) _, .set_folder (by simp) hvacant, ?_⟩
    intro other
    by_cases heq : other = folder ++ [name]
    · exact Or.inr (Or.inl ⟨by rw [heq]; exact hvacant, by simp [heq]⟩)
    · exact Or.inl (get?_set_of_ne _ _ (Ne.symm heq))
  · intro path t key content hpath hfills ht
    obtain ⟨hsound, hevolves⟩ := hfills.set ht content
    refine ⟨hsound, hevolves, ?_⟩
    intro other
    by_cases heq : other = key
    · exact Or.inr (Or.inr ⟨path, hpath, t, .refl t, by rw [heq]; exact hfills⟩)
    · exact Or.inl (get?_set_of_ne _ _ (Ne.symm heq))

theorem sameSources_save {r : HashRecord} (ht : t.Sound)
    (hrecord : ∀ path key, r.path = some path → t.ComesToFill path key →
      ¬ IsSourceAt settings key) : SameSources settings t (final (r.save t)) := by
  obtain ⟨hsound, hevolves, hchanges⟩ := save_changes (r := r) ht
  refine ⟨hsound, hevolves, ?_⟩
  intro key content hkey
  rcases hchanges key with hsame | ⟨hvacant, hmade⟩ | ⟨path, hpath, hfills⟩
  · rw [hsame]
  · simp [hvacant, hmade]
  · exact absurd hkey (hrecord path key hpath hfills)

end FileTree

variable {μ : Type} {s s₁ s' : Session μ}

theorem sameSources_writeThrough {settings : Settings} {target : Path} (ht : s.tree.Sound)
    (hu : s.tree.Unlinked) (htarget : settings.isSource target = false)
    (htemporary : settings.isSource target.temporary = false) (text : String) :
    FileTree.SameSources settings s.tree (final (Run.writeThrough target text s)).tree := by
  rcases writeThrough_cases ht hu target text with
    ⟨e, hrun⟩ | ⟨e, key, hfills, hrun⟩ | ⟨key, folder, name, hfills, henters, hgoal, hne, hrun⟩
  · rw [hrun]
    exact .refl ht
  · rw [hrun]
    exact FileTree.sameSources_erase hfills ht hu htemporary
  · have herase := FileTree.sameSources_erase hfills ht hu htemporary
    have hgoal' : (s.tree.erase key).get? (folder ++ [name]) ≠ some .folder := by
      rw [ht.get?_erase_of_ne (hfills.housed ht).1 hne]
      exact hgoal
    have hfolder := herase.evolves.folders folder (henters.in_folder ht)
    rw [hrun]
    refine herase.trans (.of_change (herase.sound.set hfolder henters.spelled hgoal' _)
      (.set_file hgoal' _) (fun other hne => FileTree.get?_set_of_ne _ _ (Ne.symm hne)) ?_)
    rw [henters.isSourceAt, htarget]
    simp

/-! ## Settings that keep sources apart -/

/-- Neither the output of one of the given paths nor the temporary file beside it has the name of a
source, where the output is not the path itself. -/
def Settings.KeepsSources (settings : Settings) (files : Path → Prop) : Prop :=
  ∀ path target, files path → settings.outputPath path = .ok target → target.same path = false →
    settings.isSource target = false ∧ settings.isSource target.temporary = false

/-- An extension of outputs without points keeps sources apart, if it is another one than that of
sources, and sources are not named like temporary files. -/
theorem Settings.keepsSources_of_plain {settings : Settings} (files : Path → Prop)
    (hne : settings.outputExtension ≠ "") (hpoint : '.' ∉ settings.outputExtension.toList)
    (hother : settings.outputExtension ≠ settings.sourceExtension)
    (htemporary : settings.sourceExtension ≠ "tmp") : settings.KeepsSources files := by
  intro path target _ htarget _
  obtain ⟨hslash, rfl⟩ := Settings.outputPath_eq_ok.mp htarget
  constructor
  · unfold Settings.isSource Path.withExtension
    rcases Path.extension?_putExtension path.dropExtension hne hpoint hslash with hnone | hsome
    · simp [hnone]
    · simpa [hsome] using hother
  · unfold Settings.isSource
    rw [Path.extension?_temporary]
    simpa using Ne.symm htemporary

/-- The record is not kept in a file that is a source, now or after the tree has evolved. -/
def Session.KeepsRecord (s : Session μ) : Prop :=
  ∀ path key, s.record.path = some path → s.tree.ComesToFill path key →
    ¬ FileTree.IsSourceAt s.settings key

/-- Sources stay as they are, under settings that keep them apart. -/
structure SourcesStand (files : Path → Prop) (s s' : Session μ) : Prop where
  settings : s'.settings = s.settings
  recordPath : s'.record.path = s.record.path
  tree : s.tree.Sound → s.tree.Unlinked → s.settings.KeepsSources files → s.KeepsRecord →
    FileTree.SameSources s.settings s.tree s'.tree

theorem frame_sourcesStand (files : Path → Prop) :
    Frame (μ := μ) False (SourcesStand files) := by
  refine ⟨?_, ?_, ?_⟩
  · intro s s' hstill
    refine ⟨hstill.settings, hstill.recordPath, ?_⟩
    intro ht _ _ _
    rw [hstill.tree]
    exact .refl ht
  · intro s s₁ s' h h'
    refine ⟨h'.settings.trans h.settings, h'.recordPath.trans h.recordPath, ?_⟩
    intro ht hu hkeeps hrecord
    have hfirst := h.tree ht hu hkeeps hrecord
    have hsecond := h'.tree hfirst.sound (hfirst.evolves.unlinked hu)
    rw [h.settings] at hsecond
    refine hfirst.trans (hsecond hkeeps ?_)
    rintro path key hpath ⟨t', hlater, hfills⟩
    rw [h.settings]
    rw [h.recordPath] at hpath
    exact hrecord path key hpath ⟨t', hfirst.evolves.trans hlater, hfills⟩
  · intro s
    obtain ⟨dirty, hfinal⟩ := final_saveRecord s
    rw [hfinal]
    exact ⟨rfl, rfl, fun ht _ _ hrecord => FileTree.sameSources_save ht hrecord⟩

theorem puts_sourcesStand {files : Path → Prop} {file : Path} (hfile : files file) :
    Puts False (SourcesStand files) file s := by
  intro source text s₁ target _ _ hstand htarget hsame
  obtain ⟨tree, hfinal⟩ := final_writeThrough target text s₁
  refine (frame_sourcesStand files).trans hstand ⟨by rw [hfinal], by rw [hfinal], ?_⟩
  intro ht hu hkeeps _
  obtain ⟨hsource, htemporary⟩ := hkeeps file target hfile htarget hsame
  exact sameSources_writeThrough ht hu hsource htemporary text

/-! ## Trees without links -/

namespace FileTree

variable {t t' : FileTree} {key : Key} {path : Path}

def Linkless (t : FileTree) : Prop := ∀ key target, t.get? key ≠ some (.link target)

theorem linkless_of_nodes (h : ∀ entry ∈ t.nodes, ∀ target, entry.2 ≠ .link target) :
    t.Linkless := by
  intro key target hkey
  have hne : key ≠ [] := by
    rintro rfl
    cases hkey
  exact h _ (mem_nodes_of_get? hne hkey) target rfl

theorem Linkless.unlinked (ht : t.Linkless) : t.Unlinked :=
  fun key target hkey => absurd hkey (ht key target)

theorem Linkless.evolve (ht : t.Linkless) (h : t.Evolves t') : t'.Linkless :=
  fun key target hkey => ht key target (h.links key target hkey)

/-- Without links a file is written in the place that its path names. -/
theorem Linkless.enters_of_fills (ht : t.Linkless) (h : t.ComesToFill path key) :
    ∃ (t' : FileTree) (folder : Key) (name : String),
      key = folder ++ [name] ∧ t'.Enters path folder name := by
  obtain ⟨t', hevolves, hfills⟩ := h
  have hlinks := ht.evolve hevolves
  obtain ⟨init, name, hpieces, hname⟩ :
      ∃ init name, path.pieces = init ++ [name] ∧ Path.IsName name := by
    rcases hfills with hfind | ⟨old, hfind⟩
    · exact name_of_follow (by decide) (Or.inr ⟨rfl, _, rfl⟩) (find_eq_ok.mp hfind).2
    · exact name_of_follow (by decide) (Or.inl ⟨_, _, rfl⟩) (find_eq_ok.mp hfind).2
  obtain ⟨folder, hkey, henters⟩ := hfills.enters hpieces hname fun folder => hlinks _
  exact ⟨t', folder, name, hkey, henters⟩

theorem Linkless.keepsRecord (ht : s.tree.Linkless)
    (h : ∀ path, s.record.path = some path → s.settings.isSource path = false) :
    s.KeepsRecord := by
  intro path key hpath hfills
  obtain ⟨t', folder, name, rfl, henters⟩ := ht.enters_of_fills hfills
  rw [henters.isSourceAt, h path hpath]
  simp

end FileTree

/-! ## The law -/

theorem no_call_overwrites_a_source (hs : s.tree.Sound) (hlinks : s.tree.Linkless)
    (hkeeps : s.settings.KeepsSources fun _ => True)
    (hrecord : ∀ path, s.record.path = some path → s.settings.isSource path = false)
    (c : Call μ) {key : Key} {content : ByteArray}
    (hsource : s.settings.isSource (FileTree.keyPath key) = true)
    (hfile : s.tree.get? key = some (.file content)) :
    (c.perform s).tree.get? key = some (.file content) := by
  have hstand : SourcesStand (fun _ => True) s (c.perform s) :=
    frame_call (frame_sourcesStand _) (fun _ _ => puts_sourcesStand trivial) False.elim c
  have hsame := hstand.tree hs hlinks.unlinked hkeeps (hlinks.keepsRecord hrecord)
  exact (hsame.sources key content hsource).mpr hfile

theorem strandedSession_keeps : strandedSession.tree.Linkless ∧
    (strandedSession.settings.KeepsSources fun _ => True) ∧
    ∀ path, strandedSession.record.path = some path →
      strandedSession.settings.isSource path = false := by
  unfold strandedSession
  refine ⟨?_, ?_, ?_⟩
  · apply FileTree.linkless_of_nodes
    simp [Session.start]
  · exact Settings.keepsSources_of_plain _ (by decide) (by decide) (by decide) (by decide)
  · intro path hrecord
    cases hrecord
    decide

/-- The helper of the package is as it was after the call that wrote its output and then failed. -/
theorem the_helper_outlasts_a_stranded_translation :
    strandedSession.tree.Sound ∧ strandedSession.tree.Linkless ∧
      (strandedSession.settings.KeepsSources fun _ => True) ∧
      ∃ content, strandedSession.tree.get? ["pkgs", "p", "h.mpy"] = some (.file content) ∧
        ((Call.translateFile ⟨"a.mpy"⟩).perform strandedSession).tree.isFile ⟨"pkgs/p/h.py"⟩ =
          true ∧
        ((Call.translateFile ⟨"a.mpy"⟩).perform strandedSession).tree.get?
          ["pkgs", "p", "h.mpy"] = some (.file content) := by
  obtain ⟨hlinks, hkeeps, hrecord⟩ := strandedSession_keeps
  have hhelper : strandedSession.settings.isSource
        (FileTree.keyPath ["pkgs", "p", "h.mpy"]) = true ∧
      strandedSession.tree.get? ["pkgs", "p", "h.mpy"] = some (.file "x = 1\n".toUTF8) := by
    unfold strandedSession
    exact ⟨by decide, rfl⟩
  obtain ⟨hsource, hfile⟩ := hhelper
  refine ⟨strandedSession_sound.1, hlinks, hkeeps, _, hfile, ?_,
    no_call_overwrites_a_source strandedSession_sound.1 hlinks hkeeps hrecord _ hsource hfile⟩
  rw [Call.perform_translateFile]
  exact strandedSession_facts.2.1

/-- A session over two sources, where the output of one has the name of the other. -/
@[irreducible]
def doubledSession : Session Unit :=
  .start { outputExtension := "x.mpy" } .standard
    ⟨[(["a.mpy"], .file "x = 1\n".toUTF8), (["a.x.mpy"], .file "y = 2\n".toUTF8)], []⟩ false ()

/-- An extension of outputs that ends in the extension of sources lets one source overwrite
another. -/
theorem an_output_overwrites_another_source :
    '/' ∉ doubledSession.settings.outputExtension.toList ∧ doubledSession.tree.Sound ∧
      doubledSession.tree.Linkless ∧ doubledSession.record.path = none ∧
      doubledSession.settings.isSource (FileTree.keyPath ["a.x.mpy"]) = true ∧
      doubledSession.tree.get? ["a.x.mpy"] = some (.file "y = 2\n".toUTF8) ∧
      ((Call.translateFile ⟨"a.mpy"⟩).perform doubledSession).tree.get? ["a.x.mpy"] ≠
        some (.file "y = 2\n".toUTF8) := by
  have hlinks : doubledSession.tree.Linkless := by
    apply FileTree.linkless_of_nodes
    unfold doubledSession
    simp [Session.start]
  have hfile : doubledSession.tree.get? ["a.x.mpy"] = some (.file "y = 2\n".toUTF8) := by
    unfold doubledSession
    rfl
  have hfacts : '/' ∉ doubledSession.settings.outputExtension.toList ∧
      doubledSession.tree.Sound ∧ doubledSession.record.path = none ∧
      doubledSession.settings.isSource (FileTree.keyPath ["a.x.mpy"]) = true ∧
      (((Call.translateFile ⟨"a.mpy"⟩).perform doubledSession).tree.get? ["a.x.mpy"]).any
        (Node.same (.file "y = 2\n".toUTF8)) = false ∧
      Node.same (.file "y = 2\n".toUTF8) (.file "y = 2\n".toUTF8) = true := by
    decide +kernel
  obtain ⟨hslash, hsound, hrecord, hsource, hchanged, hsame⟩ := hfacts
  refine ⟨hslash, hsound, hlinks, hrecord, hsource, hfile, ?_⟩
  intro hkept
  rw [hkept, Option.any_some, hsame] at hchanged
  cases hchanged

end SourceMacros
