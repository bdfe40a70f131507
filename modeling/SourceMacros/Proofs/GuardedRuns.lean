-- Guarded runs. By their names, outputs overwrite neither sources nor the record of digests. So a
-- call keeps both, whatever it nests, unless an output takes the place of a link on the way of the
-- record.
import SourceMacros.Proofs.KeptRecords
import SourceMacros.Proofs.RecordLaws
import SourceMacros.Proofs.Renditions

namespace SourceMacros

open FileTree (IsSourceAt)

/-! ## Ways that stay -/

namespace FileTree

variable {t t' last : FileTree} {path : Path} {links : List Key} {key : Key} {content : ByteArray}
  {settings : Settings}

theorem readText_eq_ok {text : String} :
    t.readText path = .ok text ↔ t.read path = .ok text.toUTF8 := by
  constructor
  · exact toUTF8_of_readText
  · intro hread
    unfold readText
    rw [hread]
    dsimp only
    rw [fromUTF8?_toUTF8]

theorem Reaches.fills (h : t.Reaches path links key) (hfile : t.get? key = some (.file content)) :
    t.Fills path key := Or.inr ⟨content, h.find (Or.inr rfl) hfile⟩

/-- Links stay, and so do files, whatever they hold. -/
structure Preserves (t t' : FileTree) : Prop where
  sound : t'.Sound
  links : ∀ key target, t.get? key = some (.link target) → t'.get? key = some (.link target)
  files : ∀ key content, t.get? key = some (.file content) →
    ∃ content, t'.get? key = some (.file content)

/-- A save makes folders where nothing was, and fills a file. -/
theorem preserves_save {r : HashRecord} (ht : t.Sound) : Preserves t (final (r.save t)) := by
  refine save_relates (R := fun t t' => t.Sound → Preserves t t') ?_ ?_ ?_ ?_ ht
  · exact fun t ht => ⟨ht, fun _ _ h => h, fun _ content h => ⟨content, h⟩⟩
  · intro t t₁ t₂ h h' ht
    have h := h ht
    have h' := h' h.sound
    refine ⟨h'.sound, fun key target hkey => h'.links key target (h.links key target hkey), ?_⟩
    intro key content hkey
    obtain ⟨content, hkey⟩ := h.files key content hkey
    exact h'.files key content hkey
  · intro path above t key _ _ hplace ht
    obtain ⟨hvacant, folder, name, rfl, hfolder, hname⟩ := ht.place_stands hplace
    have hkeep : ∀ other node, t.get? other = some node →
        (t.set (folder ++ [name]) .folder).get? other = some node := by
      intro other node hother
      rw [get?_set_of_ne]
      · exact hother
      · rintro rfl
        rw [hvacant] at hother
        cases hother
    exact ⟨ht.set hfolder hname (by simp [hvacant]) _, fun other _ => hkeep other _,
      fun other content hother => ⟨content, hkeep other _ hother⟩⟩
  · intro path t key content _ hfills ht
    refine ⟨(hfills.set ht content).1, ?_, ?_⟩
    · intro other target hother
      rw [get?_set_of_ne]
      · exact hother
      · rintro rfl
        exact hfills.not_link ht target hother
    · intro other old hother
      by_cases heq : key = other
      · rw [← heq]
        exact ⟨content, get?_set_self _ _ (ne_root_of_get? (hfills.housed ht).1)⟩
      · exact ⟨old, by rw [get?_set_of_ne _ _ heq]; exact hother⟩

/-- A path that leads to a file still does. -/
theorem Preserves.isFile (h : Preserves t t') (hevolves : t.Evolves t')
    (hfile : t.isFile path = true) : t'.isFile path = true := by
  obtain ⟨key, content, hfind⟩ := find_of_isFile hfile
  obtain ⟨links, hreaches, hget⟩ := reaches_of_find hfind
  obtain ⟨content', hget'⟩ := h.files key content hget
  have hstays : t'.Reaches path links key := by
    refine hreaches.stays hevolves.working hevolves.folders ?_
    intro link hlink
    obtain ⟨target, htarget⟩ := hreaches.arrives.link hlink
    rw [htarget, h.links link target htarget]
  exact hstays.isFile hget'

/-- What is read by a path stays while no folder comes to be and nothing changes in a place where the
path comes to fill a file, if the path leads to a file in the end. -/
theorem readText_stays (hevolves : t.Evolves t') (ht : t.Unlinked)
    (hfolders : ∀ other, t'.get? other = some .folder → t.get? other = some .folder)
    (hkeep : ∀ other, t.ComesToFill path other → t'.get? other = t.get? other)
    (hlater : t'.Evolves last)
    (hlinks : ∀ other target, t.ComesToFill path other → t.get? other = some (.link target) →
      last.get? other = some (.link target))
    (hlast : last.isFile path = true) (text : String) :
    t'.readText path = .ok text ↔ t.readText path = .ok text := by
  rw [readText_eq_ok, readText_eq_ok]
  constructor
  · intro hread
    obtain ⟨key, hfind⟩ := find_of_read hread
    obtain ⟨links, hreaches, hfile⟩ := reaches_of_find hfind
    have hsame := hkeep key ⟨t', hevolves, hreaches.fills hfile⟩
    have hstays : t.Reaches path links key := by
      refine hreaches.stays hevolves.working.symm hfolders ?_
      intro link hlink
      obtain ⟨target, htarget⟩ := hreaches.arrives.link hlink
      rw [htarget, hevolves.links link target htarget]
    exact hstays.read (hsame.symm.trans hfile)
  · intro hread
    obtain ⟨key, hfind⟩ := find_of_read hread
    obtain ⟨links, hreaches, hfile⟩ := reaches_of_find hfind
    have hsame := hkeep key ⟨t, .refl t, hreaches.fills hfile⟩
    suffices hstay : ∀ link ∈ links, t'.get? link = t.get? link from
      (hreaches.stays hevolves.working hevolves.folders hstay).read (hsame.trans hfile)
    obtain ⟨end', content', hend⟩ := find_of_isFile hlast
    obtain ⟨links', hreaches', hfile'⟩ := reaches_of_find hend
    have hbase : last.base path = t.base path := by
      unfold base
      rw [hlater.working, hevolves.working]
    have harrives' := hreaches'.arrives
    rw [hbase] at harrives'
    have hall := hevolves.trans hlater
    rcases hreaches.arrives.evolve harrives' ht hall hfile' with hstay | hmem
    · intro link hlink
      obtain ⟨target, htarget⟩ := hreaches.arrives.link hlink
      rw [htarget]
      refine hlater.links link target ?_
      rw [hstay link hlink, htarget]
    · -- The path ends where one of the links was, but that link stays.
      obtain ⟨target, htarget⟩ := hreaches.arrives.link hmem
      rw [hlinks end' target ⟨last, hall, hreaches'.fills hfile'⟩ htarget] at hfile'
      cases hfile'

/-- Nothing changes on the way of a path: neither a link that it crosses nor the file where it
arrives. Those that have the name of a source are left out. -/
def Undisturbed (settings : Settings) (path : Path) (t t' : FileTree) : Prop :=
  ∀ links key, t.Reaches path links key → ∀ place ∈ key :: links,
    ¬ IsSourceAt settings place → t'.get? place = t.get? place

/-- A file at the end of such a way is reached, read and identified as before. -/
theorem Reaches.undisturbed (h : t.Reaches path links key)
    (hfile : t.get? key = some (.file content)) (ht : t.Unlinked)
    (hsame : SameSources settings t t') (hway : Undisturbed settings path t t') :
    t'.Reaches path links key ∧ t'.get? key = some (.file content) ∧
      t'.canonical path = t.canonical path := by
  have hway := hway links key h
  have hlinks : ∀ link ∈ links, t'.get? link = t.get? link := by
    intro link hlink
    by_cases hsource : IsSourceAt settings link
    · obtain ⟨target, htarget⟩ := h.arrives.link hlink
      rcases hsame.evolves.lasting link _ (ht link target htarget) htarget (by simp) with
        hstays | ⟨other, hother⟩
      · rw [hstays, htarget]
      · rw [(hsame.sources link other hsource).mp hother] at htarget
        cases htarget
    · exact hway link (List.mem_cons_of_mem _ hlink) hsource
  have hfile' : t'.get? key = some (.file content) := by
    by_cases hsource : IsSourceAt settings key
    · exact (hsame.sources key content hsource).mpr hfile
    · rw [hway key List.mem_cons_self hsource, hfile]
  have hevolves := hsame.evolves
  exact ⟨h.stays hevolves.working hevolves.folders hlinks, hfile',
    h.canonical_eq hevolves.working hevolves.folders hlinks hfile hfile'⟩

end FileTree

/-! ## Places that are left alone -/

variable {μ : Type} {s s₁ s' : Session μ} {record file target : Path} {key : Key}
  {last : FileTree} {source text : String}

/-- Neither a source has this place nor the output of a source that is there nor, by its name, the
temporary file of an output. -/
structure Session.Alone (s : Session μ) (key : Key) : Prop where
  source : ¬ IsSourceAt s.settings key
  output : ∀ source node, IsSourceAt s.settings source → s.tree.get? source = some node →
    node ≠ .folder → s.settings.outputKey? source ≠ some key
  temporary : ∀ path target, s.settings.isSource path = true →
    s.settings.outputPath path = .ok target → key.getLast? ≠ target.temporary.fileName?

/-- The tree is sound, no link has the name of a temporary file, outputs and their temporary files
have the names of no sources, and wherever the record comes to be kept is left alone. -/
structure Session.Guarded (s : Session μ) : Prop where
  sound : s.tree.Sound
  unlinked : s.tree.Unlinked
  sources : s.settings.KeepsSources fun path => s.settings.isSource path = true
  record : ∀ path key, s.record.path = some path → s.tree.ComesToFill path key → s.Alone key

theorem Session.Guarded.keepsRecord (h : s.Guarded) : s.KeepsRecord :=
  fun path key hpath hfills => (h.record path key hpath hfills).source

/-- Sources that stay leave the same places alone. -/
theorem Session.alone_iff (hsettings : s'.settings = s.settings) (hu : s.tree.Unlinked)
    (hsame : FileTree.SameSources s.settings s.tree s'.tree) : s'.Alone key ↔ s.Alone key := by
  constructor
  · intro h
    refine ⟨by rw [← hsettings]; exact h.source, ?_, by rw [← hsettings]; exact h.temporary⟩
    intro source node hsource hnode hfolder
    rw [← hsettings]
    cases node with
    | folder => exact absurd rfl hfolder
    | file content =>
      have hnode' := (hsame.sources source content hsource).mpr hnode
      exact h.output source _ (by rw [hsettings]; exact hsource) hnode' hfolder
    | link target =>
      rcases hsame.evolves.lasting source _ (hu source target hnode) hnode hfolder with
        hnode' | ⟨content, hnode'⟩
      · exact h.output source _ (by rw [hsettings]; exact hsource) hnode' hfolder
      · exact h.output source _ (by rw [hsettings]; exact hsource) hnode' (by simp)
  · intro h
    refine ⟨by rw [hsettings]; exact h.source, ?_, by rw [hsettings]; exact h.temporary⟩
    intro source node hsource hnode hfolder
    rw [hsettings] at hsource ⊢
    cases node with
    | folder => exact absurd rfl hfolder
    | file content =>
      exact h.output source _ hsource ((hsame.sources source content hsource).mp hnode) hfolder
    | link target =>
      exact h.output source _ hsource (hsame.evolves.links source target hnode) hfolder

/-! ## Keeping the record -/

/-- A session becomes the tree `last` in the end, in which the record leads to a file. -/
structure EndsIn (record : Path) (last : FileTree) (s : Session μ) : Prop where
  evolves : s.tree.Evolves last
  links : ∀ key target, s.Alone key → s.tree.get? key = some (.link target) →
    last.get? key = some (.link target)
  isFile : last.isFile record = true

/-- Sources stay as they are, and so do links that are left alone. The record is kept, if nobody
bars its way before the end. -/
structure Guards (record : Path) (last : FileTree) (s s' : Session μ) : Prop where
  settings : s'.settings = s.settings
  recordPath : s'.record.path = s.record.path
  sources : s.Guarded → FileTree.SameSources s.settings s.tree s'.tree
  links : s.Guarded → ∀ key target, s.Alone key → s.tree.get? key = some (.link target) →
    s'.tree.get? key = some (.link target)
  kept : s.Guarded → EndsIn record last s' → HashRecord.Kept record s.record s.tree →
    HashRecord.Kept record s'.record s'.tree

namespace Guards

theorem alone_iff (h : Guards record last s s') (hs : s.Guarded) : s'.Alone key ↔ s.Alone key :=
  Session.alone_iff h.settings hs.unlinked (h.sources hs)

theorem guarded (h : Guards record last s s') (hs : s.Guarded) : s'.Guarded := by
  have hsame := h.sources hs
  refine ⟨hsame.sound, hsame.evolves.unlinked hs.unlinked, by rw [h.settings]; exact hs.sources, ?_⟩
  rintro path key hpath ⟨t, hlater, hfills⟩
  rw [h.recordPath] at hpath
  exact (h.alone_iff hs).mpr (hs.record path key hpath ⟨t, hsame.evolves.trans hlater, hfills⟩)

theorem endsIn (h : Guards record last s s') (hs : s.Guarded) (hends : EndsIn record last s') :
    EndsIn record last s := by
  refine ⟨(h.sources hs).evolves.trans hends.evolves, ?_, hends.isFile⟩
  intro key target halone hlink
  exact hends.links key target ((h.alone_iff hs).mpr halone) (h.links hs key target halone hlink)

end Guards

theorem guards_saveRecord (s : Session μ) :
    Guards record last s (final (Run.saveRecord s)) := by
  obtain ⟨dirty, hfinal⟩ := final_saveRecord s
  have htree : (final (Run.saveRecord s)).tree = final (s.record.save s.tree) := by rw [hfinal]
  refine ⟨by rw [hfinal], by rw [hfinal], ?_, ?_, ?_⟩
  · intro hs
    rw [htree]
    exact FileTree.sameSources_save hs.sound hs.keepsRecord
  · intro hs key target _ hlink
    rw [htree]
    exact (FileTree.preserves_save hs.sound).links key target hlink
  · intro _ _ hkept
    unfold Run.saveRecord
    cases hsave : s.record.save s.tree with
    | ok r t => exact hkept.saved hsave
    | error e t => exact hkept.failed hsave

theorem frame_guards (record : Path) (last : FileTree) :
    Frame (μ := μ) False (Guards record last) := by
  refine ⟨?_, ?_, guards_saveRecord⟩
  · intro s s' hstill
    refine ⟨hstill.settings, hstill.recordPath, ?_, ?_, ?_⟩
    · intro hs
      rw [hstill.tree]
      exact .refl hs.sound
    · intro _ key target _ hlink
      rw [hstill.tree]
      exact hlink
    · intro _ _ hkept
      rw [hstill.tree]
      rcases hstill.record with hsame | ⟨file, digest, hnoted⟩
      · rw [hsame]
        exact hkept
      · rw [hnoted]
        exact hkept.updated file digest
  · intro s s₁ s' h h'
    refine ⟨h'.settings.trans h.settings, h'.recordPath.trans h.recordPath, ?_, ?_, ?_⟩
    · intro hs
      have hlater := h'.sources (h.guarded hs)
      rw [h.settings] at hlater
      exact (h.sources hs).trans hlater
    · intro hs key target halone hlink
      exact h'.links (h.guarded hs) key target ((h.alone_iff hs).mpr halone)
        (h.links hs key target halone hlink)
    · intro hs hends hkept
      exact h'.kept (h.guarded hs) hends (h.kept hs (h'.endsIn (h.guarded hs) hends) hkept)

/-! ## Writing outputs -/

/-- Writing a file changes its place and that of its temporary file, and makes no folder. -/
theorem writeThrough_changes (ht : s.tree.Sound) (hu : s.tree.Unlinked) (target : Path)
    (text : String) :
    (∀ key, (final (Run.writeThrough target text s)).tree.get? key = s.tree.get? key ∨
      s.tree.Fills target.temporary key ∨
      ∃ folder name, key = folder ++ [name] ∧ s.tree.Enters target folder name) ∧
    ∀ key, (final (Run.writeThrough target text s)).tree.get? key = some .folder →
      s.tree.get? key = some .folder := by
  have herase : ∀ other, s.tree.Fills target.temporary other →
      (∀ key, (s.tree.erase other).get? key = s.tree.get? key ∨
        s.tree.Fills target.temporary key) ∧
      ∀ key, (s.tree.erase other).get? key = some .folder → s.tree.get? key = some .folder := by
    intro other hfills
    have hold := (hfills.housed ht).1
    constructor
    · intro key
      by_cases heq : key = other
      · exact Or.inr (by rw [heq]; exact hfills)
      · exact Or.inl (ht.get?_erase_of_ne hold heq)
    · intro key hfolder
      by_cases heq : key = other
      · rw [heq, FileTree.get?_erase_self (FileTree.ne_root_of_get? hold)] at hfolder
        cases hfolder
      · rw [← hfolder, ht.get?_erase_of_ne hold heq]
  rcases writeThrough_cases ht hu target text with
    ⟨e, hrun⟩ | ⟨e, other, hfills, hrun⟩ | ⟨other, folder, name, hfills, henters, -, -, hrun⟩
  · rw [hrun]
    exact ⟨fun _ => Or.inl rfl, fun _ h => h⟩
  · rw [hrun]
    obtain ⟨hkeep, hfolders⟩ := herase other hfills
    exact ⟨fun key => (hkeep key).imp id Or.inl, hfolders⟩
  · rw [hrun]
    obtain ⟨hkeep, hfolders⟩ := herase other hfills
    have hset : ∀ key, key ≠ folder ++ [name] →
        ((s.tree.erase other).set (folder ++ [name]) (.file text.toUTF8)).get? key =
          (s.tree.erase other).get? key :=
      fun key hne => FileTree.get?_set_of_ne _ _ (Ne.symm hne)
    constructor
    · intro key
      by_cases heq : key = folder ++ [name]
      · exact Or.inr (Or.inr ⟨folder, name, heq, henters⟩)
      · rw [final_ok, hset key heq]
        exact (hkeep key).imp id Or.inl
    · intro key hfolder
      by_cases heq : key = folder ++ [name]
      · rw [heq, final_ok, FileTree.get?_set_self _ _ (by simp)] at hfolder
        cases hfolder
      · rw [final_ok, hset key heq] at hfolder
        exact hfolders key hfolder

/-- A file that is read is there, or a link in its place. -/
theorem FileTree.Enters.node_of_readText {t : FileTree} {folder : Key} {name : String}
    (h : t.Enters file folder name) (hread : t.readText file = .ok text) :
    ∃ node, t.get? (folder ++ [name]) = some node ∧ node ≠ .folder := by
  have hbytes := toUTF8_of_readText hread
  unfold FileTree.read at hbytes
  cases hnode : t.get? (folder ++ [name]) with
  | none =>
    rw [h.find (by decide) (Or.inr (by simp [hnode])), hnode] at hbytes
    cases hbytes
  | some node =>
    refine ⟨node, rfl, ?_⟩
    rintro rfl
    rw [h.find (by decide) (Or.inr (by simp [hnode])), hnode] at hbytes
    cases hbytes

/-- What is left alone stays when the output of a source is written after a pass over it. -/
theorem Session.Alone.untouched (h : s.Alone key) (hs : s.Guarded)
    (hsame : FileTree.SameSources s.settings s.tree s₁.tree)
    (hsource : s.settings.isSource file = true) (hread : s.tree.readText file = .ok source)
    (htarget : s.settings.outputPath file = .ok target) (text : String) :
    (final (Run.writeThrough target text s₁)).tree.get? key = s₁.tree.get? key := by
  have hu₁ := hsame.evolves.unlinked hs.unlinked
  rcases (writeThrough_changes hsame.sound hu₁ target text).1 key with
    hkeep | hfills | ⟨folder, on, rfl, henters⟩
  · exact hkeep
  · obtain ⟨folder, rfl, hplace⟩ := hfills.enters_temporary hu₁
    apply absurd _ (h.temporary file target hsource htarget)
    rw [hplace.fileName, List.getLast?_concat]
  · obtain ⟨folder', name, hfile⟩ := FileTree.enters_of_readText hread
    obtain ⟨rfl, -, hplace, hout⟩ :=
      henters.beside hfile hs.unlinked hsame.evolves hsource htarget
    obtain ⟨node, hnode, hfolder⟩ := hfile.node_of_readText hread
    exact absurd hout (h.output _ node hplace hnode hfolder)

theorem puts_guards (hsource : s.settings.isSource file = true) :
    Puts False (Guards record last) file s := by
  intro source text s₁ target hread _ h htarget hsame
  rw [h.settings] at htarget
  obtain ⟨tree, hfinal⟩ := final_writeThrough target text s₁
  have hkeep : ∀ key, s.Guarded → s.Alone key →
      (final (Run.writeThrough target text s₁)).tree.get? key = s₁.tree.get? key :=
    fun key hs halone => halone.untouched hs (h.sources hs) hsource hread htarget text
  have hwritten : s.Guarded → FileTree.SameSources s.settings s₁.tree
      (final (Run.writeThrough target text s₁)).tree := by
    intro hs
    obtain ⟨houtput, htemporary⟩ := hs.sources file target hsource htarget hsame
    exact sameSources_writeThrough (h.sources hs).sound ((h.sources hs).evolves.unlinked hs.unlinked)
      houtput htemporary text
  refine ⟨by rw [hfinal]; exact h.settings, by rw [hfinal]; exact h.recordPath, ?_, ?_, ?_⟩
  · exact fun hs => (h.sources hs).trans (hwritten hs)
  · intro hs key target halone hlink
    rw [hkeep key hs halone]
    exact h.links hs key target halone hlink
  · intro hs hends hkept
    have hu₁ := (h.sources hs).evolves.unlinked hs.unlinked
    have hends₁ : EndsIn record last s₁ := by
      refine ⟨(hwritten hs).evolves.trans hends.evolves, ?_, hends.isFile⟩
      intro key target halone₁ hlink
      have halone := (h.alone_iff hs).mp halone₁
      refine hends.links key target ?_ (by rw [hkeep key hs halone]; exact hlink)
      exact (Session.alone_iff (by rw [hfinal]; exact h.settings) hs.unlinked
        ((h.sources hs).trans (hwritten hs))).mpr halone
    -- The record reads what it read before, for its places are left alone.
    have halone : ∀ other, s₁.tree.ComesToFill record other → s.Alone other := by
      rintro other ⟨t, hlater, hfills⟩
      exact hs.record record other hkept.faithful.path
        ⟨t, (h.sources hs).evolves.trans hlater, hfills⟩
    have hreads := FileTree.readText_stays (hwritten hs).evolves hu₁
      (writeThrough_changes (h.sources hs).sound hu₁ target text).2
      (fun other hfills => hkeep other hs (halone other hfills)) hends.evolves
      (fun other link hfills =>
        hends₁.links other link ((h.alone_iff hs).mpr (halone other hfills))) hends.isFile
    have hrecord : (final (Run.writeThrough target text s₁)).record = s₁.record := by rw [hfinal]
    rw [hrecord]
    exact (h.kept hs hends₁ hkept).meanwhile hreads

/-- A call keeps sources and the record, whatever it nests. -/
theorem guards_bootstrapFile (path : Path) (s : Session μ) :
    Guards record last s (final (bootstrapFile path s)) := by
  refine frame_bootstrapFile (frame_guards record last) resolve_resolves False.elim ?_ ?_
  · intro _ reference s₁ _ _
    exact frame_resolve (frame_guards record last) False.elim fun _ _ _ hsource =>
      puts_guards hsource
  · exact fun hstale => puts_guards hstale.1

end SourceMacros
