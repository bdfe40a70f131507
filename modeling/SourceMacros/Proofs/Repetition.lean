-- Repetition. A source that was bootstrapped is skipped the next time, by the session that did it and
-- by every later one over its record. Whatever the first call nests, it neither overwrites sources
-- nor what the record reads and writes, unless it puts an output in the place of a link that the
-- source or the record is reached by.
import SourceMacros.Proofs.FolderLaws
import SourceMacros.Proofs.GuardedRuns

namespace SourceMacros

variable {μ : Type} {s s₁ s' : Session μ} {record target : Path} {key : Key}

/-! ## Sources that are skipped -/

/-- The output of a source is there, and the record has the digest of its content. -/
structure UpToDate (s : Session μ) (path : Path) (content : ByteArray) (target : Path) : Prop where
  source : s.settings.isSource path = true
  reads : s.tree.read path = .ok content
  leads : s.settings.outputPath path = .ok target
  made : s.tree.isFile target = true
  recorded : s.record.isUnchanged s.tree path (Digest.ofContent content) = true

variable {path : Path} {content : ByteArray} {r : String → Run μ (Definition μ)}

/-- Nothing is done about such a source, and nobody is asked. -/
theorem UpToDate.skips (h : UpToDate s path content target)
    (r : String → Run μ (Definition μ)) : bootstrapFileVia r path s = .ok false s := by
  have hdigest : Run.digest path s = .ok (Digest.ofContent content) s := by
    rcases digest_cases path s with ⟨other, hread, hrun⟩ | ⟨e, hrun⟩
    · rw [h.reads] at hread
      cases hread
      exact hrun
    · unfold Run.digest at hrun
      rw [bind_of_ok (get_apply s), h.reads] at hrun
      cases hrun
  have houtput : Run.outputPath path s = .ok target s := by
    unfold Run.outputPath
    rw [bind_of_ok (get_apply s), h.leads]
    rfl
  unfold bootstrapFileVia
  rw [bind_of_ok (get_apply s), h.source]
  simp only [Bool.not_true, Bool.false_eq_true, if_false]
  rw [bind_of_ok hdigest, bind_of_ok houtput, bind_of_ok (get_apply s)]
  simp only [h.made, h.recorded, Bool.and_self, if_true]
  rfl

/-- A call that succeeds finds the source up to date, or translates it and notes its digest. -/
theorem bootstrapFile_eq_ok {b : Bool} (hsource : s.settings.isSource path = true)
    (h : bootstrapFileVia r path s = .ok b s') :
    (∃ content target, UpToDate s path content target) ∧ s' = s ∨
      ∃ content target s₀, s.tree.read path = .ok content ∧
        translateFileVia r path s = .ok target s₀ ∧
        s' = { s₀ with record := s₀.record.update s₀.tree path (Digest.ofContent content) } := by
  unfold bootstrapFileVia at h
  rw [bind_of_ok (get_apply s), hsource] at h
  simp only [Bool.not_true, Bool.false_eq_true, if_false] at h
  rcases digest_cases path s with ⟨content, hread, hdigest⟩ | ⟨e, hdigest⟩
  · rw [bind_of_ok hdigest] at h
    rcases outputPath_cases path s with ⟨target, htarget, houtput⟩ | ⟨e, houtput⟩
    · rw [bind_of_ok houtput, bind_of_ok (get_apply s)] at h
      split at h
      · next hskip =>
        cases h
        rw [Bool.and_eq_true] at hskip
        exact Or.inl ⟨⟨content, target, hsource, hread, htarget, hskip.1, hskip.2⟩, rfl⟩
      · obtain ⟨target', s₀, htranslate, h⟩ := bind_eq_ok.mp h
        cases h
        exact Or.inr ⟨content, target', s₀, hread, htranslate, rfl⟩
    · rw [bind_of_error houtput] at h
      cases h
  · rw [bind_of_error hdigest] at h
    cases h

theorem Digests.get?_insert_self (d : Digests) (key digest : String) :
    (d.insert key digest).get? key = some digest := by
  fun_induction Digests.insert d key digest with
  | case1 => simp [Digests.get?]
  | case2 => simp [Digests.get?]
  | case3 => simp [Digests.get?]
  | case4 k old rest _ hne ih => simpa [Digests.get?, Ne.symm hne] using ih

/-- The path of a file that is read names a place. -/
theorem FileTree.enters_of_read {t : FileTree} (h : t.read path = .ok content) :
    ∃ folder name, t.Enters path folder name := by
  obtain ⟨key, hfind⟩ := FileTree.find_of_read h
  obtain ⟨links, hreaches, -⟩ := FileTree.reaches_of_find hfind
  obtain ⟨init, name, hpieces, hname⟩ := hreaches.arrives.named
  obtain ⟨folder, henters⟩ := FileTree.enters_of_find (by decide) hpieces hname hfind
  exact ⟨folder, name, henters⟩

theorem FileTree.Enters.isFile {t : FileTree} {folder : Key} {name : String}
    (h : t.Enters path folder name) (hfile : t.get? (folder ++ [name]) = some (.file content)) :
    t.isFile path = true := by
  have hfind := h.find (by decide : Purpose.reach ≠ .identify) (Or.inr (by simp [hfile]))
  rw [hfile] at hfind
  unfold FileTree.isFile FileTree.node?
  rw [hfind]

/-- Where a source can be read after its translation, its output can be found beside it. -/
theorem made_of_translateFile (hs : s.Guarded) (hsource : s.settings.isSource path = true)
    (h : translateFile path s = .ok target s') (hread : s'.tree.read path = .ok content) :
    s.settings.outputPath path = .ok target ∧ s'.tree.isFile target = true := by
  obtain ⟨text, s₁, hexpand, htarget, hsame, hwrite⟩ := translateFile_eq_ok h
  have hpass : Guards path s.tree s s₁ := by
    have hpass : Guards path s.tree s (final (expandFile path s)) :=
      frame_pass (frame_guards _ _) False.elim fun _ _ _ hsource => puts_guards hsource
    rw [expandFile, hexpand] at hpass
    exact hpass
  have hs₁ := hpass.guarded hs
  obtain ⟨houtput, htemporary⟩ :=
    hs₁.sources path target (by rw [hpass.settings]; exact hsource) htarget hsame
  have hwritten := sameSources_writeThrough hs₁.sound hs₁.unlinked houtput htemporary text
  rw [hwrite] at hwritten
  rw [hpass.settings] at htarget
  refine ⟨htarget, ?_⟩
  rcases writeThrough_cases hs₁.sound hs₁.unlinked target text with
    ⟨e, hrun⟩ | ⟨e, other, -, hrun⟩ | ⟨other, folder, on, -, henters, -, -, hrun⟩
  · rw [hrun] at hwrite
    cases hwrite
  · rw [hrun] at hwrite
    cases hwrite
  · have hheld : s'.tree.get? (folder ++ [on]) = some (.file text.toUTF8) := by
      rw [hrun] at hwrite
      cases hwrite
      exact FileTree.get?_set_self _ _ (by simp)
    obtain ⟨folder', name, hfile⟩ := FileTree.enters_of_read hread
    have hbeside := hfile.output hsource htarget henters.openable henters.fileName henters.named
      henters.short
    rcases henters.evolve hs₁.unlinked hwritten.evolves with hstays | ⟨-, hclosed⟩
    · exact hstays.isFile hheld
    · obtain ⟨cause, hcause⟩ := hclosed .inspect (by decide)
      rw [final_ok, hbeside.find (by decide) (Or.inl rfl)] at hcause
      cases hcause

/-- A call leaves the source up to date, unless it disturbs the way to it. -/
theorem upToDate_of_bootstrapFile {b : Bool} (hs : s.Guarded)
    (hsource : s.settings.isSource path = true) (h : bootstrapFile path s = .ok b s₁)
    (hway : FileTree.Undisturbed s.settings path s.tree s₁.tree) :
    ∃ content target, UpToDate s₁ path content target := by
  have hguards : Guards path s.tree s (final (bootstrapFile path s)) := guards_bootstrapFile path s
  rw [h] at hguards
  rcases bootstrapFile_eq_ok hsource h with
    ⟨huptodate, rfl⟩ | ⟨content, target, s₀, hread, htranslate, rfl⟩
  · exact huptodate
  obtain ⟨key, hfind⟩ := FileTree.find_of_read hread
  obtain ⟨links, hreaches, hfile⟩ := FileTree.reaches_of_find hfind
  obtain ⟨hreaches₁, hfile₁, -⟩ :=
    hreaches.undisturbed hfile hs.unlinked (hguards.sources hs) hway
  have hread₁ := hreaches₁.read hfile₁
  obtain ⟨htarget, hmade⟩ := made_of_translateFile hs hsource htranslate hread₁
  have hsettings := hguards.settings
  rw [final_ok] at hsettings
  refine ⟨content, target, by rw [hsettings]; exact hsource, hread₁,
    by rw [hsettings]; exact htarget, hmade, ?_⟩
  simp [HashRecord.isUnchanged, HashRecord.get?, HashRecord.update, Digests.get?_insert_self]

theorem UpToDate.save (h : UpToDate s path content target) (hs : s.Guarded)
    (hsave : Run.saveRecord s = .ok () s')
    (hway : FileTree.Undisturbed s.settings path s.tree s'.tree) :
    UpToDate s' path content target := by
  obtain ⟨dirty, hfinal⟩ := final_saveRecord s
  have hguards : Guards path s.tree s (final (Run.saveRecord s)) := guards_saveRecord s
  have hpreserves : FileTree.Preserves s.tree (final (s.record.save s.tree)) :=
    FileTree.preserves_save hs.sound
  rw [hsave, final_ok] at hfinal hguards
  have hevolves := (hguards.sources hs).evolves
  obtain ⟨key, hfind⟩ := FileTree.find_of_read h.reads
  obtain ⟨links, hreaches, hfile⟩ := FileTree.reaches_of_find hfind
  obtain ⟨hreaches', hfile', hcanonical⟩ :=
    hreaches.undisturbed hfile hs.unlinked (hguards.sources hs) hway
  have hdigests : s'.record.digests = s.record.digests := by rw [hfinal]
  refine ⟨by rw [hguards.settings]; exact h.source, hreaches'.read hfile',
    by rw [hguards.settings]; exact h.leads, ?_, ?_⟩
  · rw [hfinal] at hevolves ⊢
    exact hpreserves.isFile hevolves h.made
  · have hrecorded := h.recorded
    unfold HashRecord.isUnchanged HashRecord.get? HashRecord.key at hrecorded ⊢
    rw [hdigests, hcanonical]
    exact hrecorded

/-- A record that was kept and then saved is loaded again. -/
theorem load_of_saveRecord (hkept : HashRecord.Kept record s.record s.tree)
    (hsave : Run.saveRecord s = .ok () s') : HashRecord.load s'.tree record = s'.record := by
  unfold Run.saveRecord at hsave
  cases hrun : s.record.save s.tree with
  | ok r t =>
    rw [hrun] at hsave
    cases hsave
    exact (hkept.faithful.save hrun).2.2
  | error e t =>
    rw [hrun] at hsave
    cases hsave

/-- A new session under the same settings, which loads the same record, finds the same. -/
theorem UpToDate.start (h : UpToDate s path content target)
    (hrecord : s.settings.hashRecord = some record)
    (hload : HashRecord.load s.tree record = s.record) (registry : Registry μ) (interrupted : Bool)
    (memory : μ) :
    UpToDate (.start s.settings registry s.tree interrupted memory) path content target := by
  refine ⟨h.source, h.reads, h.leads, h.made, ?_⟩
  simp only [Session.start, hrecord, hload]
  exact h.recorded

/-! ## Names -/

namespace FileTree

variable {t t' : FileTree} {settings : Settings} {name : String}

/-- A way without links ends in the place that its path names. -/
theorem Arrives.direct {n : Nat} {here : Key} {ps : List String}
    (h : t.Arrives n here ps [] key) : ∃ init name m folder, ps = init ++ [name] ∧
      Path.IsName name ∧ name.utf8ByteSize ≤ nameLimit ∧ t.Way n here init m folder ∧
      key = folder ++ [name] := by
  generalize hlinks : ([] : List Key) = links at h
  induction h with
  | @last n here name hname hshort => exact ⟨[], name, n, here, rfl, hname, hshort, .here _ _, rfl⟩
  | idle hidle _ ih =>
    obtain ⟨init, name, m, folder, rfl, hname, hshort, hway, hkey⟩ := ih hlinks
    exact ⟨_ :: init, name, m, folder, rfl, hname, hshort, .idle hidle hway, hkey⟩
  | up _ ih =>
    obtain ⟨init, name, m, folder, rfl, hname, hshort, hway, hkey⟩ := ih hlinks
    exact ⟨_ :: init, name, m, folder, rfl, hname, hshort, .up hway, hkey⟩
  | down hpiece hfits hget _ ih =>
    obtain ⟨init, name, m, folder, rfl, hname, hshort, hway, hkey⟩ := ih hlinks
    exact ⟨_ :: init, name, m, folder, rfl, hname, hshort, .down hpiece hfits hget hway, hkey⟩
  | through => cases hlinks

/-- Without links nothing disturbs the way of a source. -/
theorem Linkless.undisturbed (ht : t.Linkless) (hsource : settings.isSource path = true)
    (t' : FileTree) : Undisturbed settings path t t' := by
  intro links key hreaches place hplace hnot
  have hlinks : links = [] := by
    rw [List.eq_nil_iff_forall_not_mem]
    intro link hlink
    obtain ⟨target, htarget⟩ := hreaches.arrives.link hlink
    exact ht link target htarget
  subst hlinks
  obtain ⟨init, name, m, folder, hpieces, hname, hshort, hway, rfl⟩ := hreaches.arrives.direct
  have henters : t.Enters path folder name :=
    ⟨hreaches.openable, hname, hshort, init, m, hpieces, hway⟩
  rw [List.mem_singleton.mp hplace, henters.isSourceAt] at hnot
  exact absurd hsource hnot

/-- A path whose name no link has fills the place that it names. -/
theorem enters_of_comesToFill (hname : path.fileName? = some name)
    (hlinks : ∀ folder target, t.get? (folder ++ [name]) ≠ some (.link target))
    (h : t.ComesToFill path key) :
    ∃ (t' : FileTree) (folder : Key), key = folder ++ [name] ∧ t'.Enters path folder name := by
  obtain ⟨t', hevolves, hfills⟩ := h
  obtain ⟨links, hreaches, -⟩ := hfills.reaches
  obtain ⟨init, other, hpieces, hother⟩ := hreaches.arrives.named
  rw [Path.fileName?_of_pieces hpieces hother] at hname
  cases hname
  obtain ⟨folder, hkey, henters⟩ := hfills.enters hpieces hother fun folder target hlink =>
    hlinks folder target (hevolves.links _ target hlink)
  exact ⟨t', folder, hkey, henters⟩

end FileTree

/-- A file is left alone by its extension, if that is one of neither sources nor outputs nor
temporary files. -/
theorem Session.alone_of_extension {extension : String} {folder : Key} {name : String}
    {t : FileTree} (henters : t.Enters path folder name) (hpath : path.extension? = some extension)
    (hne : s.settings.outputExtension ≠ "") (hpoint : '.' ∉ s.settings.outputExtension.toList)
    (hsource : extension ≠ s.settings.sourceExtension)
    (houtput : extension ≠ s.settings.outputExtension) (htemporary : extension ≠ "tmp") :
    s.Alone (folder ++ [name]) := by
  refine ⟨?_, ?_, ?_⟩
  · rw [henters.isSourceAt]
    simpa [Settings.isSource, hpath] using hsource
  · intro source node _ _ _ hkey
    obtain ⟨target, name', htarget, hname', heq⟩ := Settings.outputKey?_eq_some.mp hkey
    obtain ⟨-, hnames⟩ := List.append_inj' heq rfl
    obtain ⟨hslash, rfl⟩ := Settings.outputPath_eq_ok.mp htarget
    unfold Path.extension? at hpath
    rw [henters.fileName, (List.cons.inj hnames).1, ← hname'] at hpath
    rcases Path.extension?_putExtension (FileTree.keyPath source).dropExtension hne hpoint hslash with
      hnone | hsome
    · exact absurd (hnone.symm.trans hpath) (by simp)
    · exact houtput (Option.some.inj (hpath.symm.trans hsome))
  · intro other target _ _ hname
    have hother := target.extension?_temporary
    unfold Path.extension? at hother hpath
    rw [← hname, List.getLast?_concat, ← henters.fileName, hpath] at hother
    exact htemporary (Option.some.inj hother)

/-- Under default settings a new session is guarded by the names of its links and its record. -/
theorem Session.guarded_start {name : String} {tree : FileTree} (registry : Registry μ)
    (interrupted : Bool) (memory : μ) (hsound : tree.Sound) (hname : record.fileName? = some name)
    (hextension : record.extension? = some "json")
    (hlinks : ∀ entry ∈ tree.nodes, ∀ target, entry.2 = .link target →
      ∀ other ∈ entry.1.getLast?, other.toList.head? ≠ some '.' ∧ other ≠ name) :
    (start { hashRecord := some record } registry tree interrupted memory).Guarded ∧
      HashRecord.Kept record
        (start { hashRecord := some record } registry tree interrupted memory).record tree := by
  have hpy : "py" ≠ "" ∧ '.' ∉ "py".toList ∧ "py" ≠ "mpy" ∧ "mpy" ≠ "tmp" := by decide
  have hjson : "json" ≠ "mpy" ∧ "json" ≠ "py" ∧ "json" ≠ "tmp" := by decide
  refine ⟨⟨hsound, ?_, ?_, ?_⟩, .loaded tree⟩
  · exact FileTree.unlinked_of_names fun entry hentry target hlink other hother =>
      (hlinks entry hentry target hlink other hother).1
  · exact Settings.keepsSources_of_plain _ hpy.1 hpy.2.1 hpy.2.2.1 hpy.2.2.2
  · intro path key hpath hfills
    cases hpath
    have hfree : ∀ folder target, tree.get? (folder ++ [name]) ≠ some (.link target) := by
      intro folder target hlink
      have hentry := FileTree.mem_nodes_of_get? (by simp) hlink
      exact (hlinks _ hentry target rfl name List.getLast?_concat).2 rfl
    obtain ⟨t, folder, rfl, henters⟩ := FileTree.enters_of_comesToFill hname hfree hfills
    exact Session.alone_of_extension henters hextension hpy.1 hpy.2.1 hjson.1 hjson.2.1 hjson.2.2

/-! ## The law -/

/-- A source that was bootstrapped is skipped from then on, once the record is saved: by the same
session, and by every new one under the same settings, if the record still leads to its file.
Nothing changes then, and nobody is asked. The call and the save must leave the way to the source
as it was. -/
theorem a_bootstrapped_source_is_skipped {b : Bool} {s₂ : Session μ} (hs : s.Guarded)
    (hrecord : s.settings.hashRecord = some record)
    (hkept : HashRecord.Kept record s.record s.tree) (hsource : s.settings.isSource path = true)
    (hcall : bootstrapFile path s = .ok b s₁) (hsave : Run.saveRecord s₁ = .ok () s₂)
    (hway₁ : FileTree.Undisturbed s.settings path s.tree s₁.tree)
    (hway₂ : FileTree.Undisturbed s.settings path s₁.tree s₂.tree) :
    (∀ r, bootstrapFileVia r path s₂ = .ok false s₂) ∧
      (s₂.tree.isFile record = true → ∀ r (registry : Registry μ) interrupted memory,
        bootstrapFileVia r path (.start s.settings registry s₂.tree interrupted memory) =
          .ok false (.start s.settings registry s₂.tree interrupted memory)) := by
  obtain ⟨content, target, huptodate⟩ := upToDate_of_bootstrapFile hs hsource hcall hway₁
  have hguards : Guards record s₂.tree s (final (bootstrapFile path s)) :=
    guards_bootstrapFile path s
  rw [hcall, final_ok] at hguards
  have hs₁ := hguards.guarded hs
  rw [← hguards.settings] at hway₂
  have huptodate := huptodate.save hs₁ hsave hway₂
  refine ⟨huptodate.skips, ?_⟩
  intro hfile r registry interrupted memory
  have hsaves : Guards record s₂.tree s₁ (final (Run.saveRecord s₁)) := guards_saveRecord s₁
  rw [hsave, final_ok] at hsaves
  have hends : EndsIn record s₂.tree s₁ :=
    ⟨(hsaves.sources hs₁).evolves, hsaves.links hs₁, hfile⟩
  have hload := load_of_saveRecord (hguards.kept hs hends hkept) hsave
  have hsettings := hsaves.settings.trans hguards.settings
  rw [← hsettings] at hrecord ⊢
  exact (huptodate.start hrecord hload registry interrupted memory).skips r

/-- A call and a save that succeed, by what they return. -/
theorem saved_of_values {b : Bool} (hcall : value? (bootstrapFile path s) = some b)
    (hsave : value? (Run.saveRecord (final (bootstrapFile path s))) = some ()) :
    ∃ s₁ s₂, bootstrapFile path s = .ok b s₁ ∧ Run.saveRecord s₁ = .ok () s₂ ∧
      final (Run.saveRecord (final (bootstrapFile path s))) = s₂ := by
  obtain ⟨s₁, hcall⟩ := value?_eq_some.mp hcall
  rw [hcall, final_ok] at hsave
  obtain ⟨s₂, hsave⟩ := value?_eq_some.mp hsave
  exact ⟨s₁, s₂, hcall, hsave, by rw [hcall, final_ok, hsave, final_ok]⟩

theorem nestedSession_guarded : nestedSession.Guarded ∧
    HashRecord.Kept ⟨"digests.json"⟩ nestedSession.record nestedSession.tree := by
  unfold nestedSession
  refine Session.guarded_start _ _ _ (by decide) digestsPath.1 digestsPath.2 ?_
  simp

/-- The pass over the source bootstraps a package and saves the record on the way. -/
theorem the_nested_source_is_skipped :
    nestedSession.Guarded ∧ nestedSession.settings.hashRecord = some ⟨"digests.json"⟩ ∧
      HashRecord.Kept ⟨"digests.json"⟩ nestedSession.record nestedSession.tree ∧
      ∃ s₁ s₂, bootstrapFile ⟨"a.mpy"⟩ nestedSession = .ok true s₁ ∧
        Run.saveRecord s₁ = .ok () s₂ ∧ bootstrapFile ⟨"a.mpy"⟩ s₂ = .ok false s₂ ∧
        bootstrapFile ⟨"a.mpy"⟩ (.start nestedSession.settings .standard s₂.tree false ()) =
          .ok false (.start nestedSession.settings .standard s₂.tree false ()) := by
  obtain ⟨hs, hkept⟩ := nestedSession_guarded
  have hlinks := nestedSession_linkless
  have hfacts : nestedSession.settings.hashRecord = some ⟨"digests.json"⟩ ∧
      nestedSession.settings.isSource ⟨"a.mpy"⟩ = true ∧
      value? (bootstrapFile ⟨"a.mpy"⟩ nestedSession) = some true ∧
      value? (Run.saveRecord (final (bootstrapFile ⟨"a.mpy"⟩ nestedSession))) = some () ∧
      (final (Run.saveRecord (final (bootstrapFile ⟨"a.mpy"⟩ nestedSession)))).tree.isFile
        ⟨"digests.json"⟩ = true := by
    decide +kernel
  obtain ⟨hrecord, hsource, hcall, hsave, hfile⟩ := hfacts
  obtain ⟨s₁, s₂, hcall, hsave, hfinal⟩ := saved_of_values hcall hsave
  rw [hfinal] at hfile
  have hguards : Guards ⟨"digests.json"⟩ s₂.tree nestedSession
      (final (bootstrapFile ⟨"a.mpy"⟩ nestedSession)) := guards_bootstrapFile _ _
  rw [hcall, final_ok] at hguards
  obtain ⟨hsame, hnew⟩ := a_bootstrapped_source_is_skipped hs hrecord hkept hsource hcall hsave
    (hlinks.undisturbed hsource s₁.tree)
    ((hlinks.evolve (hguards.sources hs).evolves).undisturbed hsource s₂.tree)
  exact ⟨hs, hrecord, hkept, s₁, s₂, hcall, hsave, hsame resolve,
    hnew hfile resolve .standard false ()⟩

/-- A session over a source that is a link to its own output. -/
@[irreducible]
def maskedSession : Session Unit :=
  .start { hashRecord := some ⟨"digests.json"⟩ } .standard
    ⟨[(["a.py"], .file "macro import hello\n".toUTF8), (["a.mpy"], .link ⟨"a.py"⟩)], []⟩ false ()

/-- A session over a source beside a link that has the name of its output. -/
@[irreducible]
def barredSession : Session Unit :=
  .start { hashRecord := some ⟨"digests.json"⟩ } .standard
    ⟨[(["d.mpy"], .file "x = 1\n".toUTF8), (["y"], .folder), (["d.py"], .link ⟨"y"⟩)], []⟩ false ()

/-- The same, but the record is reached by the link, and has the digest of the source. -/
@[irreducible]
def strayedSession : Session Unit :=
  let noted : Digests := [("/d.mpy", Digest.ofContent "x = 1\n".toUTF8)]
  .start { hashRecord := some ⟨"d.py/../digests.json"⟩ } .standard
    ⟨[(["d.mpy"], .file "x = 1\n".toUTF8), (["y"], .folder), (["d.py"], .link ⟨"y"⟩),
      (["digests.json"], .file noted.render.toUTF8)], []⟩ false ()

theorem maskedSession_guarded : maskedSession.Guarded ∧
    HashRecord.Kept ⟨"digests.json"⟩ maskedSession.record maskedSession.tree := by
  unfold maskedSession
  refine Session.guarded_start _ _ _ (by decide) digestsPath.1 digestsPath.2 ?_
  simp

theorem barredSession_guarded : barredSession.Guarded ∧
    HashRecord.Kept ⟨"digests.json"⟩ barredSession.record barredSession.tree := by
  unfold barredSession
  refine Session.guarded_start _ _ _ (by decide) digestsPath.1 digestsPath.2 ?_
  simp

theorem strayedSession_guarded : strayedSession.Guarded ∧
    HashRecord.Kept ⟨"d.py/../digests.json"⟩ strayedSession.record strayedSession.tree := by
  unfold strayedSession
  refine Session.guarded_start _ _ _ (by decide) (by decide : _ = some "digests.json")
    (by decide) ?_
  simp

/-- A source is bootstrapped again where its output took the place of the file it was read from, and
cannot be read where the output took that of a link on its way. Where the output took the place of
a link on the way of the record, a new session bootstraps the source again. -/
theorem bootstrapped_sources_get_bootstrapped_again :
    (maskedSession.Guarded ∧
      HashRecord.Kept ⟨"digests.json"⟩ maskedSession.record maskedSession.tree ∧
      ∃ s₁ s₂ s₃, bootstrapFile ⟨"a.mpy"⟩ maskedSession = .ok true s₁ ∧
        Run.saveRecord s₁ = .ok () s₂ ∧ bootstrapFile ⟨"a.mpy"⟩ s₂ = .ok true s₃) ∧
    (barredSession.Guarded ∧
      HashRecord.Kept ⟨"digests.json"⟩ barredSession.record barredSession.tree ∧
      ∃ s₁ s₂ e s₃, bootstrapFile ⟨"d.py/../d.mpy"⟩ barredSession = .ok true s₁ ∧
        Run.saveRecord s₁ = .ok () s₂ ∧ bootstrapFile ⟨"d.py/../d.mpy"⟩ s₂ = .error e s₃) ∧
    strayedSession.Guarded ∧
      HashRecord.Kept ⟨"d.py/../digests.json"⟩ strayedSession.record strayedSession.tree ∧
      ∃ s₁ s₂ s₃, bootstrapFile ⟨"d.mpy"⟩ strayedSession = .ok true s₁ ∧
        Run.saveRecord s₁ = .ok () s₂ ∧
        bootstrapFile ⟨"d.mpy"⟩ (.start strayedSession.settings .standard s₂.tree false ()) =
          .ok true s₃ := by
  refine ⟨⟨maskedSession_guarded.1, maskedSession_guarded.2, ?_⟩,
    ⟨barredSession_guarded.1, barredSession_guarded.2, ?_⟩,
    strayedSession_guarded.1, strayedSession_guarded.2, ?_⟩
  · have hfacts : value? (bootstrapFile ⟨"a.mpy"⟩ maskedSession) = some true ∧
        value? (Run.saveRecord (final (bootstrapFile ⟨"a.mpy"⟩ maskedSession))) = some () ∧
        value? (bootstrapFile ⟨"a.mpy"⟩
          (final (Run.saveRecord (final (bootstrapFile ⟨"a.mpy"⟩ maskedSession))))) =
            some true := by
      decide +kernel
    obtain ⟨hcall, hsave, hagain⟩ := hfacts
    obtain ⟨s₁, s₂, hcall, hsave, hfinal⟩ := saved_of_values hcall hsave
    rw [hfinal] at hagain
    obtain ⟨s₃, hagain⟩ := value?_eq_some.mp hagain
    exact ⟨s₁, s₂, s₃, hcall, hsave, hagain⟩
  · have hfacts : value? (bootstrapFile ⟨"d.py/../d.mpy"⟩ barredSession) = some true ∧
        value? (Run.saveRecord (final (bootstrapFile ⟨"d.py/../d.mpy"⟩ barredSession))) =
          some () ∧
        (value? (bootstrapFile ⟨"d.py/../d.mpy"⟩ (final (Run.saveRecord
          (final (bootstrapFile ⟨"d.py/../d.mpy"⟩ barredSession)))))).isNone = true := by
      decide +kernel
    obtain ⟨hcall, hsave, hagain⟩ := hfacts
    obtain ⟨s₁, s₂, hcall, hsave, hfinal⟩ := saved_of_values hcall hsave
    rw [hfinal] at hagain
    cases hrun : bootstrapFile ⟨"d.py/../d.mpy"⟩ s₂ with
    | ok b s₃ =>
      rw [hrun] at hagain
      cases hagain
    | error e s₃ => exact ⟨s₁, s₂, e, s₃, hcall, hsave, hrun⟩
  · have hfacts : value? (bootstrapFile ⟨"d.mpy"⟩ strayedSession) = some true ∧
        value? (Run.saveRecord (final (bootstrapFile ⟨"d.mpy"⟩ strayedSession))) = some () ∧
        value? (bootstrapFile ⟨"d.mpy"⟩ (.start strayedSession.settings .standard
          (final (Run.saveRecord (final (bootstrapFile ⟨"d.mpy"⟩ strayedSession)))).tree
          false ())) = some true := by
      decide +kernel
    obtain ⟨hcall, hsave, hagain⟩ := hfacts
    obtain ⟨s₁, s₂, hcall, hsave, hfinal⟩ := saved_of_values hcall hsave
    rw [hfinal] at hagain
    obtain ⟨s₃, hagain⟩ := value?_eq_some.mp hagain
    exact ⟨s₁, s₂, s₃, hcall, hsave, hagain⟩

end SourceMacros
