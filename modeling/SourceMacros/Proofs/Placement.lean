-- Where operations put files. A file that is written through a temporary one takes the place that
-- its path names, and the temporary one is gone again, however that ends. The record of digests is
-- written to one file, in folders that are made for it.
import SourceMacros.Proofs.Ways
import SourceMacros.Session

namespace SourceMacros

namespace FileTree

variable {t t' : FileTree} {purpose : Purpose} {path : Path} {folder key : Key} {name : String}
  {found : Found} {content : ByteArray}

/-! ## Places -/

/-- The last piece of a path is a name, and those before it lead to a folder. -/
structure Enters (t : FileTree) (path : Path) (folder : Key) (name : String) : Prop where
  openable : Openable path
  named : Path.IsName name
  short : name.utf8ByteSize ≤ nameLimit
  way : ∃ init m, path.pieces = init ++ [name] ∧ t.Way linkLimit (t.base path) init m folder

theorem Enters.fileName (h : t.Enters path folder name) : path.fileName? = some name := by
  obtain ⟨init, m, hpieces, -⟩ := h.way
  exact Path.fileName?_of_pieces hpieces h.named

theorem Enters.spelled (h : t.Enters path folder name) : Spelled name :=
  ⟨h.named, (Path.isName_of_fileName? h.fileName).2⟩

theorem Enters.in_folder (h : t.Enters path folder name) (ht : t.Sound) :
    t.get? folder = some .folder := by
  obtain ⟨init, m, -, hway⟩ := h.way
  exact hway.folder ht (ht.base_folder path)

/-- A path whose last piece is a name leads nowhere unless it enters a folder. -/
theorem enters_of_find {init : List String} (hp : purpose ≠ .identify)
    (hpieces : path.pieces = init ++ [name]) (hname : Path.IsName name)
    (h : t.find path purpose = .ok found) : ∃ folder, t.Enters path folder name := by
  obtain ⟨hopenable, hfollow⟩ := find_eq_ok.mp h
  rw [hpieces] at hfollow
  obtain ⟨m, folder, hway⟩ := way_of_follow hp hname.ne_empty hfollow
  rw [hway.follow hp hname.ne_empty] at hfollow
  exact ⟨folder, hopenable, hname, (fits_of_follow hname hfollow).1, init, m, hpieces, hway⟩

/-- What stands at the place is found, unless that is a link to be followed. -/
theorem Enters.find (h : t.Enters path folder name) (hp : purpose ≠ .identify)
    (hlink : purpose = .inspect ∨ ∀ target, t.get? (folder ++ [name]) ≠ some (.link target)) :
    t.find path purpose = .ok
      (match t.get? (folder ++ [name]) with
        | some node => .node (folder ++ [name]) node
        | none => .missing (folder ++ [name])) := by
  obtain ⟨init, m, hpieces, hway⟩ := h.way
  rw [find_eq_ok, hpieces, hway.follow hp h.named.ne_empty,
    follow_cons_name hp h.named (fun _ => rfl) h.short]
  refine ⟨h.openable, ?_⟩
  cases hget : t.get? (folder ++ [name]) with
  | none => rfl
  | some node =>
    cases node with
    | file content => rfl
    | folder => exact follow_nil
    | link target =>
      rcases hlink with rfl | hlink
      · rfl
      · exact absurd hget (hlink target)

/-- A path names one place. -/
theorem Enters.unique {folder' : Key} {name' : String} (h : t.Enters path folder name)
    (h' : t.Enters path folder' name') : folder' = folder ∧ name' = name := by
  have hfind := h.find (by decide : Purpose.inspect ≠ .identify) (Or.inl rfl)
  rw [h'.find (by decide) (Or.inl rfl)] at hfind
  have hkey : folder' ++ [name'] = folder ++ [name] := by
    split at hfind
    · split at hfind
      · exact (Found.node.inj (Except.ok.inj hfind)).1
      · cases Except.ok.inj hfind
    · split at hfind
      · cases Except.ok.inj hfind
      · exact Found.missing.inj (Except.ok.inj hfind)
  have hparts := List.append_inj' hkey rfl
  exact ⟨hparts.1, (List.cons.inj hparts.2).1⟩

/-- A place stays while the tree evolves, or the way to it is closed. -/
theorem Enters.evolve (h : t.Enters path folder name) (ht : t.Unlinked) (hevolves : t.Evolves t') :
    t'.Enters path folder name ∨
      (∃ key target content, t.get? key = some (.link target) ∧
        t'.get? key = some (.file content)) ∧
      ∀ purpose, purpose ≠ .identify → ∃ cause, t'.find path purpose = .error cause := by
  obtain ⟨init, m, hpieces, hway⟩ := h.way
  have hbase : t'.base path = t.base path := by
    unfold base
    rw [hevolves.working]
  rcases hway.evolve ht hevolves with hway | ⟨hfile, hclosed⟩
  · exact Or.inl ⟨h.openable, h.named, h.short, init, m, hpieces, by rw [hbase]; exact hway⟩
  · refine Or.inr ⟨hfile, ?_⟩
    intro purpose hp
    obtain ⟨cause, hcause⟩ := hclosed purpose name hp h.named.ne_empty
    cases hfind : t'.find path purpose with
    | error cause => exact ⟨cause, rfl⟩
    | ok found =>
      have hfollow := (find_eq_ok.mp hfind).2
      rw [hbase, hpieces, hcause] at hfollow
      cases hfollow

/-- Where no file took the place of a link, every place stays. -/
theorem Enters.stay (h : t.Enters path folder name) (ht : t.Unlinked) (hevolves : t.Evolves t')
    (hlinks : ∀ key target, t.get? key = some (.link target) → t'.get? key = t.get? key) :
    t'.Enters path folder name := by
  rcases h.evolve ht hevolves with hstays | ⟨⟨key, target, content, hlink, hfile⟩, -⟩
  · exact hstays
  · rw [hlinks key target hlink, hlink] at hfile
    cases hfile

/-- A file that is written by the path comes to be at the key. -/
def Fills (t : FileTree) (path : Path) (key : Key) : Prop :=
  t.find path .fill = .ok (.missing key) ∨
    ∃ content, t.find path .fill = .ok (.node key (.file content))

theorem fills_of_write (h : t.write path content = .ok t') :
    ∃ key, t.Fills path key ∧ t' = t.set key (.file content) := by
  unfold write at h
  split at h
  · next key old hfind =>
    cases h
    exact ⟨key, Or.inr ⟨old, hfind⟩, rfl⟩
  · cases h
  · next key hfind =>
    cases h
    exact ⟨key, Or.inl hfind, rfl⟩
  · cases h

/-- A file is filled in a folder, where there is none already. -/
theorem Fills.housed (h : t.Fills path key) (ht : t.Sound) :
    t.get? key ≠ some .folder ∧ ∃ folder name, key = folder ++ [name] ∧
      t.get? folder = some .folder ∧ Spelled name := by
  rcases h with hfind | ⟨old, hfind⟩
  · obtain ⟨hnone, hhoused⟩ := ht.find_stands (by decide) hfind
    exact ⟨by simp [hnone], hhoused⟩
  · have hold : t.get? key = some (.file old) := ht.find_stands (by decide) hfind
    have hne : key ≠ [] := ne_root_of_get? (t := t) (by simp [hold])
    exact ⟨by simp [hold], key.dropLast, key.getLast hne, (List.dropLast_concat_getLast hne).symm,
      ht.folder_dropLast hold, ht.spelled_of_get? hold (List.getLast_mem hne)⟩

theorem Fills.not_link (h : t.Fills path key) (ht : t.Sound) (target : Path) :
    t.get? key ≠ some (.link target) := by
  rcases h with hfind | ⟨old, hfind⟩
  · have hnone := (ht.find_stands (by decide) hfind).1
    simp [hnone]
  · have hold : t.get? key = some (.file old) := ht.find_stands (by decide) hfind
    simp [hold]

theorem Fills.set (h : t.Fills path key) (ht : t.Sound) (content : ByteArray) :
    (t.set key (.file content)).Sound ∧ t.Evolves (t.set key (.file content)) := by
  obtain ⟨hold, folder, name, rfl, hfolder, hname⟩ := h.housed ht
  exact ⟨ht.set hfolder hname hold _, .set_file hold content⟩

/-- A path fills the place it names, where no link has that name. -/
theorem Fills.enters {init : List String} (h : t.Fills path key)
    (hpieces : path.pieces = init ++ [name]) (hname : Path.IsName name)
    (hlink : ∀ folder target, t.get? (folder ++ [name]) ≠ some (.link target)) :
    ∃ folder, key = folder ++ [name] ∧ t.Enters path folder name := by
  obtain ⟨found, hfind⟩ : ∃ found, t.find path .fill = .ok found := by
    rcases h with hfind | ⟨old, hfind⟩
    · exact ⟨_, hfind⟩
    · exact ⟨_, hfind⟩
  obtain ⟨folder, henters⟩ := enters_of_find (by decide) hpieces hname hfind
  refine ⟨folder, ?_, henters⟩
  have hplace : t.find path .fill = _ := henters.find (by decide) (Or.inr (hlink folder))
  rcases h with hfind | ⟨old, hfind⟩
  · rw [hfind] at hplace
    split at hplace
    · cases hplace
    · cases hplace
      rfl
  · rw [hfind] at hplace
    split at hplace
    · cases hplace
      rfl
    · cases hplace

/-- The temporary file beside a file is written to the place that its path names. -/
theorem Fills.enters_temporary {target : Path} (h : t.Fills target.temporary key)
    (ht : t.Unlinked) : ∃ folder,
      key = folder ++ [Path.temporaryName (target.fileName?.getD "")] ∧
      t.Enters target.temporary folder (Path.temporaryName (target.fileName?.getD "")) := by
  obtain ⟨init, hpieces⟩ := target.pieces_temporary
  exact h.enters hpieces (Path.isName_temporaryName _) fun folder target hlink =>
    ht _ target hlink ⟨_, List.getLast?_concat⟩

/-! ## Temporary files -/

theorem erase_set (key : Key) (node : Node) : (t.set key node).erase key = t.erase key := by
  have hself : key.isPrefixOf key = true := List.isPrefixOf_iff_prefix.mpr (List.prefix_refl key)
  unfold erase FileTree.set
  dsimp only
  rw [List.filter_cons_of_neg (by simp [hself]), List.filter_filter]
  congr 1
  apply List.filter_congr
  intro entry _
  by_cases hentry : entry.1 = key
  · simp [hentry, hself]
  · simp [hentry]

/-- A place that a path names stays when a temporary file comes or goes. -/
theorem Enters.of_temporary (h : t.Enters path folder name) (hkey : Fleeting key)
    (hunlinked : t.Unlinked) (hworking : t'.working = t.working)
    (hkeep : ∀ other, other ≠ key → t'.get? other = t.get? other)
    (hold : t.get? key ≠ some .folder) (hnew : t'.get? key ≠ some .folder)
    (hlink : ∀ target, t'.get? key ≠ some (.link target)) : t'.Enters path folder name := by
  refine h.stay hunlinked (.of_change hworking hkeep hold hlink (Or.inl hkey)) ?_
  intro other target hother
  apply hkeep
  rintro rfl
  exact hunlinked other target hother hkey

theorem temporaryName_ne (name : String) : Path.temporaryName name ≠ name := by
  intro heq
  have hlength := congrArg String.length heq
  have hdot : ".".length = 1 := rfl
  rw [Path.temporaryName, String.length_append, String.length_append, hdot] at hlength
  omega

/-- A temporary file that was written is found again where it was put. -/
theorem Fills.find_temporary {target : Path} (h : t.Fills target.temporary key) (ht : t.Sound)
    (hu : t.Unlinked) (content : ByteArray) :
    (t.set key (.file content)).find target.temporary .inspect =
      .ok (.node key (.file content)) := by
  obtain ⟨folder, hkey, henters⟩ := h.enters_temporary hu
  obtain ⟨hold, -⟩ := h.housed ht
  have hself := t.get?_set_self (.file content) (ne_root_of_get? hold)
  have hfleeting : Fleeting key := ⟨_, by rw [hkey]; exact List.getLast?_concat⟩
  have hstays : (t.set key (.file content)).Enters target.temporary folder _ :=
    henters.of_temporary hfleeting hu rfl (fun other hne => get?_set_of_ne _ _ (Ne.symm hne)) hold
      (by rw [hself]; simp) (by rw [hself]; simp)
  rw [hstays.find (by decide) (Or.inl rfl), ← hkey, hself]

/-- The last piece of a path that ends in a name, and in no slash. -/
theorem pieces_of_endsInName (hslash : path.endsInSlash = false) (hname : path.endsInName = true) :
    ∃ init name, path.pieces = init ++ [name] ∧ Path.IsName name := by
  have hne := Path.pieces_ne_nil path
  have hsplit := List.dropLast_concat_getLast hne
  refine ⟨path.pieces.dropLast, path.pieces.getLast hne, hsplit.symm, ?_⟩
  unfold Path.endsInName Path.dropSlashes at hname
  rw [← hsplit, List.reverse_append, List.reverse_singleton, List.singleton_append] at hname
  by_cases hlast : path.pieces.getLast hne = ""
  · rw [hlast] at hsplit
    have hinit := Path.getLast_of_not_endsInSlash hslash hsplit.symm
    rw [hinit, hlast] at hname
    cases hname
  · rw [List.dropWhile_cons_of_neg (by simpa using hlast), List.reverse_cons] at hname
    simp only [List.getLast?_concat, Bool.and_eq_true, bne_iff_ne] at hname
    exact Path.isName_iff.mpr ⟨hlast, hname⟩

/-- A temporary file that is moved leaves its place for the one that the path names. -/
theorem rename_temporary {target : Path} (h : t.Fills target.temporary key) (ht : t.Sound)
    (hu : t.Unlinked)
    (hrename : (t.set key (.file content)).rename target.temporary target = .ok t') :
    ∃ folder name, t.Enters target folder name ∧ t.get? (folder ++ [name]) ≠ some .folder ∧
      folder ++ [name] ≠ key ∧ t' = (t.erase key).set (folder ++ [name]) (.file content) := by
  unfold rename at hrename
  rw [h.find_temporary ht hu] at hrename
  cases hplace : (t.set key (.file content)).place target with
  | error cause =>
    rw [hplace] at hrename
    cases hrename
  | ok goal =>
    rw [hplace] at hrename
    dsimp only [bind, Except.bind] at hrename
    split at hrename
    · cases hrename
    next hends =>
    rw [Bool.not_eq_true', Bool.not_eq_false] at hends
    split at hrename
    · cases hrename
    next hslash =>
    rw [Bool.not_eq_true] at hslash
    obtain ⟨init, name, hpieces, hname⟩ := pieces_of_endsInName hslash hends
    rw [place_of_not_endsInSlash hslash] at hplace
    obtain ⟨folder, henters⟩ := enters_of_find (by decide) hpieces hname hplace
    rw [henters.find (by decide) (Or.inl rfl)] at hplace
    -- The temporary file lies beside the place, or in another folder, under another name.
    obtain ⟨beside, hkey, -⟩ := h.enters_temporary hu
    rw [henters.fileName, Option.getD_some] at hkey
    have hne : folder ++ [name] ≠ key := by
      rw [hkey]
      intro heq
      have hlast := List.append_inj_right' heq rfl
      exact temporaryName_ne name (List.cons.inj hlast).1.symm
    obtain ⟨hold, -⟩ := h.housed ht
    have hself := t.get?_set_self (.file content) (ne_root_of_get? hold)
    have hsame := t.get?_set_of_ne (.file content) (Ne.symm hne)
    have hfleeting : Fleeting key := ⟨name, by simp [hkey]⟩
    have henters₀ : t.Enters target folder name :=
      henters.of_temporary hfleeting ((Evolves.set_file hold content).unlinked hu) rfl
        (fun other hother => (get?_set_of_ne _ _ (Ne.symm hother)).symm) (by rw [hself]; simp)
        hold fun other hlink => hu _ _ hlink hfleeting
    refine ⟨folder, name, henters₀, ?_, hne, ?_⟩
    · intro hfolder
      rw [hsame, hfolder] at hplace
      cases hplace
      cases hrename
    · rw [hsame] at hplace
      rw [← erase_set key (.file content)]
      cases hget : t.get? (folder ++ [name]) with
      | none =>
        rw [hget] at hplace
        cases hplace
        cases hrename
        rfl
      | some node =>
        rw [hget] at hplace
        cases hplace
        cases node with
        | folder => cases hrename
        | file old =>
          dsimp only at hrename
          rw [if_neg hne] at hrename
          cases hrename
          rfl
        | link old =>
          dsimp only at hrename
          rw [if_neg hne] at hrename
          cases hrename
          rfl

end FileTree

/-! ## Writing through a temporary file -/

/-- The temporary file is written, and then it is moved, or taken away where it cannot be moved. -/
theorem writeThrough_eq {μ : Type} (s : Session μ) (target : Path) (text : String) :
    Run.writeThrough target text s =
      match s.tree.write target.temporary text.toUTF8 with
      | .error cause => .error (.io target.temporary cause) s
      | .ok tree =>
        match tree.rename target.temporary target with
        | .ok moved => .ok () { s with tree := moved }
        | .error cause =>
          .error (.io target cause)
            { s with tree := ((tree.removeFile target.temporary).toOption.getD tree) } := by
  have htemporary : target.withFileName ("." ++ target.fileName?.getD "" ++ ".tmp") =
      target.temporary := rfl
  unfold Run.writeThrough
  dsimp only
  rw [htemporary, bind_of_ok (get_apply s)]
  cases s.tree.write target.temporary text.toUTF8 with
  | error cause => rfl
  | ok tree =>
    have hwrite : (Run.ofIo target.temporary (.ok tree) : Run μ FileTree) s = .ok tree s := rfl
    have hset : (modify fun s => { s with tree } : Run μ PUnit) s = .ok ⟨⟩ { s with tree } := rfl
    rw [bind_of_ok hwrite, bind_of_ok hset]
    dsimp only
    cases tree.rename target.temporary target with
    | ok moved => rfl
    | error cause =>
      cases tree.removeFile target.temporary with
      | ok removed => rfl
      | error other => rfl

/-- A file is not written at all, or its temporary file is gone again, or it takes the place that
its path names. -/
theorem writeThrough_cases {μ : Type} {s : Session μ} (ht : s.tree.Sound) (hu : s.tree.Unlinked)
    (target : Path) (text : String) :
    (∃ e, Run.writeThrough target text s = .error e s) ∨
    (∃ e key, s.tree.Fills target.temporary key ∧
      Run.writeThrough target text s = .error e { s with tree := s.tree.erase key }) ∨
    ∃ key folder name, s.tree.Fills target.temporary key ∧ s.tree.Enters target folder name ∧
      s.tree.get? (folder ++ [name]) ≠ some .folder ∧ folder ++ [name] ≠ key ∧
      Run.writeThrough target text s = .ok ()
        { s with tree := (s.tree.erase key).set (folder ++ [name]) (.file text.toUTF8) } := by
  rw [writeThrough_eq]
  cases hwrite : s.tree.write target.temporary text.toUTF8 with
  | error cause => exact Or.inl ⟨_, rfl⟩
  | ok tree =>
    refine Or.inr ?_
    obtain ⟨key, hfills, rfl⟩ := FileTree.fills_of_write hwrite
    dsimp only
    cases hrename : (s.tree.set key (.file text.toUTF8)).rename target.temporary target with
    | ok moved =>
      obtain ⟨folder, name, henters, hgoal, hne, rfl⟩ :=
        FileTree.rename_temporary hfills ht hu hrename
      exact Or.inr ⟨key, folder, name, hfills, henters, hgoal, hne, rfl⟩
    | error cause =>
      have hremove : (s.tree.set key (.file text.toUTF8)).removeFile target.temporary =
          .ok (s.tree.erase key) := by
        unfold FileTree.removeFile
        rw [hfills.find_temporary ht hu, ← FileTree.erase_set key (.file text.toUTF8)]
        rfl
      refine Or.inl ⟨.io target cause, key, hfills, ?_⟩
      rw [hremove]
      rfl

/-! ## Saving the record -/

/-- A folder that a path lies in, by its spelling. -/
inductive Path.Above (path : Path) : Path → Prop
  | parent {above : Path} : path.parent? = some above → Path.Above path above
  | next {above higher : Path} : Path.Above path above → above.parent? = some higher →
      Path.Above path higher

namespace FileTree

variable {t : FileTree} {R : FileTree → FileTree → Prop}

theorem addFolder_relates {path : Path} (hrefl : ∀ t, R t t)
    (hfolder : ∀ t key, t.place path = .ok (.missing key) → R t (t.set key .folder)) :
    R t (final (addFolder path t)) := by
  unfold addFolder makeFolder
  cases hplace : t.place path with
  | error cause => exact hrefl t
  | ok found =>
    cases found with
    | node key node => exact hrefl t
    | missing key => exact hfolder t key hplace

theorem ensureFolder_relates {path : Path} (hrefl : ∀ t, R t t)
    (hfolder : ∀ t key, t.place path = .ok (.missing key) → R t (t.set key .folder)) :
    R t (final (ensureFolder path t)) := by
  have hadd := addFolder_relates (t := t) hrefl hfolder
  unfold ensureFolder
  split
  · next heq =>
    rw [heq] at hadd
    exact hadd
  · next heq =>
    rw [heq] at hadd
    split
    · exact hadd
    · exact hadd

/-- Making a folder with all the folders it lies in makes one missing folder after another. -/
theorem makeFoldersUpTo_relates {file path : Path} (hpath : file.Above path) (hrefl : ∀ t, R t t)
    (htrans : ∀ {t t₁ t₂}, R t t₁ → R t₁ t₂ → R t t₂)
    (hfolder : ∀ above t key, file.Above above → t.place above = .ok (.missing key) →
      R t (t.set key .folder)) (levels : Nat) :
    R t (final (makeFoldersUpTo levels path t)) := by
  induction levels generalizing path t with
  | zero => exact hrefl t
  | succ levels ih =>
    have hadd := addFolder_relates (t := t) hrefl fun t key => hfolder path t key hpath
    unfold makeFoldersUpTo
    split
    · exact hrefl t
    split
    · next t₁ heq =>
      rw [heq] at hadd
      split
      · exact hadd
      · next parent hparent =>
        have hup := ih (t := t₁) (hpath.next hparent)
        cases hrun : makeFoldersUpTo levels parent t₁ with
        | error cause t₂ =>
          rw [hrun] at hup
          rw [bind_of_error hrun]
          exact htrans hadd hup
        | ok _ t₂ =>
          rw [hrun] at hup
          rw [bind_of_ok hrun]
          exact htrans (htrans hadd hup)
            (ensureFolder_relates hrefl fun t key => hfolder path t key hpath)
    · next heq =>
      rw [heq] at hadd
      exact hadd
    · next heq =>
      rw [heq] at hadd
      split
      · exact hadd
      · exact hadd

end FileTree

/-- Saving a record makes missing folders above its file, and then writes the file. -/
theorem save_relates {R : FileTree → FileTree → Prop} {r : HashRecord} {t : FileTree}
    (hrefl : ∀ t, R t t) (htrans : ∀ {t t₁ t₂}, R t t₁ → R t₁ t₂ → R t t₂)
    (hfolder : ∀ path above t key, r.path = some path → path.Above above →
      t.place above = .ok (.missing key) → R t (t.set key .folder))
    (hfile : ∀ path t key content, r.path = some path → t.Fills path key →
      R t (t.set key (.file content))) : R t (final (r.save t)) := by
  unfold HashRecord.save
  split
  · exact hrefl t
  next path hpath =>
  split
  · exact hrefl t
  have hprepare : R t (final (HashRecord.prepareFolder path t)) := by
    unfold HashRecord.prepareFolder
    split
    · exact hrefl t
    next parent hparent =>
    split
    · exact hrefl t
    have hmade := FileTree.makeFoldersUpTo_relates (t := t) (.parent hparent) hrefl htrans
      (fun above t key => hfolder path above t key hpath) (parent.pieces.length + 1)
    unfold FileTree.makeFolders
    split
    · next heq =>
      rw [heq] at hmade
      exact hmade
    · next heq =>
      rw [heq] at hmade
      exact hmade
  split
  · next heq =>
    rw [heq] at hprepare
    exact hprepare
  · next t₁ heq =>
    rw [heq] at hprepare
    split
    · next hwrite =>
      obtain ⟨key, hfills, rfl⟩ := FileTree.fills_of_write hwrite
      exact htrans hprepare (hfile path t₁ key _ hpath hfills)
    · exact hprepare

theorem final_saveRecord {μ : Type} (s : Session μ) : ∃ dirty,
    final (Run.saveRecord s) =
      { s with record := { s.record with dirty }, tree := final (s.record.save s.tree) } := by
  unfold Run.saveRecord
  have hrecord : ∀ record t, s.record.save s.tree = .ok record t →
      ∃ dirty, record = { s.record with dirty } := by
    intro record t hsave
    unfold HashRecord.save at hsave
    split at hsave
    · cases hsave
      exact ⟨s.record.dirty, rfl⟩
    split at hsave
    · cases hsave
      exact ⟨s.record.dirty, rfl⟩
    split at hsave
    · cases hsave
    split at hsave
    · cases hsave
      exact ⟨false, rfl⟩
    · cases hsave
  cases hsave : s.record.save s.tree with
  | ok record t =>
    obtain ⟨dirty, rfl⟩ := hrecord record t hsave
    exact ⟨dirty, rfl⟩
  | error e t => exact ⟨s.record.dirty, rfl⟩

end SourceMacros
