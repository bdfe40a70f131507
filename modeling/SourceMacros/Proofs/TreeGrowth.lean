-- How a file tree grows. No operation moves the working folder, and every folder that comes to be
-- has a name that is not too long.
import SourceMacros.HashRecord
import SourceMacros.Proofs.TreeChanges

namespace SourceMacros

namespace FileTree

variable {t t' t'' : FileTree}

/-- The last name on the way to a node is not too long. -/
def Named (key : Key) : Prop := ∃ name, key.getLast? = some name ∧ name.utf8ByteSize ≤ nameLimit

/-- One tree may become another by operations. -/
structure Develops (t t' : FileTree) : Prop where
  working : t'.working = t.working
  folders : ∀ key, (key, Node.folder) ∈ t'.nodes → (key, Node.folder) ∈ t.nodes ∨ Named key

theorem Develops.refl (t : FileTree) : t.Develops t := ⟨rfl, fun _ h => Or.inl h⟩

theorem Develops.trans (h : t.Develops t') (h' : t'.Develops t'') : t.Develops t'' := by
  refine ⟨h'.working.trans h.working, ?_⟩
  intro key hkey
  rcases h'.folders key hkey with hkey | hnamed
  · exact h.folders key hkey
  · exact Or.inr hnamed

theorem develops_set {key : Key} {node : Node} (h : node = .folder → Named key) :
    t.Develops (t.set key node) := by
  refine ⟨rfl, ?_⟩
  intro other hother
  rcases List.mem_cons.mp hother with heq | hother
  · cases heq
    exact Or.inr (h rfl)
  · exact Or.inl (List.mem_filter.mp hother).1

theorem develops_erase (key : Key) : t.Develops (t.erase key) :=
  ⟨rfl, fun _ h => Or.inl (List.mem_filter.mp h).1⟩

/-! ## Names of places -/

/-- What a lookup found can be named, unless it is a folder. -/
def Fits : Found → Prop
  | .node _ .folder => True
  | .node key (.file _) => Named key
  | .node key (.link _) => Named key
  | .missing key => Named key

theorem descend_fits {purpose : Purpose} {jump : Key → List String → Except IoCause Found}
    (hjump : ∀ here pieces found, jump here pieces = .ok found → Fits found)
    {here : Key} {pieces : List String} {found : Found}
    (h : t.descend purpose jump here pieces = .ok found) : Fits found := by
  induction pieces generalizing here with
  | nil =>
    cases h
    trivial
  | cons piece rest ih =>
    unfold descend at h
    split at h
    · exact ih h
    split at h
    · exact ih h
    split at h
    · cases h
    split at h
    · cases h
    next hshort =>
    have hnamed : Named (here ++ [piece]) :=
      ⟨piece, List.getLast?_concat, Nat.le_of_not_lt hshort⟩
    split at h
    · cases h
    dsimp only at h
    split at h
    · exact ih h
    · split at h
      · cases h
        exact hnamed
      · cases h
    · split at h
      · cases h
        exact hnamed
      · exact hjump _ _ _ h
    · split at h
      · cases h
        exact hnamed
      · cases h

theorem follow_fits {purpose : Purpose} {links : Nat} {here : Key} {pieces : List String}
    {found : Found} (h : t.follow purpose links here pieces = .ok found) : Fits found := by
  induction links generalizing here pieces found with
  | zero => exact descend_fits (by intro _ _ _ hj; cases hj) h
  | succ links ih => exact descend_fits (fun _ _ _ hj => ih hj) h

theorem place_fits {path : Path} {found : Found} (h : t.place path = .ok found) : Fits found := by
  unfold place at h
  split at h
  · cases h
  · unfold lookup at h
    split at h
    · cases h
    split at h
    · cases h
    exact follow_fits h

/-! ## Operations -/

theorem write_develops {path : Path} {content : ByteArray} (h : t.write path content = .ok t') :
    t.Develops t' := by
  obtain ⟨key, _, rfl⟩ := write_eq_ok h
  exact develops_set (by simp)

theorem removeFile_develops {path : Path} (h : t.removeFile path = .ok t') : t.Develops t' := by
  obtain ⟨key, rfl⟩ := removeFile_eq_ok h
  exact develops_erase key

theorem rename_develops {source target : Path} (h : t.rename source target = .ok t') :
    t.Develops t' := by
  have hmoved : ∀ {key goal : Key} {node : Node}, Named goal →
      t.Develops ((t.erase key).set goal node) := fun hgoal =>
    (develops_erase _).trans (develops_set fun _ => hgoal)
  unfold rename at h
  cases hfind : t.find source .inspect with
  | error cause =>
    rw [hfind] at h
    cases h
  | ok found =>
    rw [hfind] at h
    cases hplace : t.place target with
    | error cause =>
      rw [hplace] at h
      cases h
    | ok goal =>
      rw [hplace] at h
      have hfits := place_fits hplace
      dsimp only [bind, Except.bind] at h
      split at h
      · cases h
      split at h
      · cases h
      split at h
      · cases h
      split at h
      · cases h
      · next goal other hother =>
        split at h
        · cases h
          exact .refl t
        · cases h
          cases other with
          | folder => exact absurd rfl hother
          | file content => exact hmoved hfits
          | link path => exact hmoved hfits
      · cases h
        exact hmoved hfits

theorem addFolder_develops (path : Path) (t : FileTree) :
    t.Develops (final (addFolder path t)) := by
  unfold addFolder makeFolder
  split
  · next h =>
    split at h
    · next hplace =>
      cases h
      exact develops_set fun _ => place_fits hplace
    · cases h
    · cases h
  · exact .refl t

theorem ensureFolder_develops (path : Path) (t : FileTree) :
    t.Develops (final (ensureFolder path t)) := by
  have hadd := addFolder_develops path t
  unfold ensureFolder
  split
  · next heq =>
    rw [heq] at hadd
    exact hadd
  · next heq =>
    rw [heq] at hadd
    split
    · exact hadd
    · exact hadd

theorem makeFoldersUpTo_develops (levels : Nat) (path : Path) (t : FileTree) :
    t.Develops (final (makeFoldersUpTo levels path t)) := by
  induction levels generalizing path t with
  | zero => exact .refl t
  | succ levels ih =>
    have hadd := addFolder_develops path t
    unfold makeFoldersUpTo
    split
    · exact .refl t
    split
    · next t₁ heq =>
      rw [heq] at hadd
      split
      · exact hadd
      · next parent _ =>
        have hup := ih parent t₁
        cases hrun : makeFoldersUpTo levels parent t₁ with
        | error cause t₂ =>
          rw [hrun] at hup
          rw [bind_of_error hrun]
          exact hadd.trans hup
        | ok _ t₂ =>
          rw [hrun] at hup
          rw [bind_of_ok hrun]
          exact (hadd.trans hup).trans (ensureFolder_develops path t₂)
    · next heq =>
      rw [heq] at hadd
      exact hadd
    · next heq =>
      rw [heq] at hadd
      split
      · exact hadd
      · exact hadd

end FileTree

/-! ## The record -/

theorem prepareFolder_develops (path : Path) (t : FileTree) :
    t.Develops (final (HashRecord.prepareFolder path t)) := by
  unfold HashRecord.prepareFolder
  split
  · exact .refl t
  · next parent _ =>
    have hfolders := FileTree.makeFoldersUpTo_develops (parent.pieces.length + 1) parent t
    split
    · exact .refl t
    · split
      · next heq =>
        unfold FileTree.makeFolders at heq
        rw [heq] at hfolders
        exact hfolders
      · next heq =>
        unfold FileTree.makeFolders at heq
        rw [heq] at hfolders
        exact hfolders

theorem save_develops (r : HashRecord) (t : FileTree) : t.Develops (final (r.save t)) := by
  unfold HashRecord.save
  split
  · exact .refl t
  · next path _ =>
    have hfolder := prepareFolder_develops path t
    split
    · exact .refl t
    · split
      · next heq =>
        rw [heq] at hfolder
        exact hfolder
      · next heq =>
        rw [heq] at hfolder
        split
        · next hwrite => exact hfolder.trans (FileTree.write_develops hwrite)
        · exact hfolder

end SourceMacros
