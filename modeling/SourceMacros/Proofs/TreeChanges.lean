-- What the operations on a file tree do to its nodes. Whatever path an operation was given and
-- whatever links it followed, it comes down to a node that is set or taken away.
import SourceMacros.FileTree
import SourceMacros.Proofs.Outcome

namespace SourceMacros

namespace FileTree

variable {t t' : FileTree}

/-- What is still there after a node was taken away was there before. -/
theorem get?_of_get?_erase {key other : Key} {node : Node} (hne : other ≠ [])
    (h : (t.erase key).get? other = some node) : t.get? other = some node := by
  unfold get? erase at h
  rw [if_neg hne] at h
  obtain ⟨entry, hentry, rfl⟩ := Option.map_eq_some_iff.mp h
  rw [List.find?_filter] at hentry
  have hkept : key.isPrefixOf other = false := by
    have := List.find?_some hentry
    grind
  have hfind : t.nodes.find? (·.1 = other) = some entry := by
    rw [← hentry]
    apply congrArg (fun p => List.find? p t.nodes)
    funext other'
    by_cases hk : other'.1 = other
    · simp [hk, hkept]
    · simp [hk]
  unfold get?
  rw [if_neg hne, hfind]
  rfl

/-! ## Looking up -/

-- A folder is left out: the working folder counts as one even where the tree has none.
/-- What a lookup found is what the tree has there. -/
def Holds (t : FileTree) : Found → Prop
  | .node _ .folder => True
  | .node key (.file content) => key ≠ [] ∧ t.get? key = some (.file content)
  | .node key (.link target) => key ≠ [] ∧ t.get? key = some (.link target)
  | .missing key => key ≠ []

theorem descend_holds {purpose : Purpose} {jump : Key → List String → Except IoCause Found}
    (hjump : ∀ here pieces found, jump here pieces = .ok found → t.Holds found)
    {here : Key} {pieces : List String} {found : Found}
    (h : t.descend purpose jump here pieces = .ok found) : t.Holds found := by
  induction pieces generalizing here with
  | nil =>
    cases h
    trivial
  | cons piece rest ih =>
    unfold descend at h
    split at h
    · exact ih h
    split at h
    · exact ih h
    split at h
    · cases h
    split at h
    · cases h
    split at h
    · cases h
    dsimp only at h
    split at h
    · exact ih h
    · next content hget =>
      split at h
      · cases h
        exact ⟨by simp, hget⟩
      · cases h
    · next target hget =>
      split at h
      · cases h
        exact ⟨by simp, hget⟩
      · exact hjump _ _ _ h
    · split at h
      · cases h
        exact List.append_ne_nil_of_right_ne_nil _ (List.cons_ne_nil _ _)
      · cases h

theorem follow_holds {purpose : Purpose} {links : Nat} {here : Key} {pieces : List String}
    {found : Found} (h : t.follow purpose links here pieces = .ok found) : t.Holds found := by
  induction links generalizing here pieces found with
  | zero => exact descend_holds (by intro _ _ _ hj; cases hj) h
  | succ links ih => exact descend_holds (fun _ _ _ hj => ih hj) h

theorem lookup_holds {path : Path} {purpose : Purpose} {found : Found}
    (h : t.lookup path purpose = .ok found) : t.Holds found := by
  unfold lookup at h
  split at h
  · cases h
  split at h
  · cases h
  exact follow_holds h

theorem find_holds {path : Path} {purpose : Purpose} {found : Found}
    (h : t.find path purpose = .ok found) : t.Holds found := by
  unfold find at h
  split at h
  · cases h
  · exact lookup_holds h

theorem place_holds {path : Path} {found : Found} (h : t.place path = .ok found) :
    t.Holds found := by
  unfold place at h
  split at h
  · cases h
  · exact lookup_holds h

/-! ## Changes -/

theorem write_eq_ok {path : Path} {content : ByteArray} (h : t.write path content = .ok t') :
    ∃ key, key ≠ [] ∧ t' = t.set key (.file content) := by
  unfold write at h
  split at h
  · next key _ hfind =>
    cases h
    exact ⟨key, (find_holds hfind).1, rfl⟩
  · cases h
  · next key hfind =>
    cases h
    exact ⟨key, find_holds hfind, rfl⟩
  · cases h

theorem makeFolder_eq_ok {path : Path} (h : t.makeFolder path = .ok t') :
    ∃ key, t' = t.set key .folder := by
  unfold makeFolder at h
  split at h
  · next key _ =>
    cases h
    exact ⟨key, rfl⟩
  · cases h
  · cases h

theorem removeFile_eq_ok {path : Path} (h : t.removeFile path = .ok t') :
    ∃ key, t' = t.erase key := by
  unfold removeFile at h
  cases hfind : t.find path .inspect with
  | error cause =>
    rw [hfind] at h
    cases h
  | ok found =>
    rw [hfind] at h
    dsimp only [bind, Except.bind] at h
    split at h
    · cases h
    · cases h
    · cases h
      exact ⟨_, rfl⟩

/-- A file that is moved is found again where it was moved to. What else is moved is a link, or a
folder. -/
theorem rename_eq_ok {source target : Path} (h : t.rename source target = .ok t') :
    t' = t ∨ ∃ key goal node, goal ≠ [] ∧ t' = (t.erase key).set goal node ∧
      ∀ content, node = .file content → t.get? key = some (.file content) := by
  unfold rename at h
  cases hfind : t.find source .inspect with
  | error cause =>
    rw [hfind] at h
    cases h
  | ok found =>
    rw [hfind] at h
    cases hplace : t.place target with
    | error cause =>
      rw [hplace] at h
      cases h
    | ok goal =>
      rw [hplace] at h
      dsimp only [bind, Except.bind] at h
      split at h
      · cases h
      split at h
      · cases h
      · next key node =>
        have hnode : ∀ content, node = .file content → t.get? key = some (.file content) := by
          rintro content rfl
          exact (find_holds hfind).2
        split at h
        · cases h
        split at h
        · cases h
        · next goal other hother =>
          have hgoal : goal ≠ [] := by
            cases other with
            | folder => exact absurd rfl hother
            | file content => exact (place_holds hplace).1
            | link target => exact (place_holds hplace).1
          split at h
          · cases h
            exact Or.inl rfl
          · cases h
            exact Or.inr ⟨key, goal, node, hgoal, rfl, hnode⟩
        · next goal =>
          cases h
          exact Or.inr ⟨key, goal, node, place_holds hplace, rfl, hnode⟩

/-! ## Folders -/

/-- The tree with a folder at each of the keys. -/
def withFolders (t : FileTree) (keys : List Key) : FileTree :=
  keys.foldl (fun t key => t.set key .folder) t

theorem withFolders_append (keys more : List Key) :
    t.withFolders (keys ++ more) = (t.withFolders keys).withFolders more :=
  List.foldl_append

theorem addFolder_final (path : Path) (t : FileTree) :
    ∃ keys, final (addFolder path t) = t.withFolders keys := by
  unfold addFolder
  split
  · next h =>
    obtain ⟨key, rfl⟩ := makeFolder_eq_ok h
    exact ⟨[key], rfl⟩
  · exact ⟨[], rfl⟩

theorem ensureFolder_final (path : Path) (t : FileTree) :
    ∃ keys, final (ensureFolder path t) = t.withFolders keys := by
  obtain ⟨keys, h⟩ := addFolder_final path t
  unfold ensureFolder
  split
  · next hadd =>
    rw [hadd] at h
    exact ⟨keys, h⟩
  · next hadd =>
    rw [hadd] at h
    split
    · exact ⟨keys, h⟩
    · exact ⟨keys, h⟩

/-- Making a folder with all the folders it lies in only adds folders, also where it fails. -/
theorem makeFoldersUpTo_final (levels : Nat) (path : Path) (t : FileTree) :
    ∃ keys, final (makeFoldersUpTo levels path t) = t.withFolders keys := by
  induction levels generalizing path t with
  | zero => exact ⟨[], rfl⟩
  | succ levels ih =>
    obtain ⟨keys, hadd⟩ := addFolder_final path t
    unfold makeFoldersUpTo
    split
    · exact ⟨[], rfl⟩
    split
    · next heq =>
      rw [heq, final_error] at hadd
      subst hadd
      split
      · exact ⟨keys, rfl⟩
      · next parent _ =>
        obtain ⟨above, hup⟩ := ih parent (t.withFolders keys)
        cases hrun : makeFoldersUpTo levels parent (t.withFolders keys) with
        | error cause t₁ =>
          rw [hrun, final_error] at hup
          rw [bind_of_error hrun, final_error, hup, ← withFolders_append]
          exact ⟨_, rfl⟩
        | ok _ t₁ =>
          rw [hrun, final_ok] at hup
          obtain ⟨own, hown⟩ := ensureFolder_final path t₁
          rw [bind_of_ok hrun, hown, hup, ← withFolders_append, ← withFolders_append]
          exact ⟨_, rfl⟩
    · next heq =>
      rw [heq] at hadd
      exact ⟨keys, hadd⟩
    · next heq =>
      rw [heq] at hadd
      split
      · exact ⟨keys, hadd⟩
      · exact ⟨keys, hadd⟩

end FileTree

end SourceMacros
