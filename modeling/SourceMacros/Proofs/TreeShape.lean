-- The shape of file trees. In a sound tree every node has a name that a path can spell and lies in
-- a folder, so a file has nothing below it and can be taken away alone. A tree evolves when its
-- folders stay and links give way to files only.
import Mathlib.Data.List.Induction
import SourceMacros.Proofs.PathNames
import SourceMacros.Proofs.TreeChanges

namespace SourceMacros

namespace FileTree

variable {t t' t'' : FileTree} {key other : Key} {node : Node} {name : String}

/-! ## Sound trees -/

/-- A name that a path can spell, so that a lookup finds it. -/
def Spelled (name : String) : Prop := Path.IsName name ∧ '/' ∉ name.toList

instance (name : String) : Decidable (Spelled name) :=
  inferInstanceAs (Decidable (Path.IsName name ∧ '/' ∉ name.toList))

structure Sound (t : FileTree) : Prop where
  distinct : (t.nodes.map Prod.fst).Nodup
  /-- The root is left out of the nodes. -/
  below_root : ∀ entry ∈ t.nodes, entry.1 ≠ []
  spelled : ∀ entry ∈ t.nodes, ∀ name ∈ entry.1, Spelled name
  housed : ∀ entry ∈ t.nodes, t.get? entry.1.dropLast = some .folder
  working : t.get? t.working = some .folder

@[simp]
theorem get?_root (t : FileTree) : t.get? [] = some .folder := rfl

theorem mem_nodes_of_get? (hne : key ≠ []) (h : t.get? key = some node) : (key, node) ∈ t.nodes := by
  unfold get? at h
  rw [if_neg hne] at h
  obtain ⟨entry, hentry, rfl⟩ := Option.map_eq_some_iff.mp h
  have hkey : entry.1 = key := by simpa using List.find?_some hentry
  rw [← hkey]
  exact List.mem_of_find?_eq_some hentry

theorem Sound.get?_of_mem (h : t.Sound) (hmem : (key, node) ∈ t.nodes) :
    t.get? key = some node := by
  unfold get?
  rw [if_neg (h.below_root _ hmem)]
  have hfind : t.nodes.find? (·.1 = key) = some (key, node) := by
    rw [List.find?_eq_some_iff_append]
    obtain ⟨before, after, hsplit⟩ := List.append_of_mem hmem
    refine ⟨by simp, before, after, hsplit, ?_⟩
    intro entry hentry
    have hdistinct := h.distinct
    rw [hsplit, List.map_append, List.map_cons, List.nodup_append] at hdistinct
    have hne := hdistinct.2.2 entry.1 (List.mem_map_of_mem hentry) key (by simp)
    simpa using hne
  rw [hfind]
  rfl

/-- A node lies in a folder. -/
theorem Sound.parent (h : t.Sound) (hget : t.get? (key ++ [name]) = some node) :
    t.get? key = some .folder := by
  have hmem := mem_nodes_of_get? (by simp) hget
  simpa using h.housed _ hmem

/-- What has something below it is a folder. -/
theorem Sound.folder_of_below (h : t.Sound) {more : Key} (hne : more ≠ [])
    (hget : t.get? (key ++ more) = some node) : t.get? key = some .folder := by
  induction more using List.reverseRecOn generalizing node with
  | nil => exact absurd rfl hne
  | append_singleton more name ih =>
    rw [← List.append_assoc] at hget
    have hparent := h.parent hget
    by_cases hmore : more = []
    · simpa [hmore] using hparent
    · exact ih hmore hparent

theorem Sound.folder_dropLast (h : t.Sound) (hget : t.get? key = some node) :
    t.get? key.dropLast = some .folder := by
  rcases List.eq_nil_or_concat key with rfl | ⟨init, name, rfl⟩
  · rfl
  · simpa using h.parent (by simpa using hget)

theorem Sound.spelled_of_get? (h : t.Sound) (hget : t.get? key = some node) (hname : name ∈ key) :
    Spelled name := by
  have hne : key ≠ [] := by
    rintro rfl
    cases hname
  exact h.spelled _ (mem_nodes_of_get? hne hget) name hname

theorem any_isFolder_get? : (t.get? key).any Node.isFolder = true ↔ t.get? key = some .folder := by
  cases t.get? key with
  | none => simp
  | some node => cases node <;> simp [Node.isFolder]

instance (t : FileTree) : Decidable t.Sound :=
  decidable_of_iff ((t.nodes.map Prod.fst).Nodup ∧ (∀ entry ∈ t.nodes, entry.1 ≠ []) ∧
      (∀ entry ∈ t.nodes, ∀ name ∈ entry.1, Spelled name) ∧
      (∀ entry ∈ t.nodes, (t.get? entry.1.dropLast).any Node.isFolder = true) ∧
      (t.get? t.working).any Node.isFolder = true) <| by
    simp only [any_isFolder_get?]
    exact ⟨fun ⟨h₁, h₂, h₃, h₄, h₅⟩ => ⟨h₁, h₂, h₃, h₄, h₅⟩,
      fun ⟨h₁, h₂, h₃, h₄, h₅⟩ => ⟨h₁, h₂, h₃, h₄, h₅⟩⟩

/-! ## Changes of one node -/

theorem get?_erase_self (hne : key ≠ []) : (t.erase key).get? key = none := by
  cases hget : (t.erase key).get? key with
  | none => rfl
  | some node =>
    have hmem := mem_nodes_of_get? hne hget
    have hkept := (List.mem_filter.mp hmem).2
    simp [List.isPrefixOf_iff_prefix.mpr (List.prefix_refl key)] at hkept

/-- Taking away a file or a link takes away nothing else. -/
theorem Sound.get?_erase_of_ne (h : t.Sound) (hkey : t.get? key ≠ some .folder)
    (hne : other ≠ key) : (t.erase key).get? other = t.get? other := by
  by_cases hroot : other = []
  · subst hroot
    rfl
  · cases hget : t.get? other with
    | none =>
      cases herased : (t.erase key).get? other with
      | none => rfl
      | some node =>
        rw [get?_of_get?_erase hroot herased] at hget
        cases hget
    | some node =>
      have hkept : key.isPrefixOf other = false := by
        rw [Bool.eq_false_iff, ne_eq, List.isPrefixOf_iff_prefix]
        rintro ⟨more, rfl⟩
        exact hkey (h.folder_of_below (by rintro rfl; simp at hne) hget)
      unfold get? erase at *
      rw [if_neg hroot] at hget ⊢
      rw [List.find?_filter, ← hget]
      congr 1
      apply congrArg (fun p => List.find? p t.nodes)
      funext entry
      by_cases hentry : entry.1 = other
      · simp [hentry, hkept]
      · simp [hentry]

theorem ne_root_of_get? (h : t.get? key ≠ some .folder) : key ≠ [] := by
  rintro rfl
  exact h rfl

/-- A node is put in a folder, and not in the place of another folder. -/
theorem Sound.set (h : t.Sound) (hfolder : t.get? key = some .folder) (hname : Spelled name)
    (hold : t.get? (key ++ [name]) ≠ some .folder) (node : Node) :
    (t.set (key ++ [name]) node).Sound := by
  have hkeeps : ∀ other, t.get? other = some .folder →
      (t.set (key ++ [name]) node).get? other = some .folder := by
    intro other hother
    rw [get?_set_of_ne]
    · exact hother
    · rintro rfl
      exact hold hother
  have hmem : ∀ entry ∈ (t.set (key ++ [name]) node).nodes,
      entry = (key ++ [name], node) ∨ entry ∈ t.nodes := by
    intro entry hentry
    rcases List.mem_cons.mp hentry with hentry | hentry
    · exact Or.inl hentry
    · exact Or.inr (List.mem_filter.mp hentry).1
  refine ⟨?_, ?_, ?_, ?_, hkeeps _ h.working⟩
  · have hrest := h.distinct.sublist (List.Sublist.map Prod.fst
      (List.filter_sublist (l := t.nodes) (p := fun entry => entry.1 ≠ key ++ [name])))
    unfold FileTree.set
    rw [List.map_cons, List.nodup_cons]
    refine ⟨?_, hrest⟩
    simp
  · intro entry hentry
    rcases hmem entry hentry with rfl | hentry
    · simp
    · exact h.below_root entry hentry
  · intro entry hentry other hother
    rcases hmem entry hentry with rfl | hentry
    · rcases List.mem_append.mp hother with hother | hother
      · exact h.spelled_of_get? hfolder hother
      · rw [List.mem_singleton.mp hother]
        exact hname
    · exact h.spelled entry hentry other hother
  · intro entry hentry
    apply hkeeps
    rcases hmem entry hentry with rfl | hentry
    · simpa using hfolder
    · exact h.housed entry hentry

theorem Sound.erase (h : t.Sound) (hkey : t.get? key ≠ some .folder) : (t.erase key).Sound := by
  have hkeeps : ∀ other, t.get? other = some .folder → (t.erase key).get? other = some .folder := by
    intro other hother
    rw [h.get?_erase_of_ne hkey]
    · exact hother
    · rintro rfl
      exact hkey hother
  have hmem : ∀ entry ∈ (t.erase key).nodes, entry ∈ t.nodes :=
    fun entry hentry => (List.mem_filter.mp hentry).1
  exact ⟨h.distinct.sublist (List.filter_sublist.map Prod.fst),
    fun entry hentry => h.below_root entry (hmem entry hentry),
    fun entry hentry => h.spelled entry (hmem entry hentry),
    fun entry hentry => hkeeps _ (h.housed entry (hmem entry hentry)),
    hkeeps _ h.working⟩

/-! ## Evolution -/

/-- The last name is that of a temporary file. -/
def Fleeting (key : Key) : Prop := ∃ name, key.getLast? = some (Path.temporaryName name)

/-- One tree becomes another in which every folder is still there. So is every link and file that
is not a temporary one, unless another file took its place. -/
structure Evolves (t t' : FileTree) : Prop where
  working : t'.working = t.working
  folders : ∀ key, t.get? key = some .folder → t'.get? key = some .folder
  links : ∀ key target, t'.get? key = some (.link target) → t.get? key = some (.link target)
  lasting : ∀ key node, ¬ Fleeting key → t.get? key = some node → node ≠ .folder →
    t'.get? key = some node ∨ ∃ content, t'.get? key = some (.file content)

theorem Evolves.refl (t : FileTree) : t.Evolves t :=
  ⟨rfl, fun _ h => h, fun _ _ h => h, fun _ _ _ h _ => Or.inl h⟩

theorem Evolves.trans (h : t.Evolves t') (h' : t'.Evolves t'') : t.Evolves t'' := by
  refine ⟨h'.working.trans h.working, fun key hkey => h'.folders key (h.folders key hkey),
    fun key target hkey => h.links key target (h'.links key target hkey), ?_⟩
  intro key node hlasting hkey hnode
  rcases h.lasting key node hlasting hkey hnode with hkey | ⟨content, hkey⟩
  · exact h'.lasting key node hlasting hkey hnode
  · rcases h'.lasting key _ hlasting hkey (by simp) with hkey | hfile
    · exact Or.inr ⟨content, hkey⟩
    · exact Or.inr hfile

/-- A tree evolves by a change of one node that is no folder, that puts no link there, and that
takes nothing away but a temporary file. -/
theorem Evolves.of_change (hworking : t'.working = t.working)
    (hkeep : ∀ other, other ≠ key → t'.get? other = t.get? other)
    (hold : t.get? key ≠ some .folder) (hlink : ∀ target, t'.get? key ≠ some (.link target))
    (hput : Fleeting key ∨ t.get? key = none ∨ ∃ content, t'.get? key = some (.file content)) :
    t.Evolves t' := by
  refine ⟨hworking, ?_, ?_, ?_⟩
  · intro other hother
    rw [hkeep]
    · exact hother
    · rintro rfl
      exact hold hother
  · intro other target hother
    rw [← hkeep]
    · exact hother
    · rintro rfl
      exact hlink target hother
  · intro other node hlasting hother hnode
    by_cases heq : other = key
    · subst heq
      rcases hput with hfleeting | hnone | hfile
      · exact absurd hfleeting hlasting
      · rw [hnone] at hother
        cases hother
      · exact Or.inr hfile
    · rw [hkeep other heq]
      exact Or.inl hother

theorem Evolves.set_file (hold : t.get? key ≠ some .folder) (content : ByteArray) :
    t.Evolves (t.set key (.file content)) := by
  have hself := t.get?_set_self (.file content) (ne_root_of_get? hold)
  refine .of_change rfl (fun other hne => get?_set_of_ne _ _ (Ne.symm hne)) hold ?_ ?_
  · intro target hlink
    rw [hself] at hlink
    cases hlink
  · exact Or.inr (Or.inr ⟨content, hself⟩)

theorem Evolves.set_folder (hne : key ≠ []) (hold : t.get? key = none) :
    t.Evolves (t.set key .folder) := by
  refine .of_change rfl (fun other hne => get?_set_of_ne _ _ (Ne.symm hne)) (by simp [hold]) ?_
    (Or.inr (Or.inl hold))
  intro target hlink
  rw [get?_set_self _ _ hne] at hlink
  cases hlink

theorem Sound.evolves_erase (h : t.Sound) (hold : t.get? key ≠ some .folder) (hkey : Fleeting key) :
    t.Evolves (t.erase key) := by
  refine .of_change rfl (fun other hne => h.get?_erase_of_ne hold hne) hold ?_ (Or.inl hkey)
  intro target hlink
  rw [get?_erase_self (ne_root_of_get? hold)] at hlink
  cases hlink

/-- No link has the name of a temporary file. -/
def Unlinked (t : FileTree) : Prop :=
  ∀ key target, t.get? key = some (.link target) → ¬ Fleeting key

/-- A link may have any name that does not start with a point. -/
theorem unlinked_of_names (h : ∀ entry ∈ t.nodes, ∀ target, entry.2 = .link target →
    ∀ name ∈ entry.1.getLast?, name.toList.head? ≠ some '.') : t.Unlinked := by
  rintro key target hkey ⟨name, hname⟩
  have hne : key ≠ [] := by
    rintro rfl
    cases hkey
  apply h _ (mem_nodes_of_get? hne hkey) target rfl _ hname
  simp [Path.temporaryName]

theorem Evolves.unlinked (h : t.Evolves t') (ht : t.Unlinked) : t'.Unlinked :=
  fun key target hkey => ht key target (h.links key target hkey)

end FileTree

end SourceMacros
