-- Bounds: a path that is too long leads nowhere, so the package folders and the sources that
-- resolution can meet have paths of bounded length, and there are finitely many of them.
import Mathlib.Data.Set.Finite.List
import SourceMacros.Proofs.Nesting

namespace SourceMacros

/-! ## Finitely many paths -/

theorem finite_paths (n : Nat) : {p : Path | p.text.utf8ByteSize ≤ n}.Finite := by
  have hbytes : Finite UInt8 := Finite.of_injective UInt8.toFin fun _ _ => UInt8.toFin_inj.mp
  let f (p : Path) : List UInt8 := p.text.toByteArray.data.toList
  have hf : Function.Injective f := by
    rintro ⟨p⟩ ⟨q⟩ h
    have hdata : p.toByteArray.data = q.toByteArray.data := Array.toList_inj.mp h
    rw [String.toByteArray_inj.mp (ByteArray.ext hdata)]
  refine ((List.finite_length_le UInt8 n).preimage hf.injOn).subset ?_
  intro p hp
  exact hp

namespace Path

theorem size_foldl (text : String) (pieces : List String) :
    (pieces.foldl (fun text next => text.push '/' ++ next) text).utf8ByteSize =
      text.utf8ByteSize + FileTree.keyLength pieces := by
  induction pieces generalizing text with
  | nil => rfl
  | cons piece pieces ih =>
    have hslash : '/'.utf8Size = 1 := rfl
    rw [List.foldl_cons, ih, String.utf8ByteSize_append, String.utf8ByteSize_push, hslash]
    simp only [FileTree.keyLength, List.foldr_cons]
    omega

theorem size_ofPieces_cons (piece : String) (pieces : List String) :
    (ofPieces (piece :: pieces)).text.utf8ByteSize =
      piece.utf8ByteSize + FileTree.keyLength pieces := size_foldl piece pieces

theorem size_join_le (p q : Path) :
    (p.join q).text.utf8ByteSize ≤ p.text.utf8ByteSize + 1 + q.text.utf8ByteSize := by
  have hslash : "/".utf8ByteSize = 1 := rfl
  unfold join
  split
  · omega
  · split
    · simp only [String.utf8ByteSize_append]
      omega
    · simp only [String.utf8ByteSize_append, hslash]
      omega

theorem size_le_join (p q : Path) : q.text.utf8ByteSize ≤ (p.join q).text.utf8ByteSize := by
  unfold join
  split
  · exact Nat.le_refl _
  · split
    · simp only [String.utf8ByteSize_append]
      omega
    · simp only [String.utf8ByteSize_append]
      omega

end Path

namespace FileTree

variable {t t' : FileTree} {n : Nat}

theorem keyLength_append (key other : Key) :
    keyLength (key ++ other) = keyLength key + keyLength other := by
  induction key with
  | nil => simp [keyLength]
  | cons name key ih =>
    simp only [keyLength, List.cons_append, List.foldr_cons] at ih ⊢
    omega

theorem keyLength_singleton (name : String) : keyLength [name] = name.utf8ByteSize + 1 := rfl

theorem keyLength_dropLast_le (key : Key) : keyLength key.dropLast ≤ keyLength key := by
  cases key with
  | nil => exact Nat.le_refl _
  | cons name rest =>
    have hkey := List.dropLast_concat_getLast (List.cons_ne_nil name rest)
    have hlength := keyLength_append (name :: rest).dropLast [(name :: rest).getLast (by simp)]
    rw [hkey] at hlength
    omega

theorem size_keyPath_le (key : Key) : (keyPath key).text.utf8ByteSize ≤ keyLength key + 1 := by
  unfold keyPath
  rw [Path.size_ofPieces_cons]
  have hempty : "".utf8ByteSize = 0 := rfl
  cases key with
  | nil => exact Nat.le_refl _
  | cons name rest =>
    simp only [List.isEmpty_cons, Bool.false_eq_true, if_false, hempty]
    omega

/-- The path of names is that of all but the last, with a slash and the last. -/
theorem size_ofPieces_le {names : Key} {name : String} (h : names.getLast? = some name) :
    (Path.ofPieces names).text.utf8ByteSize ≤
      (Path.ofPieces names.dropLast).text.utf8ByteSize + 1 + name.utf8ByteSize := by
  obtain ⟨init, rfl⟩ : ∃ init, names = init ++ [name] := by
    refine ⟨names.dropLast, ?_⟩
    exact (List.dropLast_append_getLast? name h).symm
  rw [List.dropLast_concat]
  cases init with
  | nil =>
    rw [List.nil_append, Path.size_ofPieces_cons]
    have hnil : keyLength [] = 0 := rfl
    omega
  | cons first init =>
    rw [List.cons_append, Path.size_ofPieces_cons, Path.size_ofPieces_cons, keyLength_append,
      keyLength_singleton]
    omega

/-! ## Bounded trees -/

/-- The working folder and the names of folders are not longer than a bound. -/
structure Bounded (n : Nat) (t : FileTree) : Prop where
  working : keyLength t.working ≤ n
  folders : ∀ key name, (key, Node.folder) ∈ t.nodes → key.getLast? = some name →
    name.utf8ByteSize ≤ n

theorem Bounded.develops (hn : nameLimit ≤ n) (h : t.Bounded n) (ht : t.Develops t') :
    t'.Bounded n := by
  refine ⟨by rw [ht.working]; exact h.working, ?_⟩
  intro key name hkey hname
  rcases ht.folders key hkey with hold | ⟨other, hother, hshort⟩
  · exact h.folders key name hold hname
  · rw [hname] at hother
    cases hother
    exact Nat.le_trans hshort hn

theorem exists_bounded (t : FileTree) : ∃ n, pathLimit ≤ n ∧ t.Bounded n := by
  have hnodes : ∀ nodes : List (Key × Node), ∃ n, ∀ key name, (key, Node.folder) ∈ nodes →
      key.getLast? = some name → name.utf8ByteSize ≤ n := by
    intro nodes
    induction nodes with
    | nil => exact ⟨0, by simp⟩
    | cons node nodes ih =>
      obtain ⟨n, hn⟩ := ih
      refine ⟨max n (node.1.getLast?.getD "").utf8ByteSize, ?_⟩
      intro key name hkey hname
      rcases List.mem_cons.mp hkey with rfl | hkey
      · rw [hname]
        exact Nat.le_max_right _ _
      · exact Nat.le_trans (hn key name hkey hname) (Nat.le_max_left _ _)
  obtain ⟨n, hn⟩ := hnodes t.nodes
  refine ⟨pathLimit + keyLength t.working + n, by omega, by omega, ?_⟩
  intro key name hkey hname
  have := hn key name hkey hname
  omega

/-! ## Canonical folders -/

/-- While the canonical path of a node is looked for, no folder on the way is too long. -/
theorem descend_length (hn : pathLimit ≤ n) {jump : Key → List String → Except IoCause Found}
    (hjump : ∀ here pieces key node, keyLength here ≤ n →
      jump here pieces = .ok (.node key node) → keyLength key ≤ n)
    {here : Key} {pieces : List String} {key : Key} {node : Node} (hhere : keyLength here ≤ n)
    (h : t.descend .identify jump here pieces = .ok (.node key node)) : keyLength key ≤ n := by
  induction pieces generalizing here with
  | nil =>
    cases h
    exact hhere
  | cons piece rest ih =>
    unfold descend at h
    split at h
    · exact ih hhere h
    split at h
    · exact ih (Nat.le_trans (keyLength_dropLast_le here) hhere) h
    split at h
    · cases h
    split at h
    · cases h
    split at h
    · cases h
    next hshort =>
    have hlonger : keyLength (here ++ [piece]) ≤ n := by
      simp only [true_and, Nat.not_le] at hshort
      omega
    dsimp only at h
    split at h
    · exact ih hlonger h
    · split at h
      · cases h
        exact hlonger
      · cases h
    · split at h
      · cases h
        exact hlonger
      · refine hjump _ _ _ _ ?_ h
        split
        · exact Nat.zero_le n
        · exact hhere
    · split at h
      · cases h
      · cases h

theorem follow_length (hn : pathLimit ≤ n) {links : Nat} {here : Key} {pieces : List String}
    {key : Key} {node : Node} (hhere : keyLength here ≤ n)
    (h : t.follow .identify links here pieces = .ok (.node key node)) : keyLength key ≤ n := by
  induction links generalizing here pieces key node with
  | zero => exact descend_length hn (by intro _ _ _ _ _ hj; cases hj) hhere h
  | succ links ih => exact descend_length hn (fun _ _ _ _ hh hj => ih hh hj) hhere h

theorem size_canonical_le (hn : pathLimit ≤ n) (ht : t.Bounded n) (path : Path) :
    (t.canonical path).text.utf8ByteSize ≤ max path.text.utf8ByteSize (n + 1) := by
  unfold canonical canonical?
  split
  · next key node hlookup =>
    unfold lookup at hlookup
    split at hlookup
    · cases hlookup
    split at hlookup
    · cases hlookup
    have hstart : keyLength (if path.isAbsolute then [] else t.working) ≤ n := by
      split
      · exact Nat.zero_le n
      · exact ht.working
    have hkey := follow_length hn hstart hlookup
    have hsize := size_keyPath_le key
    exact Nat.le_trans (Nat.le_trans hsize (by omega)) (Nat.le_max_right _ _)
  · exact Nat.le_max_left _ _

theorem size_of_find {path : Path} {purpose : Purpose} {found : Found}
    (h : t.find path purpose = .ok found) : path.text.utf8ByteSize < pathLimit := by
  unfold find at h
  split at h
  · cases h
  · next hlong => simpa [isTooLong] using hlong

theorem size_of_isFile {path : Path} (h : t.isFile path = true) :
    path.text.utf8ByteSize < pathLimit := by
  unfold isFile node? at h
  cases hfind : t.find path .reach with
  | ok found => exact size_of_find hfind
  | error cause =>
    rw [hfind] at h
    cases h

theorem size_of_isFolder {path : Path} (h : t.isFolder path = true) :
    path.text.utf8ByteSize < pathLimit := by
  unfold isFolder node? at h
  cases hfind : t.find path .reach with
  | ok found => exact size_of_find hfind
  | error cause =>
    rw [hfind] at h
    cases h

/-! ## Walks -/

/-- What lies below a key is a node of the tree, and has the node's own last name. -/
theorem mem_below {key names : Key} {node : Node} (h : (names, node) ∈ t.below key) :
    ∃ k, (k, node) ∈ t.nodes ∧ k.getLast? = names.getLast? := by
  unfold below at h
  rw [Sorting.mem_sort] at h
  obtain ⟨⟨k, other⟩, hmem, heq⟩ := List.mem_map.mp h
  obtain ⟨hmem, hinside⟩ := List.mem_filter.mp (List.mem_reverse.mp hmem)
  cases heq
  rw [Bool.and_eq_true, List.isPrefixOf_iff_prefix] at hinside
  obtain ⟨⟨rest, rfl⟩, hother⟩ := hinside
  have hrest : rest ≠ [] := by
    rintro rfl
    simp at hother
  refine ⟨key ++ rest, hmem, ?_⟩
  rw [List.drop_left, List.getLast?_append_of_ne_nil key hrest]

/-- A walk starts at a path that is not too long, and goes into no folder whose path is. -/
theorem entry_of_walk {path here : Path} {names : Key} {name : String} {node : Node}
    (h : .entry here names node ∈ t.walk path) (hname : names.getLast? = some name) :
    path.text.utf8ByteSize < pathLimit ∧ here = path.join (Path.ofPieces names) ∧
      (Path.ofPieces names.dropLast).text.utf8ByteSize < pathLimit ∧
      ∃ k, (k, node) ∈ t.nodes ∧ k.getLast? = some name := by
  have hinside : ∀ key, .entry here names node ∈
      ((t.below key).flatMap fun entry => visit path entry.1 entry.2) →
      here = path.join (Path.ofPieces names) ∧
        (Path.ofPieces names.dropLast).text.utf8ByteSize < pathLimit ∧
        ∃ k, (k, node) ∈ t.nodes ∧ k.getLast? = some name := by
    intro key hmem
    obtain ⟨⟨names', node'⟩, hbelow, hvisit⟩ := List.mem_flatMap.mp hmem
    obtain ⟨k, hk, hlast⟩ := mem_below hbelow
    unfold visit at hvisit
    dsimp only at hvisit
    split at hvisit
    · cases hvisit
    · next hopen =>
      have heq : here = path.join (Path.ofPieces names') ∧ names = names' ∧ node = node' := by
        split at hvisit
        · simpa using hvisit
        · simpa using hvisit
      obtain ⟨rfl, rfl, rfl⟩ := heq
      refine ⟨rfl, ?_, k, hk, hlast.trans hname⟩
      by_cases hfirst : names.dropLast = []
      · rw [hfirst]
        decide
      · simp only [ne_eq, hfirst, not_false_eq_true, true_and, isTooLong, decide_eq_true_eq,
          Nat.not_le] at hopen
        exact Nat.lt_of_le_of_lt (Path.size_le_join path _) hopen
  unfold walk at h
  dsimp only at h
  split at h
  · simp at h
  · simp at h
  · next hfind =>
    refine ⟨size_of_find hfind, ?_⟩
    rcases List.mem_cons.mp h with heq | h
    · cases heq
      cases hname
    · exact hinside _ h
  · next hfind =>
    refine ⟨size_of_find hfind, ?_⟩
    split at h
    · rcases List.mem_cons.mp h with heq | h
      · cases heq
        cases hname
      · exact hinside _ h
    · rcases List.mem_singleton.mp h with ⟨⟩
      cases hname
    · simp at h
    · simp at h
  · rcases List.mem_singleton.mp h with ⟨⟩
    cases hname

end FileTree

/-! ## Levels -/

section

variable {μ : Type} {s : Session μ} {n : Nat}

/-- A package is found by a path whose length is bounded. -/
theorem size_packageFolder {package : String} {dir : Path} (hn : FileTree.pathLimit ≤ n)
    (hs : s.tree.Bounded n) (h : packageFolder? s package = some dir) :
    dir.text.utf8ByteSize ≤ 3 * n + 2 := by
  unfold packageFolder? at h
  rcases Option.or_eq_some_iff.mp h with hlocal | ⟨-, hinstalled⟩
  · obtain ⟨visit, hmem, hvisit⟩ := List.exists_of_findSome?_eq_some hlocal
    split at hvisit
    · next path names =>
      split at hvisit
      · next hname =>
        cases hvisit
        rw [beq_iff_eq] at hname
        obtain ⟨hroot, rfl, hinit, k, hk, hlast⟩ := FileTree.entry_of_walk hmem hname
        have hshort := hs.folders k package hk hlast
        have hnames := FileTree.size_ofPieces_le hname
        have hjoin := Path.size_join_le s.searchRoot (Path.ofPieces names)
        omega
      · cases hvisit
    · cases hvisit
  · unfold installedPackage? at hinstalled
    obtain ⟨root, -, hdir⟩ := Option.bind_eq_some_iff.mp hinstalled
    dsimp only at hdir
    split at hdir
    · next hfolder =>
      cases hdir
      have hsize := FileTree.size_of_isFolder hfolder
      omega
    · cases hdir

/-- The folder that a level marks has a path whose length is bounded. -/
theorem size_opens {reference : String} {folder : Path} (hn : FileTree.pathLimit ≤ n)
    (hs : s.tree.Bounded n) (h : opens? s reference = some folder) :
    folder.text.utf8ByteSize ≤ 3 * n + 2 ∧ ¬ s.Marked folder := by
  unfold opens? at h
  split at h
  · next dir manifest keyword hsought =>
    split at h
    · cases h
    · next hnew =>
      cases h
      refine ⟨?_, fun hmarked => hnew (Session.isBootstrapped_iff.mpr hmarked)⟩
      obtain ⟨-, package, hfolder, -⟩ := resolveNew_of_sought hsought
      have hdir := size_packageFolder hn hs hfolder
      have hcanonical := FileTree.size_canonical_le hn hs dir
      omega
  · cases h

/-- The source that a level expands has a path whose length is bounded. -/
theorem size_due {reference : String} {file : Path} (hn : FileTree.pathLimit ≤ n)
    (h : due? s reference = some file) : file.text.utf8ByteSize ≤ 3 * n + 2 := by
  unfold due? at h
  split at h
  · split at h
    · obtain ⟨-, hpending⟩ := Option.filter_eq_some_iff.mp h
      simp only [isPending, Bool.and_eq_true] at hpending
      have hsize := FileTree.size_of_isFile hpending.1.2
      omega
    · cases h
  · cases h

end

end SourceMacros
