-- The search for packages. Of the folders with the name of a package below the search root the
-- one whose names come first is taken, compared one name after another and each by its bytes. Only
-- where there is none is the package looked for among the installed ones, and where it is not
-- there either, its references are not resolved.
import SourceMacros.Proofs.LineFeeds
import SourceMacros.Proofs.Nesting
import SourceMacros.Proofs.PackageLaws
import SourceMacros.Proofs.Walks

namespace SourceMacros

/-! ## The order of bytes -/

theorem ofNat_lt_ofNat {m n : Nat} (hm : m < 256) (hn : n < 256) :
    UInt8.ofNat m < UInt8.ofNat n ↔ m < n := by
  rw [UInt8.lt_iff_toNat_lt, UInt8.toNat_ofNat_of_lt' hm, UInt8.toNat_ofNat_of_lt' hn]

theorem ofNat_eq_ofNat {m n : Nat} (hm : m < 256) (hn : n < 256) :
    UInt8.ofNat m = UInt8.ofNat n ↔ m = n := by
  rw [← UInt8.toNat_inj, UInt8.toNat_ofNat_of_lt' hm, UInt8.toNat_ofNat_of_lt' hn]

/-- Of two characters the one with the smaller code has the smaller bytes, and they differ before
either of them ends. -/
theorem encode_append_lt {c d : Char} (h : c < d) (xs ys : List UInt8) :
    String.utf8EncodeChar c ++ xs < String.utf8EncodeChar d ++ ys := by
  have hlt : c.val.toNat < d.val.toNat := h
  have hd : d.val.toNat < 0x110000 := by
    rcases d.valid with hlow | hhigh
    · exact Nat.lt_trans hlow (by decide)
    · exact hhigh.2
  rw [String.utf8EncodeChar.eq_1, String.utf8EncodeChar.eq_1]
  generalize c.val.toNat = m at *
  generalize d.val.toNat = n at *
  have htop : ∀ k, k ≤ n → k / 262144 % 8 = k / 262144 := fun k hk => Nat.mod_eq_of_lt (by omega)
  rw [htop m hlt.le, htop n le_rfl]
  split_ifs
  all_goals
    simp (disch := omega) only [List.cons_append, List.cons_lt_cons_iff, ofNat_lt_ofNat,
      ofNat_eq_ofNat]
    omega

theorem flatMap_encode_lt {cs ds : List Char} (h : cs < ds) :
    cs.flatMap String.utf8EncodeChar < ds.flatMap String.utf8EncodeChar := by
  induction cs generalizing ds with
  | nil =>
    cases ds with
    | nil => exact absurd h (List.lt_irrefl [])
    | cons d ds =>
      have hne : String.utf8EncodeChar d ≠ [] := by
        rw [← List.length_pos_iff, String.length_utf8EncodeChar]
        exact d.utf8Size_pos
      obtain ⟨b, bs, hbytes⟩ := List.exists_cons_of_ne_nil hne
      rw [List.flatMap_cons, List.flatMap_nil, hbytes]
      exact List.nil_lt_cons _ _
  | cons c cs ih =>
    cases ds with
    | nil => exact absurd h (List.not_lt_nil _)
    | cons d ds =>
      rw [List.flatMap_cons, List.flatMap_cons]
      rcases List.cons_lt_cons_iff.mp h with hlt | ⟨rfl, hrest⟩
      · exact encode_append_lt hlt _ _
      · exact List.append_left_lt (ih hrest)

theorem bytes_lt_of_lt {a b : String} (h : a < b) : bytes a < bytes b := by
  rw [← String.ofList_toList (s := a), ← String.ofList_toList (s := b), bytes_ofList, bytes_ofList]
  exact flatMap_encode_lt (String.lt_iff.mp h)

/-- Texts are in the order of their bytes. -/
theorem bytes_lt_bytes {a b : String} : bytes a < bytes b ↔ a < b := by
  refine ⟨fun h => ?_, bytes_lt_of_lt⟩
  by_contra hnot
  by_cases hgt : b < a
  · exact List.lt_asymm h (bytes_lt_of_lt hgt)
  · obtain rfl : b = a := String.le_antisymm hnot hgt
    exact List.lt_irrefl _ h

theorem bytes_inj {a b : String} : bytes a = bytes b ↔ a = b := by
  refine ⟨fun h => ?_, congrArg bytes⟩
  by_contra hne
  rcases Decidable.em (a < b) with hlt | hlt
  · exact List.lt_irrefl _ (h ▸ bytes_lt_of_lt hlt)
  · rcases Decidable.em (b < a) with hgt | hgt
    · exact List.lt_irrefl _ (h ▸ bytes_lt_of_lt hgt)
    · exact hne (String.le_antisymm hgt hlt)

namespace FileTree

/-- The order of a walk compares names by their bytes, and a folder comes before what it holds. -/
theorem precedes_iff_bytes {a b : Key} : Precedes a b ↔ a.map bytes < b.map bytes := by
  unfold Precedes
  induction a generalizing b with
  | nil =>
    cases b with
    | nil => simp
    | cons y b => simp [keyLe]
  | cons x a ih =>
    cases b with
    | nil => simp [keyLe]
    | cons y b =>
      rw [List.map_cons, List.map_cons, List.cons_lt_cons_iff, bytes_lt_bytes, bytes_inj, ← ih]
      simp only [keyLe, Bool.or_eq_true, decide_eq_true_eq, Bool.and_eq_true, beq_iff_eq,
        ne_eq, List.cons.injEq]
      constructor
      · rintro ⟨hlt | ⟨rfl, hle⟩, hne⟩
        · exact Or.inl hlt
        · exact Or.inr ⟨rfl, hle, fun heq => hne ⟨rfl, heq⟩⟩
      · rintro (hlt | ⟨rfl, hle, hne⟩)
        · refine ⟨Or.inl hlt, ?_⟩
          rintro ⟨rfl, -⟩
          exact String.lt_irrefl x hlt
        · exact ⟨Or.inr ⟨rfl, hle⟩, fun heq => hne heq.2⟩

variable {t : FileTree} {root names front : Key} {dir : Path} {node : Node}

/-! ## Where a walk goes -/

/-- What a path leads to is seen at the path itself, or a link is. -/
theorem follow_inspect_of_reach {n : Nat} {here : Key} {ps : List String}
    (h : t.follow .reach n here ps = .ok (.node root .folder)) :
    t.follow .inspect n here ps = .ok (.node root .folder) ∨
      ∃ key target, t.follow .inspect n here ps = .ok (.node key (.link target)) := by
  induction n using Nat.strongRecOn generalizing here ps with
  | ind n ihn =>
    induction ps generalizing here with
    | nil =>
      rw [follow_nil] at h ⊢
      exact Or.inl h
    | cons piece ps ih =>
      by_cases hidle : Path.isIdle piece = true
      · rw [follow_cons_idle hidle] at h ⊢
        exact ih h
      by_cases hup : piece = ".."
      · subst hup
        rw [follow_cons_up] at h ⊢
        exact ih h
      have hpiece : Path.IsName piece := ⟨by simpa using hidle, hup⟩
      have hshort := (fits_of_follow hpiece h).1
      rw [follow_cons_name (by decide) hpiece (by simp) hshort] at h ⊢
      split at h
      · exact ih h
      · exact Or.inl h
      · next target hget =>
        rw [if_neg (by simp)] at h
        split
        · exact Or.inr ⟨_, target, rfl⟩
        · cases n with
          | zero => cases h
          | succ n => exact ihn n (Nat.lt_succ_self n) h
      · exact Or.inl h

theorem find_inspect_of_reach (h : t.find dir .reach = .ok (.node root .folder)) :
    t.find dir .inspect = .ok (.node root .folder) ∨
      ∃ key target, t.find dir .inspect = .ok (.node key (.link target)) := by
  obtain ⟨hopen, hfollow⟩ := find_eq_ok.mp h
  rcases follow_inspect_of_reach hfollow with hsame | ⟨key, target, hlink⟩
  · exact Or.inl (find_eq_ok.mpr ⟨hopen, hsame⟩)
  · exact Or.inr ⟨key, target, find_eq_ok.mpr ⟨hopen, hlink⟩⟩

/-- A walk from a path that leads to a folder meets what lies below that folder. -/
theorem walk_of_folder (h : t.find dir .reach = .ok (.node root .folder)) :
    ∃ node, t.walk dir = .entry dir [] node ::
      (t.below root).flatMap fun entry => visit dir entry.1 entry.2 := by
  rcases find_inspect_of_reach h with hfind | ⟨key, target, hfind⟩
  · exact ⟨.folder, by unfold walk; simp only [hfind]⟩
  · exact ⟨.link target, by unfold walk; simp only [hfind, h]⟩

/-- A walk from any other path meets nothing but what is there. -/
theorem walk_of_no_folder (h : ∀ root, t.find dir .reach ≠ .ok (.node root .folder)) :
    (∃ cause, t.walk dir = [.refused dir cause]) ∨ ∃ node, t.walk dir = [.entry dir [] node] := by
  unfold walk
  dsimp only
  split
  · exact Or.inl ⟨_, rfl⟩
  · exact Or.inl ⟨_, rfl⟩
  · next root hfind => exact absurd (find_reach_of_inspect (by simp) hfind) (h root)
  · split
    · next root hfind => exact absurd hfind (h root)
    · exact Or.inr ⟨_, rfl⟩
    · exact Or.inl ⟨_, rfl⟩
    · exact Or.inl ⟨_, rfl⟩
  · exact Or.inr ⟨_, rfl⟩

/-! ## Folders that can be opened -/

/-- Every folder on the way from a path to what lies at names below it has a path that can be
opened. -/
def Opens (dir : Path) (names : Key) : Prop :=
  ∀ front, front <+: names → front ≠ names → isTooLong (walkPath dir front) = false

theorem size_walkPath (hdir : dir.text ≠ "") (hne : names ≠ [])
    (hnames : ∀ name ∈ names, Spelled name) :
    (walkPath dir names).text.utf8ByteSize =
      dir.text.utf8ByteSize + (if dir.endsInSlash then 0 else 1) +
        (Path.ofPieces names).text.utf8ByteSize := by
  unfold walkPath Path.join
  rw [if_neg hne, Path.isAbsolute_ofPieces hne hnames]
  simp only [Bool.false_or, beq_iff_eq, hdir, if_false]
  have hslash : "/".utf8ByteSize = 1 := rfl
  split
  · simp
  · simp [String.utf8ByteSize_append, hslash]

/-- Paths grow on the way down. -/
theorem size_walkPath_le (hdir : dir.text ≠ "") (hnames : ∀ name ∈ names, Spelled name)
    (hfront : front <+: names) :
    (walkPath dir front).text.utf8ByteSize ≤ (walkPath dir names).text.utf8ByteSize := by
  obtain ⟨more, rfl⟩ := hfront
  cases front with
  | nil =>
    rw [List.nil_append] at hnames ⊢
    by_cases hmore : more = []
    · rw [hmore]
    · rw [size_walkPath hdir hmore hnames]
      unfold walkPath
      rw [if_pos rfl]
      omega
  | cons name front =>
    have hsub : ∀ other ∈ name :: front, Spelled other := fun other hother =>
      hnames other (List.mem_append_left more hother)
    rw [size_walkPath hdir (by simp) hsub, size_walkPath hdir (by simp) hnames, List.cons_append,
      Path.size_ofPieces_cons, Path.size_ofPieces_cons, keyLength_append]
    omega

/-- The last folder on the way has the longest path. -/
theorem opens_iff (hdir : Openable dir) (hne : names ≠ [])
    (hnames : ∀ name ∈ names, Spelled name) :
    Opens dir names ↔
      ¬ (names.dropLast ≠ [] ∧ isTooLong (dir.join (Path.ofPieces names.dropLast)) = true) := by
  have hparent : names.dropLast <+: names := List.dropLast_prefix names
  have hshorter : names.dropLast ≠ names := by
    intro heq
    have hlength := congrArg List.length heq
    have hpos := List.length_pos_iff.mpr hne
    rw [List.length_dropLast] at hlength
    omega
  constructor
  · rintro h ⟨hinner, hlong⟩
    have hopen := h _ hparent hshorter
    rw [walkPath, if_neg hinner, hlong] at hopen
    cases hopen
  · intro h front hfront hproper
    have hshort : isTooLong (walkPath dir names.dropLast) = false := by
      by_cases hinner : names.dropLast = []
      · rw [hinner, walkPath, if_pos rfl]
        exact hdir.short
      · rw [walkPath, if_neg hinner]
        simpa using fun hlong => h ⟨hinner, hlong⟩
    have hbefore : front <+: names.dropLast := by
      obtain ⟨more, rfl⟩ := hfront
      have hmore : more ≠ [] := fun hnil => hproper (by simp [hnil])
      rw [List.dropLast_append_of_ne_nil hmore]
      exact List.prefix_append front _
    have hle := size_walkPath_le hdir.nonempty
      (fun name hname => hnames name (hparent.subset hname)) hbefore
    unfold isTooLong at hshort ⊢
    simp only [decide_eq_false_iff_not, not_le] at hshort ⊢
    omega

/-! ## The first folder of a name -/

/-- The path of a folder with the name of a package. -/
def folderNamed? (package : String) : Visit → Option Path
  | .entry path names .folder => if names.getLast? == some package then some path else none
  | _ => none

theorem findSome?_visit {package : String} {path : Path} (hdir : Openable dir) (hne : names ≠ [])
    (hnames : ∀ name ∈ names, Spelled name) :
    (visit dir names node).findSome? (folderNamed? package) = some path ↔
      Opens dir names ∧ node = .folder ∧ names.getLast? = some package ∧
        path = walkPath dir names := by
  have hpath : walkPath dir names = dir.join (Path.ofPieces names) := if_neg hne
  rw [opens_iff hdir hne hnames, hpath]
  unfold visit
  dsimp only
  split
  · next hclosed => simp [hclosed]
  · next hopen =>
    have hsight : ∀ rest, rest.findSome? (folderNamed? package) = none →
        ((.entry (dir.join (Path.ofPieces names)) names node :: rest).findSome?
          (folderNamed? package) = some path ↔ node = .folder ∧ names.getLast? = some package ∧
            path = dir.join (Path.ofPieces names)) := by
      intro rest hrest
      rw [List.findSome?_cons, hrest]
      cases node with
      | folder =>
        unfold folderNamed?
        split <;> grind
      | file content => simp [folderNamed?]
      | link target => simp [folderNamed?]
    rw [and_iff_right hopen]
    split
    · exact hsight _ rfl
    · exact hsight _ rfl

theorem findSome?_flatMap {α β γ : Type} (f : β → Option γ) (g : α → List β) (xs : List α) :
    (xs.flatMap g).findSome? f = xs.findSome? fun x => (g x).findSome? f := by
  induction xs with
  | nil => rfl
  | cons x xs ih =>
    rw [List.flatMap_cons, List.findSome?_append, ih, List.findSome?_cons]
    cases (g x).findSome? f <;> rfl

end FileTree

variable {μ : Type} {s s' : Session μ} {package : String} {names : Key} {dir : Path}

/-- The names on the way from the search root to a folder of a package. The folder is reached by
way of folders only, all of which can be opened. -/
structure IsLocal (s : Session μ) (package : String) (names : Key) : Prop where
  named : names.getLast? = some package
  stands : ∃ root, s.tree.find s.searchRoot .reach = .ok (.node root .folder) ∧
    s.tree.get? (root ++ names) = some .folder
  opens : FileTree.Opens s.searchRoot names

/-- The names on the way to the folder of a package that comes before all others. -/
structure IsFirstLocal (s : Session μ) (package : String) (names : Key) : Prop where
  isLocal : IsLocal s package names
  first : ∀ other, IsLocal s package other → other = names ∨ names.map bytes < other.map bytes

theorem localPackage?_of_folder {root : Key}
    (hroot : s.tree.find s.searchRoot .reach = .ok (.node root .folder)) :
    localPackage? s package = (s.tree.below root).findSome? fun entry =>
      (FileTree.visit s.searchRoot entry.1 entry.2).findSome? (FileTree.folderNamed? package) := by
  obtain ⟨node, hwalk⟩ := FileTree.walk_of_folder hroot
  have hself : FileTree.folderNamed? package (.entry s.searchRoot [] node) = none := by
    cases node <;> rfl
  have hopen : localPackage? s package =
      (s.tree.walk s.searchRoot).findSome? (FileTree.folderNamed? package) := rfl
  rw [hopen, hwalk, List.findSome?_cons, hself, FileTree.findSome?_flatMap]

theorem localPackage?_of_no_folder
    (h : ∀ root, s.tree.find s.searchRoot .reach ≠ .ok (.node root .folder)) :
    localPackage? s package = none := by
  have hopen : localPackage? s package =
      (s.tree.walk s.searchRoot).findSome? (FileTree.folderNamed? package) := rfl
  rcases FileTree.walk_of_no_folder h with ⟨cause, hwalk⟩ | ⟨node, hwalk⟩
  · rw [hopen, hwalk]
    rfl
  · rw [hopen, hwalk]
    cases node <;> rfl

theorem IsLocal.mem_below {root : Key} (h : IsLocal s package names) (ht : s.tree.Sound)
    (hroot : s.tree.find s.searchRoot .reach = .ok (.node root .folder)) :
    (names, .folder) ∈ s.tree.below root := by
  obtain ⟨root', hroot', hget⟩ := h.stands
  rw [hroot] at hroot'
  cases hroot'
  refine (FileTree.mem_below_iff ht).mpr ⟨?_, hget⟩
  rintro rfl
  cases h.named

/-- Of what lies below the search root a walk picks the folders of the package. -/
theorem findSome?_visit_iff_isLocal {root : Key} {node : Node} {path : Path} (ht : s.tree.Sound)
    (hroot : s.tree.find s.searchRoot .reach = .ok (.node root .folder))
    (hmem : (names, node) ∈ s.tree.below root) :
    (FileTree.visit s.searchRoot names node).findSome? (FileTree.folderNamed? package) =
      some path ↔ IsLocal s package names ∧ path = FileTree.walkPath s.searchRoot names := by
  obtain ⟨hne, hget⟩ := (FileTree.mem_below_iff ht).mp hmem
  rw [FileTree.findSome?_visit (FileTree.find_eq_ok.mp hroot).1 hne fun name hname =>
    ht.spelled_of_get? hget (List.mem_append_right root hname)]
  constructor
  · rintro ⟨hopens, rfl, hnamed, rfl⟩
    exact ⟨⟨hnamed, ⟨root, hroot, hget⟩, hopens⟩, rfl⟩
  · rintro ⟨hlocal, rfl⟩
    have hfolder := ((FileTree.mem_below_iff ht).mp (hlocal.mem_below ht hroot)).2
    rw [hget] at hfolder
    cases hfolder
    exact ⟨hlocal.opens, rfl, hlocal.named, rfl⟩

theorem localPackage?_eq_none (ht : s.tree.Sound) :
    localPackage? s package = none ↔ ∀ names, ¬ IsLocal s package names := by
  by_cases hfolder : ∃ root, s.tree.find s.searchRoot .reach = .ok (.node root .folder)
  · obtain ⟨root, hroot⟩ := hfolder
    rw [localPackage?_of_folder hroot, List.findSome?_eq_none_iff]
    constructor
    · intro h names hlocal
      have hmem := hlocal.mem_below ht hroot
      have hsome := (findSome?_visit_iff_isLocal ht hroot hmem).mpr ⟨hlocal, rfl⟩
      rw [h _ hmem] at hsome
      cases hsome
    · rintro h ⟨names, node⟩ hmem
      rw [Option.eq_none_iff_forall_ne_some]
      intro path hsome
      exact h names ((findSome?_visit_iff_isLocal ht hroot hmem).mp hsome).1
  · have hnone := not_exists.mp hfolder
    refine ⟨fun _ names hlocal => ?_, fun _ => localPackage?_of_no_folder hnone⟩
    obtain ⟨root, hroot, -⟩ := hlocal.stands
    exact hnone root hroot

/-- A local package is found at the first of its folders. -/
theorem isFirstLocal_of_localPackage? (ht : s.tree.Sound) (h : localPackage? s package = some dir) :
    ∃ names, IsFirstLocal s package names ∧ dir = FileTree.walkPath s.searchRoot names := by
  by_cases hfolder : ∃ root, s.tree.find s.searchRoot .reach = .ok (.node root .folder)
  · obtain ⟨root, hroot⟩ := hfolder
    rw [localPackage?_of_folder hroot] at h
    obtain ⟨before, ⟨names, node⟩, after, hbelow, hpick, hbefore⟩ := List.findSome?_eq_some_iff.mp h
    have hmem : (names, node) ∈ s.tree.below root := by simp [hbelow]
    obtain ⟨hlocal, rfl⟩ := (findSome?_visit_iff_isLocal ht hroot hmem).mp hpick
    refine ⟨names, ⟨hlocal, ?_⟩, rfl⟩
    intro other hother
    have hmem' := hother.mem_below ht hroot
    have hpick' := (findSome?_visit_iff_isLocal ht hroot hmem').mpr ⟨hother, rfl⟩
    -- What comes before the first pick is no folder of the package.
    rw [hbelow, List.mem_append, List.mem_cons] at hmem'
    rcases hmem' with hearly | hsame | hlate
    · rw [hbefore _ hearly] at hpick'
      cases hpick'
    · exact Or.inl (congrArg Prod.fst hsame)
    · have hsorted := FileTree.pairwise_below ht root
      rw [hbelow] at hsorted
      have hprecedes := List.rel_of_pairwise_cons (List.pairwise_append.mp hsorted).2.1 hlate
      exact Or.inr (FileTree.precedes_iff_bytes.mp hprecedes)
  · rw [localPackage?_of_no_folder (not_exists.mp hfolder)] at h
    cases h

theorem IsFirstLocal.unique {other : Key} (h : IsFirstLocal s package names)
    (h' : IsFirstLocal s package other) : names = other := by
  rcases h.first other h'.isLocal with heq | hlt
  · exact heq.symm
  rcases h'.first names h.isLocal with heq | hlt'
  · exact heq
  · exact absurd hlt' (List.lt_asymm hlt)

/-- There is a first one of the folders of a package, if there is any. -/
theorem localPackage?_eq_some (ht : s.tree.Sound) :
    localPackage? s package = some dir ↔
      ∃ names, IsFirstLocal s package names ∧ dir = FileTree.walkPath s.searchRoot names := by
  refine ⟨isFirstLocal_of_localPackage? ht, ?_⟩
  rintro ⟨names, hfirst, rfl⟩
  cases hfound : localPackage? s package with
  | none => exact absurd hfirst.isLocal ((localPackage?_eq_none ht).mp hfound names)
  | some dir =>
    obtain ⟨other, hother, rfl⟩ := isFirstLocal_of_localPackage? ht hfound
    rw [hfirst.unique hother]

/-! ## Installed packages -/

/-- The path of an installed package leads to a folder. -/
structure IsInstalled (s : Session μ) (package : String) (dir : Path) : Prop where
  root : ∃ root, s.settings.packagesRoot = some root ∧ dir = root.join ⟨package⟩
  folder : s.tree.isFolder dir = true

theorem installedPackage?_eq_some :
    installedPackage? s package = some dir ↔ IsInstalled s package dir := by
  unfold installedPackage?
  rw [Option.bind_eq_some_iff]
  constructor
  · rintro ⟨root, hroot, hdir⟩
    dsimp only at hdir
    split at hdir
    · next hfolder =>
      cases hdir
      exact ⟨⟨root, hroot, rfl⟩, hfolder⟩
    · cases hdir
  · rintro ⟨⟨root, hroot, rfl⟩, hfolder⟩
    exact ⟨root, hroot, if_pos hfolder⟩

/-- The one folder that a package is loaded from: the first local one, or else the installed
one. -/
inductive IsFolderOf (s : Session μ) (package : String) : Path → Prop
  | onSite {names : Key} : IsFirstLocal s package names →
      IsFolderOf s package (FileTree.walkPath s.searchRoot names)
  | installed {dir : Path} : (∀ names, ¬ IsLocal s package names) → IsInstalled s package dir →
      IsFolderOf s package dir

theorem packageFolder?_eq_some (ht : s.tree.Sound) :
    packageFolder? s package = some dir ↔ IsFolderOf s package dir := by
  unfold packageFolder?
  rw [Option.or_eq_some_iff, installedPackage?_eq_some, localPackage?_eq_some ht,
    localPackage?_eq_none ht]
  constructor
  · rintro (⟨names, hfirst, rfl⟩ | ⟨hnone, hinstalled⟩)
    · exact .onSite hfirst
    · exact .installed hnone hinstalled
  · rintro (hfirst | ⟨hnone, hinstalled⟩)
    · exact Or.inl ⟨_, hfirst, rfl⟩
    · exact Or.inr ⟨hnone, hinstalled⟩

theorem IsFolderOf.unique {other : Path} (h : IsFolderOf s package dir)
    (h' : IsFolderOf s package other) (ht : s.tree.Sound) : dir = other := by
  rw [← packageFolder?_eq_some ht] at h h'
  exact Option.some.inj (h.symm.trans h')

/-- An installed package is in the folder of packages, unless its name leads further down. -/
theorem IsInstalled.pieces {root : Path} (h : IsInstalled s package dir)
    (hroot : s.settings.packagesRoot = some root) (hslash : '/' ∉ package.toList) :
    dir.pieces = (if root.text = "" then [] else root.front) ++ [package] := by
  obtain ⟨⟨root', hroot', rfl⟩, -⟩ := h
  rw [hroot] at hroot'
  cases hroot'
  have hrelative : (Path.mk package).isAbsolute = false := by
    rw [Path.isAbsolute_eq, beq_eq_false_iff_ne]
    exact fun hhead => hslash (List.mem_of_head? hhead)
  rw [Path.pieces_join hrelative, Path.pieces_mk hslash]
  rfl

theorem hasNul_loop {as : ByteArray} (h : ∀ b ∈ as.data.toList, b ≠ 0) {stop : Nat}
    (hstop : stop ≤ as.size) (i j : Nat) :
    ByteArray.foldlM.loop (m := Id) (fun found byte => pure (found || byte == 0)) as stop hstop
      i j false = pure false := by
  induction i generalizing j with
  | zero =>
    unfold ByteArray.foldlM.loop
    split <;> rfl
  | succ i ih =>
    unfold ByteArray.foldlM.loop
    split
    · next hlt =>
      have hbyte : (as[j] == 0) = false := by
        rw [beq_eq_false_iff_ne, ByteArray.getElem_eq_getElem_data]
        exact h _ (Array.getElem_mem_toList _)
      rw [hbyte]
      exact ih (j + 1)
    · rfl

/-- A path whose bytes are none of them zero. -/
theorem FileTree.hasNul_eq_false {path : Path} (h : ∀ b ∈ bytes path.text, b ≠ 0) :
    hasNul path = false := by
  unfold hasNul ByteArray.foldl ByteArray.foldlM
  rw [dif_pos (Nat.le_refl _)]
  exact hasNul_loop h (Nat.le_refl _) _ _

/-- The working folder, with so many slashes behind it. -/
def slashedDot (n : Nat) : Path := .ofPieces ("." :: List.replicate n "")

namespace slashedDot

variable {n : Nat}

theorem pieces_eq : (slashedDot n).pieces = "." :: List.replicate n "" := by
  apply Path.pieces_ofPieces (List.cons_ne_nil _ _)
  simp [List.mem_replicate]

theorem size_eq : (slashedDot n).text.utf8ByteSize = n + 1 := by
  have hlength : FileTree.keyLength (List.replicate n "") = n := by
    induction n with
    | zero => rfl
    | succ n ih =>
      have hcons : FileTree.keyLength ("" :: List.replicate n "") =
          "".utf8ByteSize + 1 + FileTree.keyLength (List.replicate n "") := rfl
      have hempty : "".utf8ByteSize = 0 := rfl
      rw [List.replicate_succ, hcons, ih, hempty]
      omega
  have hdot : ".".utf8ByteSize = 1 := rfl
  rw [slashedDot, Path.size_ofPieces_cons, hlength, hdot]
  omega

theorem byte_ne_zero {b : UInt8} (h : b ∈ bytes (slashedDot n).text) : b ≠ 0 := by
  rw [← String.ofList_toList (s := (slashedDot n).text), bytes_ofList, List.mem_flatMap] at h
  obtain ⟨c, hc, hb⟩ := h
  have hchar : c = '.' ∨ c = '/' := by
    unfold slashedDot Path.ofPieces at hc
    rw [Pieces.toList_joinText, Pieces.join.eq_def] at hc
    simp only [List.map_cons, List.mem_append, List.mem_flatMap, List.mem_map] at hc
    rcases hc with hdot | ⟨_, ⟨piece, hpiece, rfl⟩, hslash⟩
    · exact Or.inl (by simpa using hdot)
    · rw [List.eq_of_mem_replicate hpiece] at hslash
      exact Or.inr (by simpa using hslash)
  rcases hchar with rfl | rfl
  · rw [show String.utf8EncodeChar '.' = [46] from rfl, List.mem_singleton] at hb
    rw [hb]
    decide
  · rw [show String.utf8EncodeChar '/' = [47] from rfl, List.mem_singleton] at hb
    rw [hb]
    decide

theorem openable (h : n + 1 < FileTree.pathLimit) : FileTree.Openable (slashedDot n) := by
  refine ⟨?_, ?_, FileTree.hasNul_eq_false fun b => byte_ne_zero⟩
  · unfold FileTree.isTooLong
    rw [size_eq, decide_eq_false_iff_not]
    omega
  · intro hempty
    have hsize := size_eq (n := n)
    rw [hempty] at hsize
    cases hsize

theorem follow_eq {t : FileTree} {purpose : Purpose} {links : Nat} {here : Key} :
    t.follow purpose links here (slashedDot n).pieces = .ok (.node here .folder) := by
  rw [pieces_eq, FileTree.follow_cons_idle (by decide)]
  induction n with
  | zero => exact FileTree.follow_nil
  | succ n ih => rw [List.replicate_succ, FileTree.follow_cons_idle (by decide), ih]

end slashedDot

end SourceMacros
