-- Walks over folders. A walk that is refused nowhere meets every file below a folder once, in
-- ascending order of names, and each by a path that leads to it.
import SourceMacros.Proofs.Bounds
import SourceMacros.Proofs.Placement

namespace SourceMacros

namespace FileTree

/-! ## The order of a walk -/

theorem keyLe_trans (a b c : Key) (h : keyLe a b = true) (h' : keyLe b c = true) :
    keyLe a c = true := by
  induction a generalizing b c with
  | nil => simp [keyLe]
  | cons x a ih =>
    cases b with
    | nil => cases h
    | cons y b =>
      cases c with
      | nil => cases h'
      | cons z c =>
        simp only [keyLe, Bool.or_eq_true, decide_eq_true_eq, Bool.and_eq_true, beq_iff_eq]
          at h h' ⊢
        rcases h with h | ⟨rfl, h⟩
        · rcases h' with h' | ⟨rfl, -⟩
          · exact Or.inl (String.lt_trans h h')
          · exact Or.inl h
        · rcases h' with h' | ⟨rfl, h'⟩
          · exact Or.inl h'
          · exact Or.inr ⟨rfl, ih b c h h'⟩

theorem keyLe_total (a b : Key) : keyLe a b = true ∨ keyLe b a = true := by
  induction a generalizing b with
  | nil => simp [keyLe]
  | cons x a ih =>
    cases b with
    | nil => simp [keyLe]
    | cons y b =>
      simp only [keyLe, Bool.or_eq_true, decide_eq_true_eq, Bool.and_eq_true, beq_iff_eq]
      by_cases hlt : x < y
      · exact Or.inl (Or.inl hlt)
      by_cases hgt : y < x
      · exact Or.inr (Or.inl hgt)
      have heq : x = y := String.le_antisymm hgt hlt
      subst heq
      exact (ih b).imp (fun h => Or.inr ⟨rfl, h⟩) fun h => Or.inr ⟨rfl, h⟩

/-- One key comes before another in a walk. -/
def Precedes (a b : Key) : Prop := keyLe a b = true ∧ a ≠ b

variable {t t' : FileTree} {key root names : Key} {node : Node} {dir : Path}

/-! ## What lies below a key -/

theorem mem_below_iff (ht : t.Sound) :
    (names, node) ∈ t.below root ↔ names ≠ [] ∧ t.get? (root ++ names) = some node := by
  unfold below
  rw [Sorting.mem_sort]
  simp only [List.mem_map, List.mem_reverse, List.mem_filter, Prod.exists, Bool.and_eq_true,
    List.isPrefixOf_iff_prefix, bne_iff_ne, Prod.mk.injEq]
  constructor
  · rintro ⟨k, node', ⟨hmem, ⟨more, rfl⟩, hne⟩, hdrop, rfl⟩
    rw [List.drop_left] at hdrop
    subst hdrop
    exact ⟨fun hnil => hne (by simp [hnil]), ht.get?_of_mem hmem⟩
  · rintro ⟨hne, hget⟩
    exact ⟨root ++ names, node, ⟨mem_nodes_of_get? (by simp [hne]) hget,
      List.prefix_append root names, by simpa using hne⟩, List.drop_left, rfl⟩

/-- A walk goes down in ascending order, and meets nothing twice. -/
theorem pairwise_below (ht : t.Sound) (root : Key) :
    (t.below root).Pairwise fun a b => Precedes a.1 b.1 := by
  have hsorted : (t.below root).Pairwise fun a b => keyLe a.1 b.1 = true :=
    Sorting.pairwise_sort _ (fun a b c => keyLe_trans a.1 b.1 c.1)
      (fun a b => keyLe_total a.1 b.1) _
  have hdistinct : (t.below root).Pairwise fun a b => a.1 ≠ b.1 := by
    unfold below
    rw [(Sorting.perm_sort _ _).pairwise_iff fun h => Ne.symm h, List.pairwise_map,
      List.pairwise_reverse]
    have hnodes := (List.pairwise_map.mp ht.distinct).filter
      (fun entry => root.isPrefixOf entry.1 && entry.1 != root)
    refine hnodes.imp_of_mem ?_
    intro a b ha hb hne hdrop
    have hprefix : ∀ entry ∈ t.nodes.filter fun entry =>
        root.isPrefixOf entry.1 && entry.1 != root, root <+: entry.1 := by
      intro entry hentry
      have hinside := (List.mem_filter.mp hentry).2
      rw [Bool.and_eq_true, List.isPrefixOf_iff_prefix] at hinside
      exact hinside.1
    obtain ⟨more, hmore⟩ := hprefix a ha
    obtain ⟨more', hmore'⟩ := hprefix b hb
    have hsame : more' = more := by
      simpa only [← hmore, ← hmore', List.drop_left] using hdrop
    exact hne (by rw [← hmore, ← hmore', hsame])
  exact hsorted.and hdistinct

/-! ## Walks that are refused nowhere -/

theorem follow_reach_of_inspect {n : Nat} {here : Key} {ps : List String}
    (hnode : ∀ target, node ≠ .link target)
    (h : t.follow .inspect n here ps = .ok (.node key node)) :
    t.follow .reach n here ps = .ok (.node key node) := by
  induction n using Nat.strongRecOn generalizing here ps with
  | ind n ihn =>
    induction ps generalizing here with
    | nil =>
      rw [follow_nil] at h ⊢
      exact h
    | cons piece ps ih =>
      by_cases hidle : Path.isIdle piece = true
      · rw [follow_cons_idle hidle] at h ⊢
        exact ih h
      by_cases hup : piece = ".."
      · subst hup
        rw [follow_cons_up] at h ⊢
        exact ih h
      have hpiece : Path.IsName piece := ⟨by simpa using hidle, hup⟩
      have hshort := (fits_of_follow hpiece h).1
      rw [follow_cons_name (by decide) hpiece (by simp) hshort] at h ⊢
      split at h
      · exact ih h
      · exact h
      · next target hget =>
        split at h
        · cases h
          exact absurd rfl (hnode target)
        · rw [if_neg (by simp)]
          cases n with
          | zero => cases h
          | succ n => exact ihn n (Nat.lt_succ_self n) h
      · exact h

/-- What stands at a path and is no link is also reached by it. -/
theorem find_reach_of_inspect (hnode : ∀ target, node ≠ .link target)
    (h : t.find dir .inspect = .ok (.node key node)) :
    t.find dir .reach = .ok (.node key node) := by
  rw [find_eq_ok] at h ⊢
  exact ⟨h.1, follow_reach_of_inspect hnode h.2⟩

/-- A file that a walk meets: the one at the path itself, or one below the folder that the path
leads to. The names are those on the way to it from there. -/
inductive Meets (t : FileTree) (dir : Path) : Key → Key → Prop
  | self {key : Key} {content : ByteArray} :
      t.find dir .inspect = .ok (.node key (.file content)) → Meets t dir [] key
  | below {root names : Key} {content : ByteArray} :
      t.find dir .reach = .ok (.node root .folder) →
      t.get? (root ++ names) = some (.file content) → Meets t dir names (root ++ names)

/-- The path by which a walk meets what lies at names below it. -/
def walkPath (dir : Path) (names : Key) : Path :=
  if names = [] then dir else dir.join (Path.ofPieces names)

/-- A walk that is refused nowhere goes into every folder. -/
theorem visit_of_mem (ht : t.Sound)
    (hopen : ∀ path cause, .refused path cause ∉
      (t.below root).flatMap fun entry => visit dir entry.1 entry.2)
    (h : (names, node) ∈ t.below root) :
    visit dir names node = [.entry (walkPath dir names) names node] := by
  induction hlength : names.length using Nat.strongRecOn generalizing names node with
  | ind n ih =>
    obtain ⟨hne, hget⟩ := (mem_below_iff ht).mp h
    have hpath : walkPath dir names = dir.join (Path.ofPieces names) := if_neg hne
    -- A folder with too long a path would be refused itself.
    have hentered : ¬ (names.dropLast ≠ [] ∧
        isTooLong (dir.join (Path.ofPieces names.dropLast)) = true) := by
      rintro ⟨hparent, hlong⟩
      have hfolder : t.get? (root ++ names.dropLast) = some .folder := by
        have hdrop := ht.folder_dropLast hget
        rwa [List.dropLast_append_of_ne_nil hne] at hdrop
      have hshorter : names.dropLast.length < n := by
        have := List.length_pos_iff.mpr hne
        rw [List.length_dropLast]
        omega
      have hvisit := ih _ hshorter ((mem_below_iff ht).mpr ⟨hparent, hfolder⟩) rfl
      unfold visit at hvisit
      dsimp only at hvisit
      rw [hlong] at hvisit
      split at hvisit
      · cases hvisit
      · simp [Node.isFolder] at hvisit
    have hclear : (node.isFolder && isTooLong (dir.join (Path.ofPieces names))) = false := by
      rw [Bool.eq_false_iff]
      intro hlong
      refine hopen (dir.join (Path.ofPieces names)) .nameTooLong (List.mem_flatMap.mpr ⟨_, h, ?_⟩)
      unfold visit
      dsimp only
      rw [if_neg hentered, if_pos hlong]
      exact List.mem_cons_of_mem _ List.mem_cons_self
    unfold visit
    dsimp only
    rw [if_neg hentered, hclear, hpath]
    rfl

theorem flatMap_visit (ht : t.Sound)
    (hopen : ∀ path cause, .refused path cause ∉
      (t.below root).flatMap fun entry => visit dir entry.1 entry.2) :
    ((t.below root).flatMap fun entry => visit dir entry.1 entry.2) =
      (t.below root).map fun entry => .entry (walkPath dir entry.1) entry.1 entry.2 := by
  rw [List.map_eq_flatMap]
  exact List.flatMap_congr fun entry hentry => visit_of_mem ht hopen hentry

/-- The names of the files among some entries that pass a test. -/
def filesAmong (test : Key → Bool) (entries : List (Key × Node)) : List Key :=
  entries.filterMap fun
    | (names, .file _) => if test names then some names else none
    | _ => none

theorem mem_filesAmong {test : Key → Bool} {entries : List (Key × Node)} :
    names ∈ filesAmong test entries ↔
      test names = true ∧ ∃ content, (names, .file content) ∈ entries := by
  unfold filesAmong
  rw [List.mem_filterMap]
  constructor
  · rintro ⟨⟨other, node⟩, hmem, hpick⟩
    split at hpick
    · next content heq =>
      cases heq
      split at hpick
      · next htest =>
        cases hpick
        exact ⟨htest, content, hmem⟩
      · cases hpick
    · cases hpick
  · rintro ⟨htest, content, hmem⟩
    exact ⟨_, hmem, by simp [htest]⟩

theorem pairwise_filesAmong {test : Key → Bool} {entries : List (Key × Node)}
    {R : Key → Key → Prop} (h : entries.Pairwise fun a b => R a.1 b.1) :
    (filesAmong test entries).Pairwise R := by
  refine h.filterMap _ ?_
  rintro ⟨a, node⟩ ⟨b, node'⟩ hab a' ha' b' hb'
  split at ha'
  · next heq =>
    cases heq
    split at hb'
    · next heq' =>
      cases heq'
      simp only [Option.ite_none_right_eq_some, Option.some.injEq] at ha' hb'
      rw [← ha'.2, ← hb'.2]
      exact hab
    · cases hb'
  · cases ha'

/-- The path of a file that a walk meets, if it passes a test. -/
def chosen? (test : Path → Bool) : Visit → Option Path
  | .entry path _ (.file _) => if test path then some path else none
  | _ => none

/-- The files that pass a test among those that a walk meets. -/
structure Chosen (t : FileTree) (dir : Path) (test : Path → Bool) (found : List Key) : Prop where
  ascending : found.Pairwise Precedes
  complete : ∀ names, names ∈ found ↔
    (∃ key, t.Meets dir names key) ∧ test (walkPath dir names) = true

theorem chosen_below (ht : t.Sound) (test : Path → Bool)
    (hroot : t.find dir .reach = .ok (.node root .folder))
    (hself : ∀ key content, t.find dir .inspect ≠ .ok (.node key (.file content)))
    (hopen : ∀ path cause, .refused path cause ∉
      (t.below root).flatMap fun entry => visit dir entry.1 entry.2) :
    ∃ found, ((t.below root).flatMap fun entry => visit dir entry.1 entry.2).filterMap
        (chosen? test) = found.map (walkPath dir) ∧ t.Chosen dir test found := by
  refine ⟨filesAmong (fun names => test (walkPath dir names)) (t.below root), ?_, ?_, ?_⟩
  · rw [flatMap_visit ht hopen, List.filterMap_map]
    unfold filesAmong
    rw [List.map_filterMap]
    apply List.filterMap_congr
    rintro ⟨names, node⟩ _
    cases node with
    | file content =>
      dsimp only [Function.comp_apply, chosen?]
      split <;> rfl
    | folder => rfl
    | link target => rfl
  · exact pairwise_filesAmong (pairwise_below ht root)
  · intro names
    rw [mem_filesAmong]
    simp only [mem_below_iff ht]
    constructor
    · rintro ⟨htest, content, -, hget⟩
      exact ⟨⟨_, .below hroot hget⟩, htest⟩
    · rintro ⟨⟨key, hmeets⟩, htest⟩
      refine ⟨htest, ?_⟩
      cases hmeets with
      | self hfind => exact absurd hfind (hself _ _)
      | @below root' _ content hfind hget =>
        rw [hroot] at hfind
        cases hfind
        refine ⟨content, ?_, hget⟩
        rintro rfl
        have hfolder : t.get? root = some .folder := ht.find_stands (by decide) hroot
        rw [List.append_nil, hfolder] at hget
        cases hget

/-- A walk that is refused nowhere finds every file that passes a test. -/
theorem chosen_walk (ht : t.Sound) (test : Path → Bool)
    (hopen : ∀ path cause, .refused path cause ∉ t.walk dir) :
    ∃ found, (t.walk dir).filterMap (chosen? test) = found.map (walkPath dir) ∧
      t.Chosen dir test found := by
  unfold walk at hopen ⊢
  dsimp only at hopen ⊢
  split at hopen
  · exact absurd List.mem_cons_self (hopen _ _)
  · exact absurd List.mem_cons_self (hopen _ _)
  · next root hfind =>
    exact chosen_below ht test (find_reach_of_inspect (by simp) hfind) (by simp [hfind])
      fun path cause hmem => hopen path cause (List.mem_cons_of_mem _ hmem)
  · next target hfind =>
    split at hopen
    · next root hroot =>
      exact chosen_below ht test hroot (by simp [hfind])
        fun path cause hmem => hopen path cause (List.mem_cons_of_mem _ hmem)
    · next node hnode hroot =>
      refine ⟨[], rfl, List.Pairwise.nil, ?_⟩
      intro names
      refine ⟨by simp, ?_⟩
      rintro ⟨⟨key, hmeets⟩, -⟩
      cases hmeets with
      | self hfile =>
        rw [hfind] at hfile
        cases hfile
      | below hfolder _ =>
        rw [hroot] at hfolder
        cases hfolder
        exact (hnode rfl).elim
    · exact absurd List.mem_cons_self (hopen _ _)
    · exact absurd List.mem_cons_self (hopen _ _)
  · next key node hfolder hlink hfind =>
    cases node with
    | folder => exact (hfolder rfl).elim
    | link target => exact (hlink target rfl).elim
    | file content =>
      have hreach := find_reach_of_inspect hlink hfind
      have hmeets : ∀ names key', t.Meets dir names key' → names = [] := by
        intro names key' hmeets
        cases hmeets with
        | self _ => rfl
        | below hfolder _ =>
          rw [hreach] at hfolder
          cases hfolder
      refine ⟨if test dir then [[]] else [], ?_, ?_, ?_⟩
      · cases htest : test dir <;> simp [chosen?, htest, walkPath]
      · split
        · exact List.pairwise_singleton _ _
        · exact List.Pairwise.nil
      · intro names
        constructor
        · intro hnames
          split at hnames
          · next htest =>
            rw [List.mem_singleton.mp hnames]
            exact ⟨⟨key, .self hfind⟩, htest⟩
          · cases hnames
        · rintro ⟨⟨key', hkey'⟩, htest⟩
          cases hmeets names key' hkey'
          have htest : test dir = true := htest
          simp [htest]

end FileTree

namespace Path

variable {p : Path} {names : Key}

/-- The pieces of a folder's path that come before those of what lies in it. -/
def front (p : Path) : List String := if p.endsInSlash then p.pieces.dropLast else p.pieces

theorem isAbsolute_ofPieces (hne : names ≠ []) (hnames : ∀ name ∈ names, FileTree.Spelled name) :
    (ofPieces names).isAbsolute = false := by
  rw [Bool.eq_false_iff]
  intro habsolute
  obtain ⟨rest, -, hrest⟩ := head_of_isAbsolute habsolute
  rw [pieces_ofPieces hne fun name hname => (hnames name hname).2] at hrest
  exact (hnames "" (by simp [hrest])).1.ne_empty rfl

theorem pieces_walkPath (hp : p.text ≠ "") (hne : names ≠ [])
    (hnames : ∀ name ∈ names, FileTree.Spelled name) :
    (FileTree.walkPath p names).pieces = p.front ++ names := by
  unfold FileTree.walkPath
  rw [if_neg hne, pieces_join (isAbsolute_ofPieces hne hnames), if_neg hp,
    pieces_ofPieces hne fun name hname => (hnames name hname).2]
  rfl

theorem isAbsolute_append {p q : Path} {text : String} (hp : p.text ≠ "")
    (hq : q.text = p.text ++ text) : q.isAbsolute = p.isAbsolute := by
  have hne : p.text.toList ≠ [] := by simpa using hp
  rw [isAbsolute_eq, isAbsolute_eq, hq, String.toList_append, List.head?_append_of_ne_nil _ hne]

theorem isAbsolute_walkPath (hp : p.text ≠ "") (hnames : ∀ name ∈ names, FileTree.Spelled name) :
    (FileTree.walkPath p names).isAbsolute = p.isAbsolute := by
  unfold FileTree.walkPath
  split
  · rfl
  next hne =>
  unfold join
  rw [isAbsolute_ofPieces hne hnames]
  simp only [Bool.false_or, beq_iff_eq, hp, if_false]
  split
  · exact isAbsolute_append hp rfl
  · exact isAbsolute_append hp String.append_assoc

/-! ## Paths with the same components -/

theorem componentOf_inj {names others : List String} (hnames : ∀ name ∈ names, IsName name)
    (hothers : ∀ name ∈ others, IsName name)
    (h : names.map componentOf = others.map componentOf) : names = others := by
  have hnormal : ∀ {names : List String}, (∀ name ∈ names, IsName name) →
      names.map componentOf = names.map .normal := by
    intro names hnames
    apply List.map_congr_left
    intro name hname
    simp [componentOf, (hnames name hname).2]
  rw [hnormal hnames, hnormal hothers] at h
  exact List.map_injective_iff.mpr (fun _ _ => Component.normal.inj) h

/-- Paths in one folder are the same only if the names behind that folder are. -/
theorem eq_of_same {p q : Path} {front names others : List String} (hfront : front ≠ [])
    (hp : p.pieces = front ++ names) (hq : q.pieces = front ++ others) (hne : names ≠ [])
    (hne' : others ≠ []) (hnames : ∀ name ∈ names, IsName name)
    (hothers : ∀ name ∈ others, IsName name) (h : p.same q = true) : names = others := by
  obtain ⟨first, more, rfl⟩ := List.exists_cons_of_ne_nil hfront
  have hlast : ∀ {names : List String}, (∀ name ∈ names, IsName name) →
      names.filter (!isIdle ·) = names := by
    intro names hnames
    apply List.filter_eq_self.mpr
    intro name hname
    simp [(hnames name hname).1]
  have hcomponents : ∀ {p : Path} {names : List String}, p.pieces = first :: more ++ names →
      names ≠ [] → (∀ name ∈ names, IsName name) →
      p.components = (if first = "" then .root :: (more.filter (!isIdle ·)).map componentOf else
        if first = "." then .here :: (more.filter (!isIdle ·)).map componentOf else
          ((first :: more).filter (!isIdle ·)).map componentOf) ++ names.map componentOf := by
    intro p names hp hne hnames
    have habsolute := isAbsolute_of_pieces hp (by simp [hne])
    have hanchored : p.anchored = if first = "" ∨ first = "." then ([first], more ++ names)
        else ([], first :: more ++ names) := by
      simp [anchored, hp, habsolute]
    unfold components
    rw [hanchored, habsolute]
    by_cases hempty : first = ""
    · simp [hempty, hlast hnames]
    · by_cases hdot : first = "."
      · simp [hdot, hlast hnames]
      · rw [if_neg (by simp [hempty, hdot]), if_neg hempty, if_neg hdot]
        dsimp only
        rw [List.filter_append, hlast hnames, List.map_append]
        simp [hempty]
  unfold same at h
  rw [beq_iff_eq, hcomponents hp hne hnames, hcomponents hq hne' hothers] at h
  exact componentOf_inj hnames hothers (List.append_cancel_left h)

end Path

namespace FileTree

variable {t t' : FileTree} {key root names : Key} {dir : Path} {m n : Nat}

/-- The names of folders lead down to the last of them. -/
theorem way_down (ht : t.Sound) (hget : t.get? (root ++ names) = some .folder)
    (hshort : ∀ name ∈ names, name.utf8ByteSize ≤ nameLimit) :
    t.Way n root names n (root ++ names) := by
  induction names generalizing root with
  | nil =>
    rw [List.append_nil]
    exact .here n root
  | cons name names ih =>
    have hspelled : Spelled name := ht.spelled_of_get? hget (by simp)
    rw [List.append_cons] at hget ⊢
    refine .down hspelled.1 (hshort name List.mem_cons_self) ?_
      (ih hget fun other hother => hshort other (List.mem_cons_of_mem _ hother))
    by_cases hnil : names = []
    · simpa [hnil] using hget
    · exact ht.folder_of_below hnil hget

theorem way_front (hp : t.Way n root dir.pieces m key) : t.Way n root dir.front m key := by
  unfold Path.front
  split
  · next hslash =>
    obtain ⟨text, -, hpieces⟩ := Path.pieces_of_endsInSlash hslash
    rw [hpieces] at hp
    rw [hpieces, List.dropLast_concat]
    exact hp.of_concat_empty
  · exact hp

/-- A file that a walk meets is named by its path, as long as that path leads anywhere. -/
theorem Meets.enters {folder' : Key} {name' : String} (h : t.Meets dir names key) (ht : t.Sound)
    (h' : t'.Enters (walkPath dir names) folder' name') :
    ∃ folder, key = folder ++ [name'] ∧ t.Enters (walkPath dir names) folder name' := by
  cases h with
  | @self key content hfind =>
    obtain ⟨init, name, hpieces, hname⟩ := name_of_follow (by decide) (Or.inl ⟨_, _, rfl⟩)
      (find_eq_ok.mp hfind).2
    obtain ⟨folder, henters⟩ := enters_of_find (by decide) hpieces hname hfind
    obtain rfl : name' = name := Option.some.inj (h'.fileName.symm.trans henters.fileName)
    refine ⟨folder, ?_, henters⟩
    rw [henters.find (by decide) (Or.inl rfl)] at hfind
    split at hfind
    · cases hfind
      rfl
    · cases hfind
  | @below root _ content hroot hget =>
    obtain ⟨hopenable, hfollow⟩ := find_eq_ok.mp hroot
    obtain ⟨m, hway⟩ := way_of_folder (by decide) (by decide) hfollow
    have hfolder : t.get? root = some .folder := ht.find_stands (by decide) hroot
    have hspelled : ∀ name ∈ names, Spelled name := fun name hname =>
      ht.spelled_of_get? hget (List.mem_append_right root hname)
    rcases List.eq_nil_or_concat names with rfl | ⟨init, name, rfl⟩
    · rw [List.append_nil, hfolder] at hget
      cases hget
    rw [List.concat_eq_append] at *
    have hpieces := Path.pieces_walkPath hopenable.nonempty (by simp) hspelled
    rw [← List.append_assoc] at hpieces hget
    obtain ⟨init', m', hpieces', hway'⟩ := h'.way
    rw [hpieces] at hpieces'
    obtain ⟨rfl, hlast⟩ := List.append_inj' hpieces' rfl
    cases hlast
    have hinit : t.Way m root init m (root ++ init) := by
      refine way_down ht (ht.parent hget) ?_
      intro other hother
      exact hway'.short (List.mem_append_right _ hother) (hspelled other (by simp [hother])).1
    refine ⟨root ++ init, by simp, h'.openable, h'.named, h'.short, dir.front ++ init, m, hpieces,
      ?_⟩
    have hbase : t.base (walkPath dir (init ++ [name'])) = t.base dir := by
      unfold base
      rw [Path.isAbsolute_walkPath hopenable.nonempty hspelled]
    rw [hbase]
    exact (way_front hway).append hinit

end FileTree

/-- The sources below a folder are its files with the name of a source. -/
theorem sourcesBelow_eq_ok {μ : Type} {s : Session μ} {dir : Path} {sources : List Path}
    (ht : s.tree.Sound) (h : sourcesBelow s dir = .ok sources) :
    ∃ found, sources = found.map (FileTree.walkPath dir) ∧
      s.tree.Chosen dir s.settings.isSource found := by
  unfold sourcesBelow at h
  dsimp only at h
  split at h
  · cases h
  next hrefused =>
  have hopen : ∀ path cause, .refused path cause ∉ s.tree.walk dir := by
    intro path cause hmem
    have hnone := List.findSome?_eq_none_iff.mp hrefused _ hmem
    cases hnone
  obtain ⟨found, hfound, hchosen⟩ := FileTree.chosen_walk ht s.settings.isSource hopen
  refine ⟨found, ?_, hchosen⟩
  rw [← hfound]
  cases h
  apply List.filterMap_congr
  intro visit _
  unfold FileTree.chosen?
  rfl

end SourceMacros
