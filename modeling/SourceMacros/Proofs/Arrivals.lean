-- Arrivals: the ways of paths up to a file, through the links on the way and the links that name the
-- file itself. A path arrives at the same place for as long as the folders and the links that it
-- crosses are there, and what is read, filled and taken as the one path of a file depends on that
-- place alone.
import SourceMacros.Proofs.Placement

namespace SourceMacros

namespace FileTree

variable {t t' : FileTree} {purpose : Purpose} {n : Nat} {here key : Key} {links : List Key}
  {ps rest : List String} {piece : String} {found : Found} {path : Path} {content : ByteArray}

/-! ## Arriving -/

/-- Pieces lead from a folder to a place, by so many links at most. The links that they cross are
listed in order. -/
inductive Arrives (t : FileTree) : Nat → Key → List String → List Key → Key → Prop
  | last {n : Nat} {here : Key} {name : String} :
      Path.IsName name → name.utf8ByteSize ≤ nameLimit →
      Arrives t n here [name] [] (here ++ [name])
  | idle {n : Nat} {here key : Key} {links : List Key} {piece : String} {rest : List String} :
      Path.isIdle piece = true → Arrives t n here rest links key →
      Arrives t n here (piece :: rest) links key
  | up {n : Nat} {here key : Key} {links : List Key} {rest : List String} :
      Arrives t n here.dropLast rest links key → Arrives t n here (".." :: rest) links key
  | down {n : Nat} {here key : Key} {links : List Key} {piece : String} {rest : List String} :
      Path.IsName piece → piece.utf8ByteSize ≤ nameLimit →
      t.get? (here ++ [piece]) = some .folder → Arrives t n (here ++ [piece]) rest links key →
      Arrives t n here (piece :: rest) links key
  | through {n : Nat} {here key : Key} {links : List Key} {piece : String} {rest : List String}
      {target : Path} :
      Path.IsName piece → piece.utf8ByteSize ≤ nameLimit →
      t.get? (here ++ [piece]) = some (.link target) →
      Arrives t n (if target.isAbsolute then [] else here) (target.pieces ++ rest) links key →
      Arrives t (n + 1) here (piece :: rest) ((here ++ [piece]) :: links) key

/-- What arrives somewhere ends in a name. -/
theorem Arrives.named (h : t.Arrives n here ps links key) :
    ∃ init name, ps = init ++ [name] ∧ Path.IsName name := by
  have hcons : ∀ {rest : List String} (piece : String),
      (∃ init name, rest = init ++ [name] ∧ Path.IsName name) →
        ∃ init name, piece :: rest = init ++ [name] ∧ Path.IsName name := by
    rintro _ piece ⟨init, name, rfl, hname⟩
    exact ⟨piece :: init, name, rfl, hname⟩
  induction h with
  | @last _ _ name hname _ => exact ⟨[], name, rfl, hname⟩
  | idle _ _ ih => exact hcons _ ih
  | up _ ih => exact hcons _ ih
  | down _ _ _ _ ih => exact hcons _ ih
  | @through _ _ _ _ piece rest _ hpiece _ _ _ ih =>
    rcases List.eq_nil_or_concat rest with rfl | ⟨before, last, rfl⟩
    · exact ⟨[], piece, rfl, hpiece⟩
    · obtain ⟨init, name, heq, hname⟩ := ih
      rw [List.concat_eq_append, ← List.append_assoc] at heq
      obtain ⟨-, hlast⟩ := List.append_inj' heq rfl
      cases hlast
      exact ⟨piece :: before, last, by simp, hname⟩

theorem Arrives.not_trailing (h : t.Arrives n here (piece :: rest) links key) :
    isTrailing rest = false := by
  obtain ⟨init, name, heq, hname⟩ := h.named
  cases init with
  | nil =>
    cases heq
    rfl
  | cons first init =>
    cases heq
    exact isTrailing_concat hname.ne_empty init

theorem Arrives.ne_root (h : t.Arrives n here ps links key) : key ≠ [] := by
  induction h with
  | last => simp
  | idle _ _ ih => exact ih
  | up _ ih => exact ih
  | down _ _ _ _ ih => exact ih
  | through _ _ _ _ ih => exact ih

/-- Every link that is crossed is there. -/
theorem Arrives.link (h : t.Arrives n here ps links key) {link : Key} (hlink : link ∈ links) :
    ∃ target, t.get? link = some (.link target) := by
  induction h with
  | last => cases hlink
  | idle _ _ ih => exact ih hlink
  | up _ ih => exact ih hlink
  | down _ _ _ _ ih => exact ih hlink
  | through _ _ hget _ ih =>
    rcases List.mem_cons.mp hlink with rfl | hlink
    · exact ⟨_, hget⟩
    · exact ih hlink

/-- The place stays while folders and the links on the way do. -/
theorem Arrives.stays (h : t.Arrives n here ps links key)
    (hfolders : ∀ other, t.get? other = some .folder → t'.get? other = some .folder)
    (hlinks : ∀ link ∈ links, t'.get? link = t.get? link) : t'.Arrives n here ps links key := by
  induction h with
  | last hname hshort => exact .last hname hshort
  | idle hidle _ ih => exact .idle hidle (ih hlinks)
  | up _ ih => exact .up (ih hlinks)
  | down hpiece hshort hget _ ih => exact .down hpiece hshort (hfolders _ hget) (ih hlinks)
  | through hpiece hshort hget _ ih =>
    refine .through hpiece hshort ?_ (ih fun link hlink => hlinks link (List.mem_cons_of_mem _ hlink))
    rw [hlinks _ List.mem_cons_self]
    exact hget

/-- While a tree evolves the links on a way stay, or the way ends where a file took the place of one
of them. -/
theorem Arrives.evolve {links' : List Key} {key' : Key} (h : t.Arrives n here ps links key)
    (h' : t'.Arrives n here ps links' key') (ht : t.Unlinked) (hevolves : t.Evolves t')
    (hfile : t'.get? key' = some (.file content)) :
    (∀ link ∈ links, t'.get? link = t.get? link) ∨ key' ∈ links := by
  induction h generalizing links' with
  | last => exact Or.inl (by simp)
  | idle hidle _ ih =>
    cases h' with
    | last hname => simp [hname.1] at hidle
    | idle _ h' => exact ih h'
    | up => cases hidle
    | down hname => simp [hname.1] at hidle
    | through hname => simp [hname.1] at hidle
  | up _ ih =>
    cases h' with
    | last hname => exact absurd rfl hname.2
    | idle hidle => cases hidle
    | up h' => exact ih h'
    | down hname => exact absurd rfl hname.2
    | through hname => exact absurd rfl hname.2
  | down hpiece _ hget hrest ih =>
    have hget' := hevolves.folders _ hget
    cases h' with
    | last => exact absurd hrest.named (by simp)
    | idle hidle => simp [hpiece.1] at hidle
    | up => exact absurd rfl hpiece.2
    | down _ _ _ h' => exact ih h'
    | through _ _ hlink => simp [hget'] at hlink
  | through hpiece _ hget _ ih =>
    rcases hevolves.lasting _ _ (ht _ _ hget) hget (by simp) with hget' | ⟨content', hget'⟩
    · cases h' with
      | last => simp [hget'] at hfile
      | idle hidle => simp [hpiece.1] at hidle
      | up => exact absurd rfl hpiece.2
      | down _ _ hfolder => simp [hget'] at hfolder
      | through _ _ hlink h' =>
        rw [hget'] at hlink
        cases hlink
        refine (ih h').imp (fun hstay => ?_) (List.mem_cons_of_mem _)
        exact List.forall_mem_cons.mpr ⟨hget'.trans hget.symm, hstay⟩
    · cases h' with
      | last => exact Or.inr List.mem_cons_self
      | idle hidle => simp [hpiece.1] at hidle
      | up => exact absurd rfl hpiece.2
      | down _ _ hfolder => simp [hget'] at hfolder
      | through _ _ hlink => simp [hget'] at hlink

/-! ## Lookups -/

/-- A file that is found, or that is about to be made, is arrived at. -/
theorem arrives_of_follow (hp : purpose = .reach ∨ purpose = .fill)
    (h : t.follow purpose n here ps = .ok found)
    (hfound : (∃ content, found = .node key (.file content)) ∨
      purpose = .fill ∧ found = .missing key) :
    ∃ links, t.Arrives n here ps links key ∧
      ∀ node, t.get? key = some node → ∃ content, node = .file content := by
  have hidentify : purpose ≠ .identify := by rcases hp with rfl | rfl <;> decide
  have hinspect : purpose ≠ .inspect := by rcases hp with rfl | rfl <;> decide
  induction n using Nat.strongRecOn generalizing here ps with
  | ind n ihn =>
    induction ps generalizing here with
    | nil =>
      rw [follow_nil] at h
      cases h
      simp at hfound
    | cons piece ps ih =>
      by_cases hidle : Path.isIdle piece = true
      · rw [follow_cons_idle hidle] at h
        obtain ⟨links, harrives, hkey⟩ := ih h
        exact ⟨links, .idle hidle harrives, hkey⟩
      by_cases hup : piece = ".."
      · subst hup
        rw [follow_cons_up] at h
        obtain ⟨links, harrives, hkey⟩ := ih h
        exact ⟨links, .up harrives, hkey⟩
      have hpiece : Path.IsName piece := ⟨by simpa using hidle, hup⟩
      obtain ⟨hshort, htrailing⟩ := fits_of_follow hpiece h
      rw [follow_cons_name hidentify hpiece htrailing hshort] at h
      split at h
      · next hget =>
        obtain ⟨links, harrives, hkey⟩ := ih h
        exact ⟨links, .down hpiece hshort hget harrives, hkey⟩
      · next content hget =>
        split at h
        · next hempty =>
          cases h
          obtain ⟨other, hother⟩ | ⟨-, hmissing⟩ := hfound
          · cases hother
            obtain rfl := List.isEmpty_iff.mp hempty
            refine ⟨[], .last hpiece hshort, ?_⟩
            intro node hnode
            rw [hget] at hnode
            cases hnode
            exact ⟨content, rfl⟩
          · cases hmissing
        · cases h
      · next target hget =>
        rw [if_neg fun hlast => hinspect hlast.2] at h
        cases n with
        | zero => cases h
        | succ n =>
          obtain ⟨links, harrives, hkey⟩ := ihn n (Nat.lt_succ_self n) h
          exact ⟨_, .through hpiece hshort hget harrives, hkey⟩
      · next hget =>
        split at h
        · next hempty =>
          cases h
          obtain ⟨other, hother⟩ | ⟨hfill, hmissing⟩ := hfound
          · cases hother
          · cases hmissing
            have hnot := htrailing hfill
            unfold isTrailing at hnot
            rw [hempty] at hnot
            obtain rfl : ps = [] := by simpa using hnot
            refine ⟨[], .last hpiece hshort, ?_⟩
            intro node hnode
            rw [hget] at hnode
            cases hnode
        · cases h

/-- A file where a path arrives is found. -/
theorem Arrives.follow (h : t.Arrives n here ps links key)
    (hp : purpose = .reach ∨ purpose = .fill) (hfile : t.get? key = some (.file content)) :
    t.follow purpose n here ps = .ok (.node key (.file content)) := by
  have hidentify : purpose ≠ .identify := by rcases hp with rfl | rfl <;> decide
  have hinspect : purpose ≠ .inspect := by rcases hp with rfl | rfl <;> decide
  induction h with
  | last hname hshort =>
    rw [follow_cons_name hidentify hname (fun _ => rfl) hshort, hfile]
    rfl
  | idle hidle _ ih =>
    rw [follow_cons_idle hidle]
    exact ih hfile
  | up _ ih =>
    rw [follow_cons_up]
    exact ih hfile
  | down hpiece hshort hget hrest ih =>
    have htrailing := (Arrives.down hpiece hshort hget hrest).not_trailing
    rw [follow_cons_name hidentify hpiece (fun _ => htrailing) hshort, hget]
    exact ih hfile
  | through hpiece hshort hget hrest ih =>
    have htrailing := (Arrives.through hpiece hshort hget hrest).not_trailing
    rw [follow_cons_name hidentify hpiece (fun _ => htrailing) hshort, hget]
    dsimp only
    rw [if_neg fun hlast => hinspect hlast.2]
    exact ih hfile

/-- What the search for a canonical path does with a piece that is a name. -/
theorem identify_cons_name (hpiece : Path.IsName piece) (hshort : piece.utf8ByteSize ≤ nameLimit) :
    t.follow .identify n here (piece :: rest) =
      if pathLimit ≤ keyLength (here ++ [piece]) then .error .nameTooLong
      else
        match t.get? (here ++ [piece]) with
        | some .folder => t.follow .identify n (here ++ [piece]) rest
        | some (.file content) =>
          if rest.isEmpty then .ok (.node (here ++ [piece]) (.file content))
          else .error .notDirectory
        | some (.link target) =>
          t.behindLink .identify n (if target.isAbsolute then [] else here) (target.pieces ++ rest)
        | none =>
          if rest.all (· == "") then .ok (.missing (here ++ [piece])) else .error .notFound := by
  rw [follow_eq]
  conv => lhs; unfold descend
  refine (if_neg (Bool.eq_false_iff.mp hpiece.1)).trans ?_
  refine (if_neg (mt beq_iff_eq.mp hpiece.2)).trans ?_
  refine (if_neg (by simp)).trans ?_
  refine (if_neg (Nat.not_lt.mpr hshort)).trans ?_
  by_cases hdeep : pathLimit ≤ keyLength (here ++ [piece])
  · rw [if_pos hdeep, if_pos ⟨rfl, hdeep⟩]
  · rw [if_neg hdeep, if_neg fun h => hdeep h.2]
    cases hget : t.get? (here ++ [piece]) with
    | none => simp [hget]
    | some node =>
      cases node with
      | file content => simp [hget]
      | folder => simp [hget]
      | link target => simp [hget]

/-- Two trees in which a path arrives at a file by the same folders and links give the file the same
canonical path, or both none. -/
theorem Arrives.identify {content' : ByteArray} (h : t.Arrives n here ps links key)
    (hfolders : ∀ other, t.get? other = some .folder → t'.get? other = some .folder)
    (hlinks : ∀ link ∈ links, t'.get? link = t.get? link)
    (hfile : t.get? key = some (.file content)) (hfile' : t'.get? key = some (.file content')) :
    (∃ cause, t.follow .identify n here ps = .error cause ∧
      t'.follow .identify n here ps = .error cause) ∨
    t.follow .identify n here ps = .ok (.node key (.file content)) ∧
      t'.follow .identify n here ps = .ok (.node key (.file content')) := by
  induction h with
  | last hname hshort =>
    rw [identify_cons_name hname hshort, identify_cons_name hname hshort, hfile, hfile']
    split
    · exact Or.inl ⟨_, rfl, rfl⟩
    · exact Or.inr ⟨rfl, rfl⟩
  | idle hidle _ ih =>
    rw [follow_cons_idle hidle, follow_cons_idle hidle]
    exact ih hlinks hfile hfile'
  | up _ ih =>
    rw [follow_cons_up, follow_cons_up]
    exact ih hlinks hfile hfile'
  | down hpiece hshort hget _ ih =>
    rw [identify_cons_name hpiece hshort, identify_cons_name hpiece hshort, hget,
      hfolders _ hget]
    split
    · exact Or.inl ⟨_, rfl, rfl⟩
    · exact ih hlinks hfile hfile'
  | through hpiece hshort hget _ ih =>
    rw [identify_cons_name hpiece hshort, identify_cons_name hpiece hshort,
      hlinks _ List.mem_cons_self, hget]
    split
    · exact Or.inl ⟨_, rfl, rfl⟩
    · exact ih (fun link hlink => hlinks link (List.mem_cons_of_mem _ hlink)) hfile hfile'

/-! ## Paths -/

/-- A path arrives at a place, across the listed links. -/
structure Reaches (t : FileTree) (path : Path) (links : List Key) (key : Key) : Prop where
  openable : Openable path
  arrives : t.Arrives linkLimit (t.base path) path.pieces links key

theorem Reaches.stays (h : t.Reaches path links key) (hworking : t'.working = t.working)
    (hfolders : ∀ other, t.get? other = some .folder → t'.get? other = some .folder)
    (hlinks : ∀ link ∈ links, t'.get? link = t.get? link) : t'.Reaches path links key := by
  refine ⟨h.openable, ?_⟩
  have hbase : t'.base path = t.base path := by
    unfold base
    rw [hworking]
  rw [hbase]
  exact h.arrives.stays hfolders hlinks

theorem find_of_read (h : t.read path = .ok content) :
    ∃ key, t.find path .reach = .ok (.node key (.file content)) := by
  unfold read at h
  split at h
  · next key _ hfind =>
    cases h
    exact ⟨key, hfind⟩
  · cases h
  · cases h
  · cases h

/-- A file that is read stands where its path arrives. -/
theorem reaches_of_find (h : t.find path .reach = .ok (.node key (.file content))) :
    ∃ links, t.Reaches path links key ∧ t.get? key = some (.file content) := by
  obtain ⟨hopenable, hfollow⟩ := find_eq_ok.mp h
  obtain ⟨links, harrives, -⟩ := arrives_of_follow (Or.inl rfl) hfollow (Or.inl ⟨content, rfl⟩)
  exact ⟨links, ⟨hopenable, harrives⟩, (find_holds h).2⟩

theorem Reaches.find (h : t.Reaches path links key) (hp : purpose = .reach ∨ purpose = .fill)
    (hfile : t.get? key = some (.file content)) :
    t.find path purpose = .ok (.node key (.file content)) :=
  find_eq_ok.mpr ⟨h.openable, h.arrives.follow hp hfile⟩

theorem Reaches.read (h : t.Reaches path links key) (hfile : t.get? key = some (.file content)) :
    t.read path = .ok content := by
  unfold FileTree.read
  rw [h.find (Or.inl rfl) hfile]

theorem Reaches.isFile (h : t.Reaches path links key) (hfile : t.get? key = some (.file content)) :
    t.isFile path = true := by
  unfold FileTree.isFile node?
  rw [h.find (Or.inl rfl) hfile]

theorem Fills.reaches (h : t.Fills path key) : ∃ links, t.Reaches path links key ∧
    ∀ node, t.get? key = some node → ∃ content, node = .file content := by
  rcases h with hfind | ⟨old, hfind⟩
  · obtain ⟨hopenable, hfollow⟩ := find_eq_ok.mp hfind
    obtain ⟨links, harrives, hkey⟩ := arrives_of_follow (Or.inr rfl) hfollow (Or.inr ⟨rfl, rfl⟩)
    exact ⟨links, ⟨hopenable, harrives⟩, hkey⟩
  · obtain ⟨hopenable, hfollow⟩ := find_eq_ok.mp hfind
    obtain ⟨links, harrives, hkey⟩ :=
      arrives_of_follow (Or.inr rfl) hfollow (Or.inl ⟨old, rfl⟩)
    exact ⟨links, ⟨hopenable, harrives⟩, hkey⟩

/-- A file that was written is read by its path. -/
theorem read_of_write {t' : FileTree} (h : t.write path content = .ok t') :
    t'.read path = .ok content := by
  obtain ⟨key, hfills, rfl⟩ := fills_of_write h
  obtain ⟨links, hreaches, hkey⟩ := hfills.reaches
  have hself := t.get?_set_self (.file content) hreaches.arrives.ne_root
  have hother : ∀ other node, t.get? other = some node → (∀ old, node ≠ .file old) →
      (t.set key (.file content)).get? other = some node := by
    intro other node hnode hnot
    rw [get?_set_of_ne]
    · exact hnode
    · rintro rfl
      obtain ⟨old, hold⟩ := hkey node hnode
      exact hnot old hold
  suffices hstays : (t.set key (.file content)).Reaches path links key from hstays.read hself
  refine hreaches.stays rfl ?_ ?_
  · exact fun other hfolder => hother other _ hfolder (by simp)
  · intro link hlink
    obtain ⟨target, htarget⟩ := hreaches.arrives.link hlink
    rw [htarget]
    exact hother link _ htarget (by simp)

theorem Reaches.canonical_eq {content' : ByteArray} (h : t.Reaches path links key)
    (hworking : t'.working = t.working)
    (hfolders : ∀ other, t.get? other = some .folder → t'.get? other = some .folder)
    (hlinks : ∀ link ∈ links, t'.get? link = t.get? link)
    (hfile : t.get? key = some (.file content)) (hfile' : t'.get? key = some (.file content')) :
    t'.canonical path = t.canonical path := by
  have hlookup : ∀ tree : FileTree,
      tree.lookup path .identify = tree.follow .identify linkLimit (tree.base path) path.pieces := by
    intro tree
    simp [lookup, h.openable.nonempty, h.openable.clean, base]
  have hbase : t'.base path = t.base path := by
    unfold base
    rw [hworking]
  unfold canonical canonical?
  rw [hlookup, hlookup, hbase]
  rcases h.arrives.identify hfolders hlinks hfile hfile' with ⟨cause, hcause, hcause'⟩ | ⟨hok, hok'⟩
  · rw [hcause, hcause']
  · rw [hok, hok']

end FileTree

end SourceMacros
