-- Ways through a file tree. A lookup follows the pieces before the last one to a folder, through
-- folders, links and back up, and looks for the last piece there. While a tree evolves, that way
-- leads to the same folder or is closed.
import SourceMacros.Proofs.TreeShape

namespace SourceMacros

namespace FileTree

variable {t t' : FileTree} {purpose : Purpose} {n m : Nat} {here there key : Key}
  {ps rest : List String} {piece name : String} {found : Found}

/-! ## Ways -/

/-- Pieces lead from one folder to another. The numbers say how many links may be followed before
and after. -/
inductive Way (t : FileTree) : Nat → Key → List String → Nat → Key → Prop
  | here (n : Nat) (here : Key) : Way t n here [] n here
  | idle {n m : Nat} {here there : Key} {piece : String} {rest : List String} :
      Path.isIdle piece = true → Way t n here rest m there → Way t n here (piece :: rest) m there
  | up {n m : Nat} {here there : Key} {rest : List String} :
      Way t n here.dropLast rest m there → Way t n here (".." :: rest) m there
  | down {n m : Nat} {here there : Key} {piece : String} {rest : List String} :
      Path.IsName piece → piece.utf8ByteSize ≤ nameLimit →
      t.get? (here ++ [piece]) = some .folder → Way t n (here ++ [piece]) rest m there →
      Way t n here (piece :: rest) m there
  | through {n m : Nat} {here there : Key} {piece : String} {rest : List String} {target : Path} :
      Path.IsName piece → piece.utf8ByteSize ≤ nameLimit →
      t.get? (here ++ [piece]) = some (.link target) →
      Way t n (if target.isAbsolute then [] else here) (target.pieces ++ rest) m there →
      Way t (n + 1) here (piece :: rest) m there

theorem Way.append {ps qs : List String} {k : Nat} {last : Key} (h : t.Way n here ps m there)
    (h' : t.Way m there qs k last) : t.Way n here (ps ++ qs) k last := by
  induction h with
  | here => exact h'
  | idle hidle _ ih => exact .idle hidle (ih h')
  | up _ ih => exact .up (ih h')
  | down hname hshort hget _ ih => exact .down hname hshort hget (ih h')
  | through hname hshort hget _ ih =>
    refine .through hname hshort hget ?_
    have hway := ih h'
    rwa [List.append_assoc] at hway

/-- A slash at the end of a way leads nowhere else. -/
theorem Way.of_concat_empty (h : t.Way n here (ps ++ [""]) m there) : t.Way n here ps m there := by
  generalize hqs : ps ++ [""] = qs at h
  induction h generalizing ps with
  | here => simp at hqs
  | @idle _ _ _ _ piece rest hidle hway ih =>
    cases ps with
    | nil =>
      cases hqs
      exact hway
    | cons first ps =>
      cases hqs
      exact .idle hidle (ih rfl)
  | up _ ih =>
    cases ps with
    | nil => simp at hqs
    | cons first ps =>
      cases hqs
      exact .up (ih rfl)
  | down hname hshort hget _ ih =>
    cases ps with
    | nil =>
      cases hqs
      exact absurd rfl hname.ne_empty
    | cons first ps =>
      cases hqs
      exact .down hname hshort hget (ih rfl)
  | through hname hshort hget _ ih =>
    cases ps with
    | nil =>
      cases hqs
      exact absurd rfl hname.ne_empty
    | cons first ps =>
      cases hqs
      exact .through hname hshort hget (ih (List.append_assoc _ _ _))

/-- No name on a way is too long. -/
theorem Way.short (h : t.Way n here ps m there) (hmem : piece ∈ ps) (hpiece : Path.IsName piece) :
    piece.utf8ByteSize ≤ nameLimit := by
  induction h with
  | here => cases hmem
  | idle hidle _ ih =>
    rcases List.mem_cons.mp hmem with rfl | hmem
    · rw [hpiece.1] at hidle
      cases hidle
    · exact ih hmem
  | up _ ih =>
    rcases List.mem_cons.mp hmem with rfl | hmem
    · exact absurd rfl hpiece.2
    · exact ih hmem
  | down _ hshort _ _ ih =>
    rcases List.mem_cons.mp hmem with rfl | hmem
    · exact hshort
    · exact ih hmem
  | through _ hshort _ _ ih =>
    rcases List.mem_cons.mp hmem with rfl | hmem
    · exact hshort
    · exact ih (List.mem_append_right _ hmem)

/-- A way from a folder leads to a folder. -/
theorem Way.folder (h : t.Way n here ps m there) (ht : t.Sound)
    (hhere : t.get? here = some .folder) : t.get? there = some .folder := by
  induction h with
  | here => exact hhere
  | idle _ _ ih => exact ih hhere
  | up _ ih => exact ih (ht.folder_dropLast hhere)
  | down _ _ hget _ ih => exact ih hget
  | @through _ _ _ _ _ _ target _ _ _ _ ih =>
    apply ih
    split
    · rfl
    · exact hhere

/-! ## Lookups -/

theorem isTrailing_concat (hname : name ≠ "") (rest : List String) :
    isTrailing (rest ++ [name]) = false := by
  simp [isTrailing, hname]

/-- How a lookup goes on behind a link, with so many links to follow. -/
def behindLink (t : FileTree) (purpose : Purpose) :
    Nat → Key → List String → Except IoCause Found
  | 0 => fun _ _ => .error .tooManyLinks
  | n + 1 => t.follow purpose n

theorem follow_eq : t.follow purpose n = t.descend purpose (t.behindLink purpose n) := by
  cases n <;> rfl

theorem follow_nil : t.follow purpose n here [] = .ok (.node here .folder) := by
  rw [follow_eq, descend]

theorem follow_cons_idle (hidle : Path.isIdle piece = true) :
    t.follow purpose n here (piece :: rest) = t.follow purpose n here rest := by
  rw [follow_eq, descend, if_pos hidle]

theorem follow_cons_up : t.follow purpose n here (".." :: rest) =
    t.follow purpose n here.dropLast rest := by
  rw [follow_eq, descend]
  rfl

/-- What a lookup does with a piece that is a name. -/
theorem follow_cons_name (hp : purpose ≠ .identify) (hpiece : Path.IsName piece)
    (htrailing : purpose = .fill → isTrailing rest = false)
    (hshort : piece.utf8ByteSize ≤ nameLimit) :
    t.follow purpose n here (piece :: rest) =
      match t.get? (here ++ [piece]) with
      | some .folder => t.follow purpose n (here ++ [piece]) rest
      | some (.file content) =>
        if rest.isEmpty then .ok (.node (here ++ [piece]) (.file content)) else .error .notDirectory
      | some (.link target) =>
        if rest.isEmpty ∧ purpose = .inspect then .ok (.node (here ++ [piece]) (.link target))
        else t.behindLink purpose n (if target.isAbsolute then [] else here) (target.pieces ++ rest)
      | none =>
        if rest.all (· == "") then .ok (.missing (here ++ [piece])) else .error .notFound := by
  have hfill : ¬ (purpose = .fill ∧ isTrailing rest = true) := by
    rintro ⟨hfill, htrue⟩
    rw [htrailing hfill] at htrue
    cases htrue
  rw [follow_eq]
  conv => lhs; unfold descend
  -- The name passes the guards of a step one by one: idle, up, trailing, too long, too deep.
  refine (if_neg (Bool.eq_false_iff.mp hpiece.1)).trans ?_
  refine (if_neg (mt beq_iff_eq.mp hpiece.2)).trans ?_
  refine (if_neg hfill).trans ?_
  refine (if_neg (Nat.not_lt.mpr hshort)).trans ?_
  refine (if_neg fun h => hp h.1).trans ?_
  rfl

/-- A name that is found is not too long, and a file to be filled has no slash after it. -/
theorem fits_of_follow (hpiece : Path.IsName piece)
    (h : t.follow purpose n here (piece :: rest) = .ok found) :
    piece.utf8ByteSize ≤ nameLimit ∧ (purpose = .fill → isTrailing rest = false) := by
  rw [follow_eq] at h
  unfold descend at h
  simp only [hpiece.1, hpiece.2, beq_iff_eq, Bool.false_eq_true, if_false] at h
  split at h
  · cases h
  next hfill =>
  split at h
  · cases h
  next hshort =>
  exact ⟨Nat.not_lt.mp hshort, fun hpurpose => by simpa [hpurpose] using hfill⟩

/-- A way goes before whatever is looked up behind it. -/
theorem Way.follow (h : t.Way n here ps m there) (hp : purpose ≠ .identify) (hname : name ≠ "") :
    t.follow purpose n here (ps ++ [name]) = t.follow purpose m there [name] := by
  induction h with
  | here => rfl
  | idle hidle _ ih => rw [List.cons_append, follow_cons_idle hidle, ih]
  | up _ ih => rw [List.cons_append, follow_cons_up, ih]
  | down hpiece hshort hget _ ih =>
    rw [List.cons_append,
      follow_cons_name hp hpiece (fun _ => isTrailing_concat hname _) hshort, hget]
    exact ih
  | through hpiece hshort hget _ ih =>
    rw [List.cons_append,
      follow_cons_name hp hpiece (fun _ => isTrailing_concat hname _) hshort, hget]
    simpa [behindLink] using ih

/-- Whatever is looked up behind pieces that are no way is not found. -/
theorem way_of_follow (hp : purpose ≠ .identify) (hname : name ≠ "")
    (h : t.follow purpose n here (ps ++ [name]) = .ok found) :
    ∃ m there, t.Way n here ps m there := by
  induction n using Nat.strongRecOn generalizing here ps with
  | ind n ihn =>
    induction ps generalizing here with
    | nil => exact ⟨n, here, .here n here⟩
    | cons piece ps ih =>
      rw [List.cons_append] at h
      by_cases hidle : Path.isIdle piece = true
      · rw [follow_cons_idle hidle] at h
        obtain ⟨m, there, hway⟩ := ih h
        exact ⟨m, there, .idle hidle hway⟩
      by_cases hup : piece = ".."
      · subst hup
        rw [follow_cons_up] at h
        obtain ⟨m, there, hway⟩ := ih h
        exact ⟨m, there, .up hway⟩
      have hpiece : Path.IsName piece := ⟨by simpa using hidle, hup⟩
      have hshort := (fits_of_follow hpiece h).1
      rw [follow_cons_name hp hpiece (fun _ => isTrailing_concat hname _) hshort] at h
      split at h
      · next hget =>
        obtain ⟨m, there, hway⟩ := ih h
        exact ⟨m, there, .down hpiece hshort hget hway⟩
      · simp at h
      · next target hget =>
        rw [if_neg (by simp)] at h
        cases n with
        | zero => cases h
        | succ n =>
          rw [← List.append_assoc] at h
          obtain ⟨m, there, hway⟩ := ihn n (Nat.lt_succ_self n) h
          exact ⟨m, there, .through hpiece hshort hget hway⟩
      · simp [hname] at h

/-- A folder is found at the end of a way. -/
theorem way_of_folder (hp : purpose ≠ .identify) (hfill : purpose ≠ .fill)
    (h : t.follow purpose n here ps = .ok (.node there .folder)) :
    ∃ m, t.Way n here ps m there := by
  induction n using Nat.strongRecOn generalizing here ps with
  | ind n ihn =>
    induction ps generalizing here with
    | nil =>
      rw [follow_nil] at h
      cases h
      exact ⟨n, .here n _⟩
    | cons piece ps ih =>
      by_cases hidle : Path.isIdle piece = true
      · rw [follow_cons_idle hidle] at h
        obtain ⟨m, hway⟩ := ih h
        exact ⟨m, .idle hidle hway⟩
      by_cases hup : piece = ".."
      · subst hup
        rw [follow_cons_up] at h
        obtain ⟨m, hway⟩ := ih h
        exact ⟨m, .up hway⟩
      have hpiece : Path.IsName piece := ⟨by simpa using hidle, hup⟩
      have hshort := (fits_of_follow hpiece h).1
      rw [follow_cons_name hp hpiece (fun hf => absurd hf hfill) hshort] at h
      split at h
      · next hget =>
        obtain ⟨m, hway⟩ := ih h
        exact ⟨m, .down hpiece hshort hget hway⟩
      · split at h <;> cases h
      · next target hget =>
        split at h
        · cases h
        · cases n with
          | zero => cases h
          | succ n =>
            obtain ⟨m, hway⟩ := ihn n (Nat.lt_succ_self n) h
            exact ⟨m, .through hpiece hshort hget hway⟩
      · split at h <;> cases h

/-! ## What is found -/

/-- What is said to be at a key is there, or nothing is there, but a folder that would hold it. -/
def Stands (t : FileTree) : Found → Prop
  | .node key node => t.get? key = some node
  | .missing key => t.get? key = none ∧
      ∃ folder name, key = folder ++ [name] ∧ t.get? folder = some .folder ∧ Spelled name

theorem Sound.follow_stands (ht : t.Sound) (hp : purpose ≠ .identify)
    (hhere : t.get? here = some .folder) (hps : ∀ piece ∈ ps, '/' ∉ piece.toList)
    (h : t.follow purpose n here ps = .ok found) : t.Stands found := by
  induction n using Nat.strongRecOn generalizing here ps with
  | ind n ihn =>
    induction ps generalizing here with
    | nil =>
      rw [follow_nil] at h
      cases h
      exact hhere
    | cons piece ps ih =>
      have hrest : ∀ piece ∈ ps, '/' ∉ piece.toList :=
        fun other hother => hps other (List.mem_cons_of_mem piece hother)
      by_cases hidle : Path.isIdle piece = true
      · rw [follow_cons_idle hidle] at h
        exact ih hhere hrest h
      by_cases hup : piece = ".."
      · subst hup
        rw [follow_cons_up] at h
        exact ih (ht.folder_dropLast hhere) hrest h
      have hpiece : Path.IsName piece := ⟨by simpa using hidle, hup⟩
      obtain ⟨hshort, htrailing⟩ := fits_of_follow hpiece h
      rw [follow_cons_name hp hpiece htrailing hshort] at h
      split at h
      · next hget => exact ih hget hrest h
      · next hget =>
        split at h
        · cases h
          exact hget
        · cases h
      · next target hget =>
        split at h
        · cases h
          exact hget
        · cases n with
          | zero => cases h
          | succ n =>
            refine ihn n (Nat.lt_succ_self n) ?_ ?_ h
            · split
              · rfl
              · exact hhere
            · intro other hother
              rcases List.mem_append.mp hother with hother | hother
              · exact Path.slash_not_mem hother
              · exact hrest other hother
      · next hget =>
        split at h
        · cases h
          exact ⟨hget, here, piece, rfl, hhere, hpiece, hps piece List.mem_cons_self⟩
        · cases h

/-- A file is found by a name, and what is filled is named. -/
theorem name_of_follow (hp : purpose ≠ .identify)
    (hfound : (∃ key content, found = .node key (.file content)) ∨
      purpose = .fill ∧ ∃ key, found = .missing key)
    (h : t.follow purpose n here ps = .ok found) :
    ∃ init name, ps = init ++ [name] ∧ Path.IsName name := by
  induction n using Nat.strongRecOn generalizing here ps with
  | ind n ihn =>
    induction ps generalizing here with
    | nil =>
      rw [follow_nil] at h
      cases h
      simp at hfound
    | cons piece ps ih =>
      have hcons : (∃ init name, ps = init ++ [name] ∧ Path.IsName name) →
          ∃ init name, piece :: ps = init ++ [name] ∧ Path.IsName name := by
        rintro ⟨init, name, rfl, hname⟩
        exact ⟨piece :: init, name, rfl, hname⟩
      by_cases hidle : Path.isIdle piece = true
      · rw [follow_cons_idle hidle] at h
        exact hcons (ih h)
      by_cases hup : piece = ".."
      · subst hup
        rw [follow_cons_up] at h
        exact hcons (ih h)
      have hpiece : Path.IsName piece := ⟨by simpa using hidle, hup⟩
      have hlast : ps = [] → ∃ init name, piece :: ps = init ++ [name] ∧ Path.IsName name := by
        rintro rfl
        exact ⟨[], piece, rfl, hpiece⟩
      obtain ⟨hshort, htrailing⟩ := fits_of_follow hpiece h
      rw [follow_cons_name hp hpiece htrailing hshort] at h
      split at h
      · exact hcons (ih h)
      · split at h
        · next hempty => exact hlast (List.isEmpty_iff.mp hempty)
        · cases h
      · split at h
        · next hempty => exact hlast (List.isEmpty_iff.mp hempty.1)
        · cases n with
          | zero => cases h
          | succ n =>
            -- The last piece behind a link is the last piece of the path, unless the link is last.
            rcases List.eq_nil_or_concat ps with hnil | ⟨init, name, hconcat⟩
            · exact hlast hnil
            · obtain ⟨init', name', heq, hname⟩ := ihn n (Nat.lt_succ_self n) h
              rw [List.concat_eq_append] at hconcat
              rw [hconcat, ← List.append_assoc] at heq
              obtain ⟨-, hnames⟩ := List.append_inj' heq rfl
              cases hnames
              exact hcons ⟨init, name, hconcat, hname⟩
      · split at h
        · next hempty =>
          cases h
          rcases hfound with ⟨_, _, hfile⟩ | ⟨hfill, -⟩
          · cases hfile
          · have hnot := htrailing hfill
            unfold isTrailing at hnot
            rw [hempty] at hnot
            exact hlast (by simpa using hnot)
        · cases h

/-! ## Ways in a tree that evolves -/

/-- While a tree evolves a way stays, or a file takes the place of a link on it. Then nothing is
found behind it any more. -/
theorem Way.evolve (h : t.Way n here ps m there) (ht : t.Unlinked) (hevolves : t.Evolves t') :
    t'.Way n here ps m there ∨
      (∃ key target content, t.get? key = some (.link target) ∧
        t'.get? key = some (.file content)) ∧
      ∀ purpose name, purpose ≠ .identify → name ≠ "" →
        ∃ cause, t'.follow purpose n here (ps ++ [name]) = .error cause := by
  induction h with
  | here => exact Or.inl (.here _ _)
  | idle hidle _ ih =>
    refine ih.imp (.idle hidle) ?_
    rintro ⟨hfile, hclosed⟩
    refine ⟨hfile, ?_⟩
    intro purpose name hp hname
    rw [List.cons_append, follow_cons_idle hidle]
    exact hclosed purpose name hp hname
  | up _ ih =>
    refine ih.imp .up ?_
    rintro ⟨hfile, hclosed⟩
    refine ⟨hfile, ?_⟩
    intro purpose name hp hname
    rw [List.cons_append, follow_cons_up]
    exact hclosed purpose name hp hname
  | down hpiece hshort hget _ ih =>
    have hget' := hevolves.folders _ hget
    refine ih.imp (.down hpiece hshort hget') ?_
    rintro ⟨hfile, hclosed⟩
    refine ⟨hfile, ?_⟩
    intro purpose name hp hname
    rw [List.cons_append,
      follow_cons_name hp hpiece (fun _ => isTrailing_concat hname _) hshort, hget']
    exact hclosed purpose name hp hname
  | through hpiece hshort hget _ ih =>
    rcases hevolves.lasting _ _ (ht _ _ hget) hget (by simp) with hget' | ⟨content, hget'⟩
    · refine ih.imp (.through hpiece hshort hget') ?_
      rintro ⟨hfile, hclosed⟩
      refine ⟨hfile, ?_⟩
      intro purpose name hp hname
      rw [List.cons_append,
        follow_cons_name hp hpiece (fun _ => isTrailing_concat hname _) hshort, hget']
      simpa [behindLink] using hclosed purpose name hp hname
    · refine Or.inr ⟨⟨_, _, content, hget, hget'⟩, ?_⟩
      intro purpose name hp hname
      rw [List.cons_append,
        follow_cons_name hp hpiece (fun _ => isTrailing_concat hname _) hshort, hget']
      exact ⟨.notDirectory, by simp⟩

/-! ## Paths -/

/-- The path is one that can be opened at all. -/
structure Openable (path : Path) : Prop where
  short : isTooLong path = false
  nonempty : path.text ≠ ""
  clean : hasNul path = false

/-- The folder that a path starts from. -/
def base (t : FileTree) (path : Path) : Key := if path.isAbsolute then [] else t.working

theorem Sound.base_folder (ht : t.Sound) (path : Path) :
    t.get? (t.base path) = some .folder := by
  unfold base
  split
  · rfl
  · exact ht.working

theorem find_eq_ok {path : Path} : t.find path purpose = .ok found ↔
    Openable path ∧ t.follow purpose linkLimit (t.base path) path.pieces = .ok found := by
  unfold find lookup base
  constructor
  · intro h
    split at h
    · cases h
    next hshort =>
    split at h
    · cases h
    next hempty =>
    split at h
    · cases h
    next hclean => exact ⟨⟨by simpa using hshort, by simpa using hempty, by simpa using hclean⟩, h⟩
  · rintro ⟨⟨hshort, hempty, hclean⟩, h⟩
    simp [hshort, hempty, hclean, h]

theorem Sound.find_stands (ht : t.Sound) (hp : purpose ≠ .identify) {path : Path}
    (h : t.find path purpose = .ok found) : t.Stands found :=
  ht.follow_stands hp (ht.base_folder path) (fun _ => Path.slash_not_mem) (find_eq_ok.mp h).2

theorem place_of_not_endsInSlash {path : Path} (h : path.endsInSlash = false) :
    t.place path = t.find path .inspect := by
  unfold place find
  rw [Path.trimSlashes_of_not_endsInSlash h]

theorem Sound.place_stands (ht : t.Sound) {path : Path} (h : t.place path = .ok found) :
    t.Stands found := by
  unfold place at h
  split at h
  · cases h
  unfold lookup at h
  split at h
  · cases h
  split at h
  · cases h
  exact ht.follow_stands (by decide) (ht.base_folder path.trimSlashes)
    (fun _ => Path.slash_not_mem) h

end FileTree

end SourceMacros
