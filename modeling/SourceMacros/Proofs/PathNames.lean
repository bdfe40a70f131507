-- The names in paths. A path that ends in a name has that name as its last piece, so what its file
-- is called, its temporary sibling and its output are read off the pieces.
import SourceMacros.Proofs.Splicing
import SourceMacros.Settings

namespace SourceMacros

namespace Pieces

/-- A separator cuts a text in two, whatever stands on both sides. -/
theorem split_append_sep (sep : Char) (cs ds : List Char) :
    split sep (cs ++ sep :: ds) = split sep cs ++ split sep ds := by
  induction cs with
  | nil => simp [grow, split]
  | cons c cs ih =>
    rw [List.cons_append, split_cons, ih, split_cons]
    cases hs : split sep cs with
    | nil => exact absurd hs (split_ne_nil sep cs)
    | cons piece pieces =>
      unfold grow
      split <;> rfl

end Pieces

namespace Path

/-! ## Pieces -/

/-- A piece that names an entry of a folder. -/
def IsName (piece : String) : Prop := isIdle piece = false ∧ piece ≠ ".."

instance (piece : String) : Decidable (IsName piece) :=
  inferInstanceAs (Decidable (isIdle piece = false ∧ piece ≠ ".."))

theorem IsName.ne_empty {piece : String} (h : IsName piece) : piece ≠ "" := by
  rintro rfl
  exact absurd h.1 (by decide)

theorem isName_iff {piece : String} : IsName piece ↔ piece ≠ "" ∧ piece ≠ "." ∧ piece ≠ ".." := by
  simp [IsName, isIdle, and_assoc]

theorem pieces_ne_nil (p : Path) : p.pieces ≠ [] := by
  simp [pieces, Pieces.splitText, Pieces.split_ne_nil]

theorem slash_not_mem {p : Path} {piece : String} (h : piece ∈ p.pieces) : '/' ∉ piece.toList := by
  obtain ⟨cs, hcs, rfl⟩ := List.mem_map.mp h
  rw [String.toList_ofList]
  exact Pieces.not_mem_split '/' _ cs hcs

theorem map_toList_pieces (p : Path) :
    p.pieces.map String.toList = Pieces.split '/' p.text.toList := by
  simp [pieces, Pieces.splitText]

/-- A path is its pieces. -/
theorem ofPieces_pieces (p : Path) : ofPieces p.pieces = p := by
  have htext : (Pieces.joinText '/' p.pieces).toList = p.text.toList := by
    rw [Pieces.toList_joinText, map_toList_pieces, Pieces.join_split]
  exact congrArg Path.mk (String.toList_inj.mp htext)

theorem pieces_ofPieces {ps : List String} (hne : ps ≠ []) (h : ∀ q ∈ ps, '/' ∉ q.toList) :
    (ofPieces ps).pieces = ps := by
  unfold pieces ofPieces Pieces.splitText
  rw [Pieces.toList_joinText, Pieces.split_join '/' (by simpa using hne) (by simpa using h)]
  simp

theorem pieces_mk {name : String} (h : '/' ∉ name.toList) : (Path.mk name).pieces = [name] := by
  simp [pieces, Pieces.splitText, Pieces.split_of_not_mem '/' h]

theorem isAbsolute_eq (p : Path) : p.isAbsolute = (p.text.toList.head? == some '/') :=
  String.startsWith_char_eq_head?

theorem endsInSlash_eq (p : Path) : p.endsInSlash = (p.text.toList.getLast? == some '/') :=
  String.endsWith_char_eq_getLast?

/-- An absolute path starts with an empty piece. -/
theorem head_of_isAbsolute {p : Path} (h : p.isAbsolute = true) :
    ∃ rest, rest ≠ [] ∧ p.pieces = "" :: rest := by
  rw [isAbsolute_eq, beq_iff_eq] at h
  obtain ⟨cs, hcs⟩ := List.head?_eq_some_iff.mp h
  refine ⟨(Pieces.split '/' cs).map String.ofList, by simp [Pieces.split_ne_nil], ?_⟩
  unfold pieces Pieces.splitText
  rw [hcs, Pieces.split_cons]
  simp [Pieces.grow]

theorem isAbsolute_of_pieces {p : Path} {first : String} {rest : List String}
    (hp : p.pieces = first :: rest) (hrest : rest ≠ []) : p.isAbsolute = (first == "") := by
  rw [Bool.eq_iff_iff, beq_iff_eq]
  constructor
  · intro habsolute
    obtain ⟨rest', -, heq⟩ := head_of_isAbsolute habsolute
    rw [hp] at heq
    exact (List.cons.inj heq).1
  · rintro rfl
    obtain ⟨next, more, rfl⟩ := List.exists_cons_of_ne_nil hrest
    have hjoin := Pieces.join_split '/' p.text.toList
    rw [← map_toList_pieces, hp] at hjoin
    rw [isAbsolute_eq, ← hjoin]
    simp [Pieces.join]

/-- Whether a path is absolute is seen before its last piece. -/
theorem isAbsolute_congr {p q : Path} {init : List String} {name other : String}
    (hp : p.pieces = init ++ [name]) (hq : q.pieces = init ++ [other]) (hname : name ≠ "")
    (hother : other ≠ "") : p.isAbsolute = q.isAbsolute := by
  have hrelative : ∀ {p : Path} {name : String}, p.pieces = [name] → name ≠ "" →
      p.isAbsolute = false := by
    intro p name hp hname
    rw [Bool.eq_false_iff]
    intro habsolute
    obtain ⟨rest, -, heq⟩ := head_of_isAbsolute habsolute
    rw [hp] at heq
    exact hname (List.cons.inj heq).1
  cases init with
  | nil => rw [hrelative hp hname, hrelative hq hother]
  | cons first init => rw [isAbsolute_of_pieces hp (by simp), isAbsolute_of_pieces hq (by simp)]

theorem pieces_of_endsInSlash {p : Path} (h : p.endsInSlash = true) :
    ∃ text, p.text = text ++ "/" ∧ p.pieces = (Path.mk text).pieces ++ [""] := by
  rw [endsInSlash_eq, beq_iff_eq] at h
  obtain ⟨cs, hcs⟩ := List.getLast?_eq_some_iff.mp h
  refine ⟨String.ofList cs, ?_, ?_⟩
  · apply String.toList_inj.mp
    rw [hcs, String.toList_append, String.toList_ofList]
    rfl
  · unfold pieces Pieces.splitText
    rw [hcs, Pieces.split_append_sep, List.map_append, String.toList_ofList]
    rfl

/-- A path that does not end in a slash ends in a piece that is not empty, or is empty itself. -/
theorem getLast_of_not_endsInSlash {p : Path} (h : p.endsInSlash = false) {init : List String}
    (hp : p.pieces = init ++ [""]) : init = [] := by
  cases init with
  | nil => rfl
  | cons first init =>
    exfalso
    have hmap := map_toList_pieces p
    have hjoin := Pieces.join_split '/' p.text.toList
    rw [← hmap, hp] at hjoin
    have hlast : p.text.toList.getLast? = some '/' := by
      rw [← hjoin]
      simp [Pieces.join]
    rw [endsInSlash_eq, hlast] at h
    simp at h

/-- A path without a slash at its end has none to trim. -/
theorem trimSlashes_of_not_endsInSlash {p : Path} (h : p.endsInSlash = false) :
    p.trimSlashes = p := by
  have hne := pieces_ne_nil p
  have hsplit := List.dropLast_concat_getLast hne
  unfold trimSlashes dropSlashes
  by_cases hlast : p.pieces.getLast hne = ""
  · rw [hlast] at hsplit
    have hinit := getLast_of_not_endsInSlash h hsplit.symm
    rw [← hsplit, hinit]
    rfl
  · rw [← hsplit, List.reverse_append, List.reverse_singleton, List.singleton_append,
      List.dropWhile_cons_of_neg (by simpa using hlast), List.reverse_cons, List.reverse_reverse,
      hsplit]
    split
    · rfl
    · exact ofPieces_pieces p

/-! ## File names -/

/-- The pieces of a path that does not end in an idle one, its anchor apart. -/
theorem anchored_of_pieces {p : Path} {init : List String} {name : String}
    (hp : p.pieces = init ++ [name]) (hname : isIdle name = false) :
    ∃ rest, p.anchored.2 = rest ++ [name] ∧ init = p.anchored.1 ++ rest := by
  obtain ⟨hempty, hdot⟩ : name ≠ "" ∧ name ≠ "." := by simpa [isIdle] using hname
  unfold anchored
  cases init with
  | nil =>
    have hrelative : p.isAbsolute = false := by
      rw [Bool.eq_false_iff]
      intro habsolute
      obtain ⟨rest, -, hrest⟩ := head_of_isAbsolute habsolute
      rw [hp] at hrest
      exact hempty (List.cons.inj hrest).1
    rw [hp]
    simp [hrelative, hdot]
  | cons first init =>
    rw [hp]
    dsimp only [List.cons_append]
    split
    · exact ⟨init, rfl, rfl⟩
    · exact ⟨first :: init, rfl, rfl⟩

theorem lastName?_concat {init : List String} {name : String} (h : IsName name) :
    lastName? (init ++ [name]) = some name := by
  simp [lastName?, h.1, h.2]

theorem trimEnd_concat {init : List String} {name : String} (h : IsName name) :
    trimEnd (init ++ [name]) = init ++ [name] := by
  simp [trimEnd, h.1]

theorem fileName?_of_pieces {p : Path} {init : List String} {name : String}
    (hp : p.pieces = init ++ [name]) (hname : IsName name) : p.fileName? = some name := by
  obtain ⟨rest, hrest, -⟩ := anchored_of_pieces hp hname.1
  unfold fileName?
  rw [hrest]
  exact lastName?_concat hname

/-- A path that ends in a way up has no name. -/
theorem fileName?_of_pieces_up {p : Path} {init : List String} (hp : p.pieces = init ++ [".."]) :
    p.fileName? = none := by
  obtain ⟨rest, hrest, -⟩ := anchored_of_pieces hp (by decide)
  unfold fileName?
  rw [hrest]
  simp [lastName?, isIdle]

/-- The last piece of a path that names something. -/
theorem exists_of_lastName? {body : List String} {name : String} (h : lastName? body = some name) :
    name ∈ body ∧ IsName name := by
  unfold lastName? at h
  obtain ⟨hhead, hup⟩ := Option.filter_eq_some_iff.mp h
  obtain ⟨rest, hrest⟩ := List.head?_eq_some_iff.mp hhead
  have hmem : name ∈ body.reverse.dropWhile isIdle := by simp [hrest]
  have hidle : isIdle name = false := by
    have := List.head_dropWhile_not isIdle (l := body.reverse) (by simp [hrest])
    simpa [hrest] using this
  exact ⟨List.mem_reverse.mp ((List.dropWhile_suffix _).mem hmem), hidle, by simpa using hup⟩

theorem mem_pieces_of_mem_anchor {p : Path} {piece : String} (h : piece ∈ p.anchored.1) :
    piece ∈ p.pieces := by
  unfold anchored at h
  split at h
  · next first rest hp =>
    rw [hp]
    split at h
    · rw [List.mem_singleton.mp h]
      exact List.mem_cons_self
    · cases h
  · cases h

theorem mem_pieces_of_mem_anchored {p : Path} {piece : String} (h : piece ∈ p.anchored.2) :
    piece ∈ p.pieces := by
  unfold anchored at h
  split at h
  · next first rest hp =>
    rw [hp]
    split at h
    · exact List.mem_cons_of_mem first h
    · exact h
  · cases h

theorem isName_of_fileName? {p : Path} {name : String} (h : p.fileName? = some name) :
    IsName name ∧ '/' ∉ name.toList := by
  obtain ⟨hmem, hname⟩ := exists_of_lastName? h
  exact ⟨hname, slash_not_mem (mem_pieces_of_mem_anchored hmem)⟩

/-! ## Joined paths -/

theorem isAbsolute_mk {name : String} (h : '/' ∉ name.toList) :
    (Path.mk name).isAbsolute = false := by
  rw [isAbsolute_eq, beq_eq_false_iff_ne]
  intro hhead
  exact h (List.mem_of_head? hhead)

/-- The second of two joined paths comes behind the pieces of the first. -/
theorem pieces_join {p q : Path} (hq : q.isAbsolute = false) :
    (p.join q).pieces = (if p.text = "" then [] else
      if p.endsInSlash then p.pieces.dropLast else p.pieces) ++ q.pieces := by
  unfold join
  rw [hq, Bool.false_or]
  simp only [beq_iff_eq]
  split
  · simp
  · split
    · next hslash =>
      obtain ⟨text, htext, hpieces⟩ := pieces_of_endsInSlash hslash
      rw [hpieces, List.dropLast_concat]
      unfold pieces Pieces.splitText
      rw [htext, String.toList_append, String.toList_append, List.append_assoc]
      exact (congrArg (List.map String.ofList)
        (Pieces.split_append_sep '/' text.toList q.text.toList)).trans List.map_append
    · unfold pieces Pieces.splitText
      rw [String.toList_append, String.toList_append, List.append_assoc]
      exact (congrArg (List.map String.ofList)
        (Pieces.split_append_sep '/' p.text.toList q.text.toList)).trans List.map_append

/-! ## Temporary files -/

/-- The name of the temporary file beside a file of a name. -/
def temporaryName (name : String) : String := "." ++ name ++ ".tmp"

/-- The temporary file beside a file. -/
def temporary (target : Path) : Path :=
  target.withFileName (temporaryName (target.fileName?.getD ""))

theorem isName_temporaryName (name : String) : IsName (temporaryName name) := by
  have hlength : (temporaryName name).length = name.length + 5 := by
    have hdot : ".".length = 1 := rfl
    have hsuffix : ".tmp".length = 4 := rfl
    rw [temporaryName, String.length_append, String.length_append, hdot, hsuffix]
    omega
  have hne : ∀ other : String, other.length < 5 → temporaryName name ≠ other := by
    rintro other hother rfl
    omega
  exact isName_iff.mpr ⟨hne _ (by decide), hne _ (by decide), hne _ (by decide)⟩

theorem slash_not_mem_temporaryName {name : String} (h : '/' ∉ name.toList) :
    '/' ∉ (temporaryName name).toList := by
  simp [temporaryName, h]

/-- A temporary file is looked for by its name. -/
theorem pieces_temporary (target : Path) :
    ∃ init, target.temporary.pieces = init ++ [temporaryName (target.fileName?.getD "")] := by
  have hslash : '/' ∉ (temporaryName (target.fileName?.getD "")).toList := by
    apply slash_not_mem_temporaryName
    cases hname : target.fileName? with
    | none => simp
    | some name => exact (isName_of_fileName? hname).2
  unfold temporary withFileName
  split
  · rw [pieces_join (isAbsolute_mk hslash), pieces_mk hslash]
    exact ⟨_, rfl⟩
  · rw [pieces_join (isAbsolute_mk hslash), pieces_mk hslash]
    exact ⟨_, rfl⟩

theorem fileName?_temporary (target : Path) :
    target.temporary.fileName? = some (temporaryName (target.fileName?.getD "")) := by
  obtain ⟨init, hinit⟩ := pieces_temporary target
  exact fileName?_of_pieces hinit (isName_temporaryName _)

end Path

end SourceMacros
