-- Extensions of file names. A name is cut at its last point, so the output of a source has the stem
-- of the source and another extension, and no two sources in a folder share their output.
import SourceMacros.Proofs.PathNames

namespace SourceMacros

namespace Path

/-! ## Cutting names -/

theorem takeWhile_of_not_mem {cs : List Char} (h : '.' ∉ cs) (ds : List Char) :
    (cs ++ ds).takeWhile (· != '.') = cs ++ ds.takeWhile (· != '.') := by
  apply List.takeWhile_append_of_pos
  intro c hc
  rw [bne_iff_ne]
  rintro rfl
  exact h hc

theorem takeWhile_reverse_append {ds : List Char} (h : '.' ∉ ds) (cs : List Char) :
    (cs ++ '.' :: ds).reverse.takeWhile (· != '.') = ds.reverse := by
  rw [List.reverse_append, List.reverse_cons, List.append_assoc,
    takeWhile_of_not_mem (by simpa using h)]
  simp

/-- A name is cut at its last point. -/
theorem cutName_append {stem extension : String} (hstem : stem ≠ "")
    (hpoint : '.' ∉ extension.toList) (hup : stem ++ "." ++ extension ≠ "..") :
    cutName (stem ++ "." ++ extension) = (stem, some extension) := by
  have hlist : (stem ++ "." ++ extension).toList = stem.toList ++ '.' :: extension.toList := by
    simp
  have hne : stem.toList ≠ [] := by simpa using hstem
  unfold cutName
  rw [if_neg (by simpa using hup)]
  simp only [hlist, takeWhile_reverse_append hpoint _, List.length_reverse, List.reverse_reverse]
  have hlength : (stem.toList ++ '.' :: extension.toList).length - extension.toList.length - 1 =
      stem.toList.length := by
    rw [List.length_append, List.length_cons]
    omega
  rw [hlength, List.take_left, if_neg, String.ofList_toList, String.ofList_toList]
  simp only [List.length_append, List.length_cons, Bool.or_eq_true, beq_iff_eq, List.isEmpty_iff,
    hne, or_false]
  omega

theorem exists_last_point {cs : List Char} (h : '.' ∈ cs) :
    ∃ before after, cs = before ++ '.' :: after ∧ '.' ∉ after := by
  induction cs with
  | nil => cases h
  | cons c cs ih =>
    by_cases hmem : '.' ∈ cs
    · obtain ⟨before, after, rfl, hafter⟩ := ih hmem
      exact ⟨c :: before, after, rfl, hafter⟩
    · rcases List.mem_cons.mp h with rfl | h
      · exact ⟨[], cs, rfl, hmem⟩
      · exact absurd h hmem

/-- A name with an extension is its stem, a point and the extension. -/
theorem eq_of_cutName {name extension : String} (h : (cutName name).2 = some extension) :
    name = (cutName name).1 ++ "." ++ extension ∧ (cutName name).1 ≠ "" ∧
      '.' ∉ extension.toList := by
  by_cases hup : name = ".."
  · rw [hup] at h
    cases h
  by_cases hpoint : '.' ∈ name.toList
  · obtain ⟨before, after, hname, hafter⟩ := exists_last_point hpoint
    cases before with
    | nil =>
      unfold cutName at h
      rw [if_neg (by simpa using hup)] at h
      have hall := takeWhile_reverse_append hafter []
      rw [← hname] at hall
      simp only [hall] at h
      simp [hname] at h
    | cons c before =>
      have hstem : String.ofList (c :: before) ≠ "" := by
        intro hempty
        have := congrArg String.toList hempty
        simp at this
      have heq : name = String.ofList (c :: before) ++ "." ++ String.ofList after := by
        apply String.toList_inj.mp
        simp [hname]
      have hafter' : '.' ∉ (String.ofList after).toList := by simpa using hafter
      have hcut := cutName_append hstem hafter' (by rw [← heq]; exact hup)
      rw [← heq] at hcut
      rw [hcut] at h ⊢
      cases h
      exact ⟨heq, hstem, hafter'⟩
  · unfold cutName at h
    rw [if_neg (by simpa using hup)] at h
    have hreverse : '.' ∉ name.toList.reverse := by simpa using hpoint
    have hall := takeWhile_of_not_mem hreverse []
    rw [List.append_nil] at hall
    simp [hall] at h

/-- A name without an extension is all stem. -/
theorem fst_cutName_of_none {name : String} (h : (cutName name).2 = none) :
    (cutName name).1 = name := by
  unfold cutName at h ⊢
  dsimp only at h ⊢
  split
  · rfl
  · split
    · rfl
    · simp_all

theorem fst_cutName_ne {name : String} (hne : name ≠ "") : (cutName name).1 ≠ "" := by
  cases hcut : (cutName name).2 with
  | some extension => exact (eq_of_cutName hcut).2.1
  | none =>
    rw [fst_cutName_of_none hcut]
    exact hne

theorem slash_not_mem_cutName {name : String} (h : '/' ∉ name.toList) :
    '/' ∉ (cutName name).1.toList := by
  cases hcut : (cutName name).2 with
  | some extension =>
    rw [(eq_of_cutName hcut).1] at h
    simp only [String.toList_append, List.mem_append, not_or] at h
    exact h.1.1
  | none =>
    rw [fst_cutName_of_none hcut]
    exact h

/-- What has a stem and an extension is a name. -/
theorem isName_append {stem extension : String} (hstem : stem ≠ "") (hextension : extension ≠ "") :
    IsName (stem ++ "." ++ extension) := by
  have hlength : 3 ≤ (stem ++ "." ++ extension).length := by
    have hdot : ".".length = 1 := rfl
    have hleft : stem.length ≠ 0 := by simpa using hstem
    have hright : extension.length ≠ 0 := by simpa using hextension
    rw [String.length_append, String.length_append]
    omega
  have hne : ∀ other : String, other.length < 3 → stem ++ "." ++ extension ≠ other := by
    intro other hother heq
    rw [heq] at hlength
    omega
  exact isName_iff.mpr ⟨hne _ (by decide), hne _ (by decide), hne _ (by decide)⟩

/-! ## Names of outputs -/

/-- The name of the output of a source of a name. -/
def outputName (extension name : String) : String :=
  if extension = "" then (cutName name).1 else (cutName name).1 ++ "." ++ extension

/-- Sources with one extension have different outputs. -/
theorem outputName_inj {extension source name other : String}
    (hname : (cutName name).2 = some source) (hother : (cutName other).2 = some source)
    (h : outputName extension name = outputName extension other) : name = other := by
  have hstem : (cutName name).1 = (cutName other).1 := by
    unfold outputName at h
    split at h
    · exact h
    · have hlist := congrArg String.toList h
      simp only [String.toList_append, List.append_assoc] at hlist
      exact String.toList_inj.mp (List.append_cancel_right hlist)
  rw [(eq_of_cutName hname).1, (eq_of_cutName hother).1, hstem]

/-! ## Paths with another extension -/

theorem join_concat (init : List (List Char)) (last : List Char) :
    Pieces.join '/' (init ++ [last]) = init.flatMap (· ++ ['/']) ++ last := by
  induction init with
  | nil => simp [Pieces.join]
  | cons first init ih =>
    cases init with
    | nil => simp [Pieces.join]
    | cons next init =>
      have hjoin : Pieces.join '/' (first :: next :: init ++ [last]) =
          first ++ '/' :: Pieces.join '/' (next :: init ++ [last]) := by simp [Pieces.join]
      rw [hjoin, ih]
      simp

theorem toList_text_of_pieces {p : Path} {init : List String} {name : String}
    (hp : p.pieces = init ++ [name]) :
    p.text.toList = (init.map String.toList).flatMap (· ++ ['/']) ++ name.toList := by
  have hjoin := Pieces.join_split '/' p.text.toList
  rw [← map_toList_pieces, hp, List.map_append, List.map_singleton, join_concat] at hjoin
  exact hjoin.symm

variable {p : Path} {init : List String} {name source extension : String}

theorem extension?_of_pieces (hp : p.pieces = init ++ [name]) (hname : IsName name) :
    p.extension? = (cutName name).2 := by
  unfold extension?
  rw [fileName?_of_pieces hp hname]
  rfl

/-- A path without the letters of its extension keeps the point before them. -/
theorem dropExtension_of_pieces (hp : p.pieces = init ++ [name]) (hname : IsName name)
    (hcut : (cutName name).2 = some source) :
    p.dropExtension = ofPieces (init ++ [(cutName name).1 ++ "."]) := by
  obtain ⟨heq, -, -⟩ := eq_of_cutName hcut
  unfold dropExtension
  rw [extension?_of_pieces hp hname, hcut]
  dsimp only
  unfold ofPieces
  congr 1
  apply String.toList_inj.mp
  rw [String.toList_ofList, Pieces.toList_joinText, List.map_append, List.map_singleton,
    join_concat, toList_text_of_pieces hp, ← String.length_toList, toList_text_of_pieces hp]
  have hlist : name.toList = ((cutName name).1 ++ ".").toList ++ source.toList := by
    conv => lhs; rw [heq]
    simp
  rw [hlist, ← List.append_assoc, List.length_append, ← String.length_toList, Nat.add_sub_cancel,
    List.take_left]

theorem pieces_dropExtension (hp : p.pieces = init ++ [name]) (hname : IsName name)
    (hcut : (cutName name).2 = some source) :
    p.dropExtension.pieces = init ++ [(cutName name).1 ++ "."] := by
  rw [dropExtension_of_pieces hp hname hcut]
  apply pieces_ofPieces (by simp)
  intro piece hpiece
  rcases List.mem_append.mp hpiece with hpiece | hpiece
  · exact slash_not_mem (p := p) (by rw [hp]; simp [hpiece])
  · have hslash : '/' ∉ name.toList := slash_not_mem (p := p) (by rw [hp]; simp)
    rw [List.mem_singleton.mp hpiece]
    simpa using slash_not_mem_cutName hslash

/-- Of a name of two points and an extension only the points are left, which are no name. -/
theorem withExtension_of_point (hp : p.pieces = init ++ [name]) (hname : IsName name)
    (hcut : (cutName name).2 = some source) (hstem : (cutName name).1 = ".") :
    (p.withExtension extension).fileName? = none := by
  have hpieces := pieces_dropExtension hp hname hcut
  rw [hstem] at hpieces
  have hnone := fileName?_of_pieces_up hpieces
  unfold withExtension putExtension
  unfold fileName? at hnone
  dsimp only
  rw [hnone]
  exact hnone

/-- The output of a source has the pieces of the source and the name of the output. -/
theorem withExtension_of_pieces (extension : String) (hp : p.pieces = init ++ [name])
    (hname : IsName name) (hcut : (cutName name).2 = some source) (hstem : (cutName name).1 ≠ ".") :
    p.withExtension extension = ofPieces (init ++ [outputName extension name]) := by
  have hne := (eq_of_cutName hcut).2.1
  have hup : (cutName name).1 ++ "." ≠ ".." :=
    fun hup => hstem ((String.append_left_inj ".").mp hup)
  have hpoint : IsName ((cutName name).1 ++ ".") :=
    isName_iff.mpr ⟨by simp, fun hdot => hne (by simpa using hdot), hup⟩
  have hcut' : cutName ((cutName name).1 ++ ".") = ((cutName name).1, some "") := by
    have hempty : (cutName name).1 ++ "." ++ "" = (cutName name).1 ++ "." := String.append_empty
    have happend := cutName_append hne (by simp : ('.' : Char) ∉ "".toList)
      (by rw [hempty]; exact hup)
    rwa [hempty] at happend
  obtain ⟨rest, hrest, hinit⟩ := anchored_of_pieces (pieces_dropExtension hp hname hcut) hpoint.1
  unfold withExtension putExtension
  dsimp only
  rw [hrest, lastName?_concat hpoint]
  dsimp only
  rw [trimEnd_concat hpoint, List.dropLast_concat, ← hinit, hcut']
  simp [outputName]

theorem pieces_withExtension (hp : p.pieces = init ++ [name]) (hname : IsName name)
    (hcut : (cutName name).2 = some source) (hstem : (cutName name).1 ≠ ".")
    (hslash : '/' ∉ extension.toList) :
    (p.withExtension extension).pieces = init ++ [outputName extension name] := by
  rw [withExtension_of_pieces extension hp hname hcut hstem]
  apply pieces_ofPieces (by simp)
  intro piece hpiece
  rcases List.mem_append.mp hpiece with hpiece | hpiece
  · exact slash_not_mem (p := p) (by rw [hp]; simp [hpiece])
  · have hfree : '/' ∉ (cutName name).1.toList :=
      slash_not_mem_cutName (slash_not_mem (p := p) (by rw [hp]; simp))
    rw [List.mem_singleton.mp hpiece]
    unfold outputName
    split
    · exact hfree
    · simp [hfree, hslash]

/-- What the output of a source is called, if anything, is seen from the name of the source. -/
theorem fileName?_withExtension (hp : p.pieces = init ++ [name]) (hname : IsName name)
    (hcut : (cutName name).2 = some source) (hslash : '/' ∉ extension.toList) :
    (p.withExtension extension).fileName? =
      if (cutName name).1 = "." ∨ outputName extension name = ".." then none
      else some (outputName extension name) := by
  have hne := (eq_of_cutName hcut).2.1
  by_cases hstem : (cutName name).1 = "."
  · rw [if_pos (Or.inl hstem)]
    exact withExtension_of_point hp hname hcut hstem
  have hpieces := pieces_withExtension hp hname hcut hstem hslash
  by_cases hup : outputName extension name = ".."
  · rw [if_pos (Or.inr hup)]
    rw [hup] at hpieces
    exact fileName?_of_pieces_up hpieces
  · rw [if_neg (by simp [hstem, hup])]
    refine fileName?_of_pieces hpieces ⟨?_, hup⟩
    unfold outputName
    split
    · simp [isIdle, hne, hstem]
    · next hextension => exact (isName_append hne hextension).1

/-- An output that has a name is called by its source, and lies beside it. -/
theorem pieces_of_output {other : String} (hp : p.pieces = init ++ [name]) (hname : IsName name)
    (hcut : (cutName name).2 = some source) (hslash : '/' ∉ extension.toList)
    (hother : (p.withExtension extension).fileName? = some other) :
    (p.withExtension extension).pieces = init ++ [other] ∧ other = outputName extension name := by
  rw [fileName?_withExtension hp hname hcut hslash] at hother
  split at hother
  · cases hother
  · next hnamed =>
    cases hother
    exact ⟨pieces_withExtension hp hname hcut (fun hstem => hnamed (Or.inl hstem)) hslash, rfl⟩

/-- A path with an extension without points has that extension, if it has a name. -/
theorem extension?_putExtension (p : Path) (hne : extension ≠ "") (hpoint : '.' ∉ extension.toList)
    (hslash : '/' ∉ extension.toList) :
    (p.putExtension extension).extension? = none ∨
      (p.putExtension extension).extension? = some extension := by
  unfold putExtension
  dsimp only
  split
  · next hnone =>
    refine Or.inl ?_
    unfold extension? fileName?
    rw [hnone]
    rfl
  · next name hlast =>
    refine Or.inr ?_
    obtain ⟨hmem, hname⟩ := exists_of_lastName? hlast
    have hstem := fst_cutName_ne hname.ne_empty
    have hlastName := isName_append hstem hne
    rw [if_neg (by simpa using hne)]
    have hpieces : (ofPieces (p.anchored.1 ++ (trimEnd p.anchored.2).dropLast ++
        [(cutName name).1 ++ "." ++ extension])).pieces =
          p.anchored.1 ++ (trimEnd p.anchored.2).dropLast ++
            [(cutName name).1 ++ "." ++ extension] := by
      apply pieces_ofPieces (by simp)
      intro piece hpiece
      rcases List.mem_append.mp hpiece with hpiece | hpiece
      · apply slash_not_mem (p := p)
        rcases List.mem_append.mp hpiece with hpiece | hpiece
        · exact mem_pieces_of_mem_anchor hpiece
        · apply mem_pieces_of_mem_anchored
          have htrim := List.mem_reverse.mp ((List.dropLast_sublist _).mem hpiece)
          exact List.mem_reverse.mp ((List.dropWhile_suffix _).mem htrim)
      · have hfree := slash_not_mem_cutName (slash_not_mem (mem_pieces_of_mem_anchored hmem))
        rw [List.mem_singleton.mp hpiece]
        simp [hfree, hslash]
    rw [extension?_of_pieces hpieces hlastName, cutName_append hstem hpoint hlastName.2]

theorem extension?_temporary (target : Path) : target.temporary.extension? = some "tmp" := by
  have hsplit : temporaryName (target.fileName?.getD "") =
      "." ++ target.fileName?.getD "" ++ "." ++ "tmp" := by
    apply String.toList_inj.mp
    simp [temporaryName]
  unfold extension?
  rw [fileName?_temporary, Option.bind_some, hsplit,
    cutName_append (by simp) (by decide) (isName_append (by simp) (by decide)).2]

end Path

namespace Settings

variable {settings : Settings} {path : Path}

theorem isSource_iff : settings.isSource path = true ↔
    ∃ name, path.fileName? = some name ∧
      (Path.cutName name).2 = some settings.sourceExtension := by
  simp [isSource, Path.extension?, Option.bind_eq_some_iff]

theorem outputPath_eq_ok {target : Path} : settings.outputPath path = .ok target ↔
    '/' ∉ settings.outputExtension.toList ∧ path.withExtension settings.outputExtension = target := by
  unfold outputPath
  split
  · next hslash => simp_all
  · next hslash => simp_all

end Settings

end SourceMacros
