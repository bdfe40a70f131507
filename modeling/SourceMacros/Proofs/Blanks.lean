-- Blanks that stand together: the last ones of a text, how they grow with it, and where the bytes of
-- what a line adds to them are found. Lexemes take blanks whole, and a gap ends in blanks or in a
-- joined break.
import SourceMacros.Proofs.Coverage
import SourceMacros.Proofs.OpenBlocks

namespace SourceMacros

open Lexeme (isBlank)
open Layout (Blank)

/-! ## Blanks that stand together -/

/-- The last blanks of a text that stand together. -/
def lastBlanks (cs : List Char) : List Char :=
  ((cs.reverse.dropWhile (!isBlank ·)).takeWhile isBlank).reverse

theorem blank_lastBlanks (cs : List Char) : Blank (lastBlanks cs) := by
  intro c hc
  rw [lastBlanks, List.mem_reverse] at hc
  exact List.mem_takeWhile_imp hc

theorem lastBlanks_append_plain (cs : List Char) {ds : List Char}
    (h : ∀ c ∈ ds, isBlank c = false) : lastBlanks (cs ++ ds) = lastBlanks cs := by
  unfold lastBlanks
  rw [List.reverse_append, List.dropWhile_append_of_pos]
  intro c hc
  simp [h c (List.mem_reverse.mp hc)]

theorem takeWhile_blank_append {cs ds : List Char} (hcs : Blank cs)
    (hds : ∀ c, ds.head? = some c → isBlank c = false) : (cs ++ ds).takeWhile isBlank = cs := by
  rw [List.takeWhile_append_of_pos hcs]
  cases ds with
  | nil => simp
  | cons d ds => rw [List.takeWhile_cons_of_neg (by simp [hds d rfl]), List.append_nil]

theorem lastBlanks_append_blanks {cs ds : List Char} (hne : ds ≠ []) (hds : Blank ds)
    (hcs : ∀ c, cs.getLast? = some c → isBlank c = false) : lastBlanks (cs ++ ds) = ds := by
  have hblank : Blank ds.reverse := fun c hc => hds c (List.mem_reverse.mp hc)
  have hstop : ∀ c, cs.reverse.head? = some c → isBlank c = false := by
    intro c hc
    rw [List.head?_reverse] at hc
    exact hcs c hc
  unfold lastBlanks
  rw [List.reverse_append]
  cases hrev : ds.reverse with
  | nil => exact absurd (List.reverse_eq_nil_iff.mp hrev) hne
  | cons d rest =>
    rw [hrev] at hblank
    rw [List.cons_append, List.dropWhile_cons_of_neg (by simp [hblank d]), ← List.cons_append,
      takeWhile_blank_append hblank hstop, ← hrev, List.reverse_reverse]

/-- A text that ends in a blank ends in its last blanks. -/
theorem exists_append_lastBlanks {cs : List Char} {c : Char} (h : cs.getLast? = some c)
    (hc : isBlank c = true) : ∃ before, cs = before ++ lastBlanks cs := by
  have hkeep : cs.reverse.dropWhile (!isBlank ·) = cs.reverse := by
    rw [← List.head?_reverse] at h
    cases hrev : cs.reverse with
    | nil => rfl
    | cons d rest =>
      rw [hrev] at h
      cases h
      rw [List.dropWhile_cons_of_neg (by simp [hc])]
  refine ⟨(cs.reverse.dropWhile isBlank).reverse, ?_⟩
  rw [lastBlanks, hkeep, ← List.reverse_append, List.takeWhile_append_dropWhile,
    List.reverse_reverse]

theorem length_lastBlanks_le (cs : List Char) : (lastBlanks cs).length ≤ cs.length := by
  unfold lastBlanks
  rw [List.length_reverse]
  calc _ ≤ (cs.reverse.dropWhile (!isBlank ·)).length := (List.takeWhile_sublist _).length_le
    _ ≤ cs.reverse.length := (List.dropWhile_sublist _).length_le
    _ = cs.length := List.length_reverse

theorem byteLength_of_single {cs : List Char} (h : ∀ c ∈ cs, c.utf8Size = 1) :
    byteLength cs = cs.length := by
  induction cs with
  | nil => rfl
  | cons c cs ih =>
    have hc := h c List.mem_cons_self
    have hrest := ih fun d hd => h d (List.mem_cons_of_mem _ hd)
    simp only [byteLength, List.foldr_cons, List.length_cons, hc] at hrest ⊢
    omega

theorem byteLength_of_blank {cs : List Char} (h : Blank cs) : byteLength cs = cs.length := by
  refine byteLength_of_single fun c hc => ?_
  have hblank := h c hc
  simp only [isBlank, Bool.or_eq_true, beq_iff_eq] at hblank
  rcases hblank with (rfl | rfl) | rfl <;> decide

/-- A gap ends in a blank or in a line break. -/
theorem Gap.getLast {cs : List Char} (h : Gap cs) {c : Char} (hlast : cs.getLast? = some c) :
    isBlank c = true ∨ c = '\n' := by
  induction h with
  | nil => cases hlast
  | @blank d cs hd hgap ih =>
    cases cs with
    | nil =>
      cases hlast
      rcases hd with rfl | rfl | rfl <;> exact Or.inl (by decide)
    | cons e cs => exact ih (by rwa [List.getLast?_cons_cons] at hlast)
  | @join cs hgap ih =>
    cases cs with
    | nil => exact Or.inr (by simpa using hlast.symm)
    | cons e cs => exact ih (by simpa using hlast)
  | @joinReturn cs hgap ih =>
    cases cs with
    | nil => exact Or.inr (by simpa using hlast.symm)
    | cons e cs => exact ih (by simpa using hlast)

/-- A gap that joins no lines is blank. -/
theorem Gap.blank_of_unbroken {cs : List Char} (h : Gap cs) (hjoin : '\n' ∉ cs) : Blank cs := by
  cases h with
  | nil => simp [Blank]
  | @blank c cs hc hgap =>
    have hrest := hgap.blank_of_unbroken fun hmem => hjoin (List.mem_cons_of_mem _ hmem)
    refine List.forall_mem_cons.mpr ⟨?_, hrest⟩
    rcases hc with rfl | rfl | rfl <;> decide
  | join | joinReturn => simp at hjoin

/-- Blanks before something else are the last that stand together and the first. -/
theorem lastBlanks_eq_takeWhile {lead rest : List Char} (h : Blank lead)
    (hrest : ∀ c, rest.head? = some c → isBlank c = false) :
    lastBlanks lead = (lead ++ rest).takeWhile isBlank := by
  rw [takeWhile_blank_append h hrest]
  by_cases hne : lead = []
  · rw [hne]
    rfl
  · rw [← List.nil_append lead]
    exact lastBlanks_append_blanks hne h (by simp)

/-! ## Lexemes and what stands behind them -/

namespace Lexeme

/-- What is known of the ends of a lexeme and of the text behind it. -/
structure Edged (l : Lexeme) (rest : List Char) : Prop where
  significant : l.kind.significant?.isSome = true → ∃ c cs, l.text = c :: cs ∧ isBlank c = false
  blank : l.kind = .blank → l.text ≠ [] ∧ Blank l.text ∧
    ∀ c, rest.head? = some c → isBlank c = false
  joined : l.kind = .joinedBreak → l.text ≠ [] ∧ Gap l.text ∧ ∀ c ∈ l.text, isBlank c = false
  lineBreak : l.kind = .lineBreak → l.text.getLast? = some '\n'

/-- A blank starts nothing that means something. -/
theorem Starts.not_blank {c : Char} {cs : List Char} {kind : LexemeKind} {n : Nat}
    (h : Starts c cs kind n) (hkind : kind.significant?.isSome = true) : isBlank c = false := by
  rw [← Bool.not_eq_true]
  intro hblank
  have hc : c = ' ' ∨ c = '\t' ∨ c = '\x0c' := by
    simpa [isBlank, or_assoc] using hblank
  have hname : NameChar.isStart ' ' = false ∧ NameChar.isStart '\t' = false ∧
      NameChar.isStart '\x0c' = false := by decide
  cases h with
  | blank | lineBreak | returned | joined | joinedReturn | comment => cases hkind
  | string h _ => rcases hc with rfl | rfl | rfl <;> simp [opening?, isQuote, isStringMark] at h
  | name h => rcases hc with rfl | rfl | rfl <;> simp [hname] at h
  | number h => rcases hc with rfl | rfl | rfl <;> simp [numberLength?] at h
  | operator h =>
    rcases hc with rfl | rfl | rfl <;>
      simp [operatorLength?, longOperators, shortOperators, isOperatorChar] at h

theorem Starts.edged {c : Char} {cs : List Char} {kind : LexemeKind} {n : Nat}
    (h : Starts c cs kind n) : Edged ⟨kind, c :: cs.take n⟩ (cs.drop n) := by
  refine ⟨fun hkind => ⟨c, _, rfl, h.not_blank hkind⟩, ?_, ?_, ?_⟩
  · rintro rfl
    refine ⟨by simp, h.blanks, ?_⟩
    cases h with
    | blank =>
      have hrest : cs.drop (cs.takeWhile isBlank).length = cs.dropWhile isBlank := by
        have hsplit := List.takeWhile_append_dropWhile (p := isBlank) (l := cs)
        calc _ = (cs.takeWhile isBlank ++ cs.dropWhile isBlank).drop _ := by rw [hsplit]
          _ = cs.dropWhile isBlank := List.drop_left
      intro d hd
      have hstop := List.head?_dropWhile_not isBlank cs
      rw [hrest] at hd
      rw [hd] at hstop
      exact hstop
  · rintro rfl
    refine ⟨by simp, h.joins, ?_⟩
    cases h with
    | joined hc hcs =>
      rw [hc, hcs]
      simp [isBlank]
    | joinedReturn hc hcs =>
      rw [hc, hcs]
      simp [isBlank]
  · rintro rfl
    cases h with
    | lineBreak hc => rw [hc]; simp
    | returned hc hcs => rw [hc, hcs]; rfl

end Lexeme

/-! ## What a block spans -/

/-- A text that is not over ends in the bytes of its last character. -/
theorem slice_last {cs : List Char} {c : Char} (h : cs.getLast? = some c) (rest : List Char)
    (first : Nat) (hfirst : first < byteLength cs) (hc : c.utf8Size = 1) :
    (slice (String.ofList (cs ++ rest)) ⟨first, byteLength cs⟩).extract
      (byteLength cs - first - 1) (byteLength cs - first) = (String.ofList [c]).toUTF8 := by
  obtain ⟨init, rfl⟩ := List.getLast?_eq_some_iff.mp h
  have hmiddle := slice_middle init [c] rest
  have hone : byteLength [c] = 1 := by simp [byteLength, hc]
  rw [hone] at hmiddle
  rw [← hmiddle]
  simp only [slice, byteLength_append, hone] at hfirst ⊢
  rw [ByteArray.extract_extract]
  congr 1 <;> omega

/-- What a line adds to the indentation around it is found right before its first token, unless
that is behind a joined break. -/
theorem slice_lead (head lead rest : List Char) {current : List Char} (hgap : Gap lead)
    (hdeep : current.length < (lastBlanks lead).length) (hcontinues : current <+: lastBlanks lead) :
    slice (String.ofList (head ++ lead ++ rest))
        ⟨byteLength (head ++ lead) - (lastBlanks lead).length + current.length,
          byteLength (head ++ lead)⟩ =
        (String.ofList ((lastBlanks lead).drop current.length)).toUTF8 ↔
      lead.getLast? ≠ some '\n' := by
  obtain ⟨more, hmore⟩ := hcontinues
  have hblank := blank_lastBlanks lead
  have hadded : (lastBlanks lead).drop current.length = more := by rw [← hmore, List.drop_left]
  have hlength : (lastBlanks lead).length = current.length + more.length := by
    rw [← hmore, List.length_append]
  have hmoreBlank : Blank more := fun c hc =>
    hblank c (by rw [← hmore]; exact List.mem_append_right _ hc)
  have hcurrentBlank : Blank current := fun c hc =>
    hblank c (by rw [← hmore]; exact List.mem_append_left _ hc)
  have hlead := length_lastBlanks_le lead
  have hbytes := length_le_byteLength lead
  rw [hadded]
  cases hlast : lead.getLast? with
  | none =>
    rw [List.getLast?_eq_none_iff] at hlast
    rw [hlast] at hdeep
    simp [lastBlanks] at hdeep
  | some c =>
    rcases hgap.getLast hlast with hc | rfl
    · -- The blanks of the line are the last of what stands before the token.
      obtain ⟨before, hbefore⟩ := exists_append_lastBlanks hlast hc
      have hne : some c ≠ some '\n' := by
        rintro ⟨⟩
        simp [isBlank] at hc
      have hsplit : head ++ lead = head ++ before ++ current ++ more := by
        rw [hbefore, ← hmore]
        simp
      have hmiddle := slice_middle (head ++ before ++ current) more rest
      rw [← byteLength_append, ← hsplit] at hmiddle
      have hstart : byteLength (head ++ lead) - (lastBlanks lead).length + current.length =
          byteLength (head ++ before ++ current) := by
        rw [hsplit, hlength]
        simp only [byteLength_append, byteLength_of_blank hmoreBlank,
          byteLength_of_blank hcurrentBlank]
        omega
      rw [hstart]
      exact iff_of_true hmiddle hne
    · -- The last byte of the span breaks a line, and the block adds none.
      refine iff_of_false ?_ (by simp)
      intro heq
      have hwhole : (head ++ lead).getLast? = some '\n' := by
        rw [List.getLast?_append, hlast]
        rfl
      have hbreak := slice_last hwhole rest
        (byteLength (head ++ lead) - (lastBlanks lead).length + current.length)
        (by rw [byteLength_append]; omega) (by decide)
      have hmoreBytes := byteLength_of_blank hmoreBlank
      have hne : more ≠ [] := List.length_pos_iff.mp (by omega)
      obtain ⟨d, hd⟩ := Option.isSome_iff_exists.mp (List.getLast?_isSome.mpr hne)
      have hdblank := hmoreBlank d (List.mem_of_getLast? hd)
      have hdsize : byteLength [d] = 1 := byteLength_of_blank (by simpa [Blank] using hdblank)
      have hend := slice_last hd [] 0 (by omega) (by simpa [byteLength] using hdsize)
      have hmiddle := slice_middle [] more []
      rw [byteLength_nil, Nat.zero_add, List.nil_append] at hmiddle
      have hsize : byteLength (head ++ lead) - (byteLength (head ++ lead) -
          (lastBlanks lead).length + current.length) = byteLength more := by
        rw [byteLength_append]
        omega
      rw [hmiddle, ← heq, Nat.sub_zero, ← hsize, hbreak] at hend
      have hsame : String.ofList ['\n'] = String.ofList [d] := String.toByteArray_inj.mp hend
      rw [String.ofList_inj, List.cons.injEq] at hsame
      rw [← hsame.1] at hdblank
      simp [isBlank] at hdblank

end SourceMacros
