-- Nothing of a source is lost in its tokens. Their spans never overlap or go back, the tokens that
-- mark no block are the bytes of their spans, and between them stand only blanks and joins of two
-- lines. So tokens and gaps rebuild the source, and every byte outside the gaps is in one token.
import SourceMacros.Proofs.Lexemes
import SourceMacros.Proofs.TokenShape

namespace SourceMacros

/-! ## Bytes -/

/-- The bytes of a text in a span. -/
def slice (text : String) (span : Span) : ByteArray := text.toUTF8.extract span.start span.stop

@[simp]
theorem byteLength_nil : byteLength [] = 0 := rfl

@[simp]
theorem byteLength_append (cs ds : List Char) :
    byteLength (cs ++ ds) = byteLength cs + byteLength ds := by
  induction cs with
  | nil => simp
  | cons c cs ih =>
    simp only [byteLength, List.cons_append, List.foldr_cons] at ih ⊢
    omega

theorem size_toByteArray_ofList (cs : List Char) :
    (String.ofList cs).toByteArray.size = byteLength cs := by
  induction cs with
  | nil => rfl
  | cons c cs ih =>
    have hc : [c].utf8Encode.size = c.utf8Size := by simp [List.utf8Encode]
    rw [String.toByteArray_ofList] at ih ⊢
    rw [List.utf8Encode_cons, ByteArray.size_append, hc, ih]
    rfl

/-- What stands between a beginning and an end is found there. -/
theorem slice_middle (before cs after : List Char) :
    slice (String.ofList (before ++ cs ++ after))
        ⟨byteLength before, byteLength before + byteLength cs⟩ = (String.ofList cs).toUTF8 := by
  simp only [slice, String.toUTF8, String.ofList_append, String.toByteArray_append,
    ← size_toByteArray_ofList]
  have hafter := ByteArray.extract_append_size_add (a := (String.ofList before).toByteArray)
    (b := (String.ofList cs).toByteArray ++ (String.ofList after).toByteArray) (i := 0)
    (j := (String.ofList cs).toByteArray.size)
  rw [Nat.add_zero] at hafter
  rw [ByteArray.append_assoc, hafter]
  exact ByteArray.extract_append_eq_left rfl

/-! ## Spans in order -/

/-- An offset in a span. -/
def Span.Holds (span : Span) (i : Nat) : Prop := span.start ≤ i ∧ i < span.stop

instance (span : Span) (i : Nat) : Decidable (span.Holds i) :=
  inferInstanceAs (Decidable (_ ∧ _))

/-- Spans that start no earlier than those before them end, the first no earlier than `floor`. -/
def Ascend : Nat → List Span → Prop
  | _, [] => True
  | floor, span :: spans => floor ≤ span.start ∧ span.start ≤ span.stop ∧ Ascend span.stop spans

theorem Ascend.mono {low high : Nat} {spans : List Span} (h : Ascend high spans)
    (hle : low ≤ high) : Ascend low spans := by
  cases spans with
  | nil => trivial
  | cons span spans => exact ⟨Nat.le_trans hle h.1, h.2⟩

theorem Ascend.append {low high : Nat} {before after : List Span} (h : Ascend low before)
    (hstops : ∀ span ∈ before, span.stop ≤ high) (hle : low ≤ high) (hafter : Ascend high after) :
    Ascend low (before ++ after) := by
  induction before generalizing low with
  | nil => exact hafter.mono hle
  | cons span before ih =>
    exact ⟨h.1, h.2.1, ih h.2.2 (fun b hb => hstops b (by simp [hb])) (hstops span (by simp))⟩

/-- Spans at one offset stand in order. -/
theorem ascend_points (offset : Nat) {spans : List Span}
    (h : ∀ span ∈ spans, span = .point offset) : Ascend offset spans := by
  induction spans with
  | nil => trivial
  | cons span spans ih =>
    have hspan := h span (by simp)
    subst hspan
    exact ⟨Nat.le_refl _, Nat.le_refl _, ih fun b hb => h b (by simp [hb])⟩

theorem Ascend.start_le {floor : Nat} {spans : List Span} (h : Ascend floor spans) :
    ∀ span ∈ spans, floor ≤ span.start ∧ span.start ≤ span.stop := by
  induction spans generalizing floor with
  | nil => simp
  | cons span spans ih =>
    obtain ⟨hfloor, hwhole, hrest⟩ := h
    intro b hb
    rcases List.mem_cons.mp hb with rfl | hb
    · exact ⟨hfloor, hwhole⟩
    · obtain ⟨hstart, hstop⟩ := ih hrest b hb
      exact ⟨by omega, hstop⟩

theorem Ascend.pairwise {floor : Nat} {spans : List Span} (h : Ascend floor spans) :
    spans.Pairwise fun a b => a.stop ≤ b.start := by
  induction spans generalizing floor with
  | nil => exact .nil
  | cons span spans ih => exact .cons (fun b hb => (h.2.2.start_le b hb).1) (ih h.2.2)

/-- Of spans in order at most one holds an offset. -/
theorem Ascend.countP_le {floor : Nat} {spans : List Span} (h : Ascend floor spans) (i : Nat) :
    spans.countP (fun span => span.Holds i) ≤ 1 := by
  induction spans generalizing floor with
  | nil => simp
  | cons span spans ih =>
    by_cases hi : span.Holds i
    · have hnone : spans.countP (fun span => span.Holds i) = 0 := by
        rw [List.countP_eq_zero]
        intro b hb
        have hstart := (h.2.2.start_le b hb).1
        have hnot : ¬ b.Holds i := fun hb => by
          have hstop := hi.2
          have hle := hb.1
          omega
        simpa using hnot
      simp [hi, hnone]
    · simpa [List.countP_cons, hi] using ih h.2.2

/-! ## Tokens and gaps -/

/-- The kinds that mark blocks. -/
def TokenKind.isBlockMark : TokenKind → Bool
  | .indent | .dedent => true
  | _ => false

/-- The tokens that stand for a part of the text. -/
def written (tokens : List Token) : List Token := tokens.filter (!·.kind.isBlockMark)

@[simp]
theorem written_append (ts us : List Token) : written (ts ++ us) = written ts ++ written us := by
  simp [written]

theorem written_cons {t : Token} (h : t.kind.isBlockMark = false) (ts : List Token) :
    written (t :: ts) = t :: written ts := by
  simp [written, h]

/-- The spans before each token, the first one from an offset on. -/
def gapSpans : Nat → List Token → List Span
  | _, [] => []
  | offset, t :: ts => ⟨offset, t.span.start⟩ :: gapSpans t.span.stop ts

/-- A text from an offset on and the tokens in it, each behind a gap. The last one is empty. -/
inductive Fills : Nat → List Char → List Token → Prop
  | last {offset : Nat} {g : List Char} {t : Token} : Gap g → t.text = "" →
      t.span = .point (offset + byteLength g) → Fills offset g [t]
  | next {offset : Nat} {g cs : List Char} {t : Token} {ts : List Token} : Gap g →
      t.span = ⟨offset + byteLength g, offset + byteLength g + byteLength t.text.toList⟩ →
      Fills t.span.stop cs ts → Fills offset (g ++ (t.text.toList ++ cs)) (t :: ts)

variable {offset : Nat} {cs : List Char} {ts : List Token}

/-- A gap before the first token is a part of its gap. -/
theorem Fills.widen {g : List Char} (hg : Gap g) (h : Fills (offset + byteLength g) cs ts) :
    Fills offset (g ++ cs) ts := by
  generalize hstart : offset + byteLength g = start at h
  cases h with
  | last hgap htext hspan =>
    refine .last (hg.append hgap) htext ?_
    rw [hspan, byteLength_append, ← hstart, Nat.add_assoc]
  | @next _ g' _ t _ hgap hspan hrest =>
    rw [← List.append_assoc]
    refine .next (hg.append hgap) ?_ hrest
    rw [hspan, byteLength_append, ← hstart, Nat.add_assoc offset]

/-! ## Steps -/

namespace Layout

variable {s s' : Layout} {lexeme : Lexeme} {marks : List Mark}

theorem written_of_blocks (table : LineTable) (h : ∀ m ∈ marks, m.kind.isBlockMark = true) :
    written (marks.map (Mark.token table)) = [] := by
  simpa [written, List.filter_eq_nil_iff] using h

theorem closeBlocks_written (table : LineTable) (depth : Nat) (opened : List (List Char)) :
    written ((closeBlocks depth offset opened).1.map (Mark.token table)) = [] := by
  apply written_of_blocks
  intro m hm
  rw [(closeBlocks_marks _ _ _ m hm).1]
  rfl

theorem Indents.written_eq_nil (table : LineTable) {first : Nat} {opened : List (List Char)}
    (h : s.Indents first marks opened) : written (marks.map (Mark.token table)) = [] := by
  cases h with
  | stays => rfl
  | opens => rfl
  | closes => exact closeBlocks_written table _ _

theorem significant_written {kind : LexemeKind} {k : TokenKind}
    (h : kind.significant? = some k) : k.isBlockMark = false := by
  cases kind <;> simp_all [LexemeKind.significant?] <;> subst h <;> rfl

/-- A lexeme is a gap or becomes one token with its text and its span. -/
theorem Moves.gap_or_token {span : Span} (table : LineTable) (h : s.Moves lexeme span marks s') :
    (lexeme.kind = .blank ∨ lexeme.kind = .joinedBreak) ∧
        written (marks.map (Mark.token table)) = [] ∨
      ∃ kind, written (marks.map (Mark.token table)) =
        [Mark.token table ⟨kind, String.ofList lexeme.text, span⟩] := by
  cases h with
  | skips hkind => exact Or.inl ⟨hkind.imp_left And.left, rfl⟩
  | indents hkind => exact Or.inl ⟨Or.inl hkind, rfl⟩
  | comments | wraps | blanks | ends => exact Or.inr ⟨_, rfl⟩
  | @starts kind before _ _ hkind _ _ hindents =>
    refine Or.inr ⟨kind, ?_⟩
    rw [List.map_append, written_append, hindents.written_eq_nil table, List.nil_append]
    exact written_cons (significant_written hkind) []
  | @continues kind _ hkind => exact Or.inr ⟨kind, written_cons (significant_written hkind) []⟩

theorem finish_fills (table : LineTable) (h : s.finish offset = .ok marks) :
    Fills offset [] (written (marks.map (Mark.token table))) := by
  obtain ⟨-, rfl⟩ := finish_eq_ok h
  have hlast : Fills offset [] [Mark.token table ⟨.endMarker, "", .point offset⟩] :=
    .last .nil rfl rfl
  rw [List.map_append, List.map_append, written_append, written_append, closeBlocks_written,
    List.append_nil]
  cases s.atLineStart with
  | true => exact hlast
  | false => exact .next (t := Mark.token table ⟨.newline, "", .point offset⟩) .nil rfl hlast

/-- The tokens of a run fill the text of its lexemes. -/
theorem run_fills (table : LineTable) (lexemes : List Lexeme) (fault : Option ScanFault)
    {marks : Array Mark} (hparted : Lexeme.Parted lexemes)
    (h : s.run offset #[] lexemes fault = .ok marks) :
    Fills offset (lexemes.flatMap Lexeme.text)
      (written (marks.toList.map (Mark.token table))) := by
  induction lexemes generalizing s offset marks with
  | nil => exact finish_fills table (run_nil_eq_ok h).2
  | cons lexeme rest ih =>
    obtain ⟨first, s₁, later, hmoves, hlater, hmarks⟩ := run_cons_eq_ok h
    have hrest := ih hparted.tail hlater
    rw [hmarks, List.map_append, written_append, List.flatMap_cons]
    rcases hmoves.gap_or_token table with ⟨hgap, hnone⟩ | ⟨kind, hone⟩
    · rw [hnone, List.nil_append]
      exact hrest.widen (hparted.gap hgap)
    · rw [hone, List.singleton_append]
      have hspan : (Mark.token table ⟨kind, String.ofList lexeme.text,
          ⟨offset, offset + byteLength lexeme.text⟩⟩).span =
          ⟨offset + byteLength [], offset + byteLength [] +
            byteLength (String.ofList lexeme.text).toList⟩ := by
        simp [Mark.token, Token.place]
      simpa using Fills.next .nil hspan hrest

/-! ## Order -/

/-- The spans of tokens found so far end at `floor`. The indentation that waits for its line lies
behind it, unless a line break comes next and drops it. -/
def Waits (s : Layout) (floor offset : Nat) (lexemes : List Lexeme) : Prop :=
  floor ≤ offset ∧ ∀ l rest, lexemes = l :: rest → l.kind = .lineBreak ∨
    floor + s.lineIndent.length ≤ offset

/-- At the end of a lexeme nothing waits behind it. -/
theorem waits_next {rest : List Lexeme} (h : s.lineIndent = []) : s.Waits offset offset rest :=
  ⟨Nat.le_refl _, fun _ _ _ => Or.inr (by simp [h])⟩

theorem Indents.ascend {first floor : Nat} {opened : List (List Char)}
    (h : s.Indents first marks opened) (hle : floor + s.lineIndent.length ≤ first) :
    Ascend floor (marks.map Mark.span) ∧ ∀ span ∈ marks.map Mark.span, span.stop ≤ first := by
  cases h with
  | stays => simp [Ascend]
  | opens hdeep =>
    refine ⟨⟨?_, ?_, trivial⟩, by simp⟩
    · dsimp only
      omega
    · dsimp only
      omega
  | closes =>
    have hpoints : ∀ span ∈ (closeBlocks s.lineIndent.length first s.blocks).1.map Mark.span,
        span = .point first := by
      intro span hspan
      obtain ⟨m, hm, rfl⟩ := List.mem_map.mp hspan
      exact (closeBlocks_marks _ _ _ m hm).2
    refine ⟨(ascend_points first hpoints).mono (by omega), ?_⟩
    intro span hspan
    rw [hpoints span hspan]
    exact Nat.le_refl _

/-- A lexeme adds marks in order behind those found before. -/
theorem Moves.ascend {floor : Nat} {rest : List Lexeme}
    (h : s.Moves lexeme ⟨offset, offset + byteLength lexeme.text⟩ marks s') (hs : s.Sound)
    (hparted : Lexeme.Parted (lexeme :: rest)) (hwaits : s.Waits floor offset (lexeme :: rest)) :
    ∃ high, Ascend floor (marks.map Mark.span) ∧
      (∀ span ∈ marks.map Mark.span, span.stop ≤ high) ∧ floor ≤ high ∧
      s'.Waits high (offset + byteLength lexeme.text) rest := by
  obtain ⟨hfloor, hindent⟩ := hwaits
  have hindent := hindent lexeme rest rfl
  -- A mark of the whole lexeme ends where the next lexeme starts.
  have hone : ∀ kind text, Ascend floor (List.map Mark.span
      [⟨kind, text, ⟨offset, offset + byteLength lexeme.text⟩⟩]) ∧
      ∀ span ∈ List.map Mark.span [⟨kind, text, ⟨offset, offset + byteLength lexeme.text⟩⟩],
        span.stop ≤ offset + byteLength lexeme.text := by
    intro kind text
    exact ⟨⟨hfloor, by simp, trivial⟩, by simp⟩
  cases h with
  | skips hkind =>
    refine ⟨floor, trivial, by simp, Nat.le_refl _, by omega, fun _ _ _ => Or.inr ?_⟩
    rcases hindent with hbreak | hindent
    · rw [hbreak] at hkind
      simp at hkind
    · omega
  | indents =>
    refine ⟨floor, trivial, by simp, Nat.le_refl _, by omega, fun _ _ _ => Or.inr ?_⟩
    have := length_le_byteLength lexeme.text
    dsimp only
    omega
  | comments hkind =>
    refine ⟨_, (hone _ _).1, (hone _ _).2, by omega, Nat.le_refl _, ?_⟩
    rintro l after rfl
    exact Or.inl (hparted.comments [] lexeme l after rfl hkind)
  | wraps _ hbrackets =>
    have hlate : s.atLineStart = false := hs.later fun hstart => hbrackets hstart.2
    exact ⟨_, (hone _ _).1, (hone _ _).2, by omega, waits_next (hs.settled hlate)⟩
  | blanks | ends => exact ⟨_, (hone _ _).1, (hone _ _).2, by omega, waits_next rfl⟩
  | starts hkind _ _ hindents =>
    have hle : floor + s.lineIndent.length ≤ offset := by
      rcases hindent with hbreak | hindent
      · rw [hbreak] at hkind
        cases hkind
      · exact hindent
    obtain ⟨hbefore, hstops⟩ := hindents.ascend hle
    refine ⟨offset + byteLength lexeme.text, ?_, ?_, by omega, waits_next rfl⟩
    · rw [List.map_append]
      exact hbefore.append hstops (by omega) ⟨Nat.le_refl _, by simp, trivial⟩
    · intro span hspan
      rw [List.map_append, List.mem_append] at hspan
      rcases hspan with hspan | hspan
      · have := hstops span hspan
        dsimp only at this
        omega
      · exact (hone _ _).2 span hspan
  | continues _ hnot =>
    exact ⟨_, (hone _ _).1, (hone _ _).2, by omega, waits_next (hs.settled (hs.later hnot))⟩

theorem finish_ascend {floor : Nat} (h : s.finish offset = .ok marks) (hle : floor ≤ offset) :
    Ascend floor (marks.map Mark.span) := by
  obtain ⟨-, rfl⟩ := finish_eq_ok h
  refine (ascend_points offset ?_).mono hle
  intro span hspan
  obtain ⟨m, hm, rfl⟩ := List.mem_map.mp hspan
  rw [List.mem_append, List.mem_append, List.mem_singleton] at hm
  rcases hm with (hm | hm) | rfl
  · cases hstart : s.atLineStart <;> simp [hstart] at hm
    rw [hm]
  · exact (closeBlocks_marks _ _ _ m hm).2
  · rfl

/-- The marks of a run stand in order. -/
theorem run_ascend (lexemes : List Lexeme) (fault : Option ScanFault) {floor : Nat}
    {marks : Array Mark} (hs : s.Sound) (hparted : Lexeme.Parted lexemes)
    (hwaits : s.Waits floor offset lexemes) (h : s.run offset #[] lexemes fault = .ok marks) :
    Ascend floor (marks.toList.map Mark.span) := by
  induction lexemes generalizing s offset floor marks with
  | nil => exact finish_ascend (run_nil_eq_ok h).2 hwaits.1
  | cons lexeme rest ih =>
    obtain ⟨first, s₁, later, hmoves, hlater, hmarks⟩ := run_cons_eq_ok h
    obtain ⟨high, hfirst, hstops, hle, hnext⟩ := hmoves.ascend hs hparted hwaits
    rw [hmarks, List.map_append]
    exact hfirst.append hstops hle (ih (hmoves.sound hs) hparted.tail hnext hlater)

end Layout

/-! ## The source again -/

/-- Gaps and tokens in turn. -/
def interleave (gaps : List (List Char)) (ts : List Token) : List Char :=
  (List.zipWith (fun g t => g ++ t.text.toList) gaps ts).flatten

/-- Tokens that fill the rest of a text are the bytes of their spans, and the bytes before each of
them are a gap. In turn they are the rest of the text. -/
theorem Fills.parts (h : Fills offset cs ts) {before : List Char}
    (hbefore : byteLength before = offset) :
    (∀ t ∈ ts, slice (String.ofList (before ++ cs)) t.span = t.text.toUTF8) ∧
      ∃ gaps, (∀ g ∈ gaps, Gap g) ∧ gaps.map (fun g => (String.ofList g).toUTF8) =
        (gapSpans offset ts).map (slice (String.ofList (before ++ cs))) ∧
        interleave gaps ts = cs := by
  induction h generalizing before with
  | @last offset g t hgap htext hspan =>
    have htoken := slice_middle (before ++ g) [] []
    have hfront := slice_middle before g []
    simp only [List.append_nil, byteLength_append, byteLength_nil, hbefore] at htoken hfront
    refine ⟨?_, [g], by simpa using hgap, ?_, ?_⟩
    · simpa [hspan, htext, Span.point] using htoken
    · simpa [gapSpans, hspan, Span.point] using hfront.symm
    · simp [interleave, htext]
  | @next offset g cs t ts hgap hspan _ ih =>
    have htoken := slice_middle (before ++ g) t.text.toList cs
    have hfront := slice_middle before g (t.text.toList ++ cs)
    have hnext : byteLength (before ++ g ++ t.text.toList) = t.span.stop := by
      simp [hspan, hbefore, Nat.add_assoc]
    obtain ⟨htokens, gaps, hgaps, hslices, hrest⟩ := ih hnext
    simp only [List.append_assoc, byteLength_append, hbefore, String.ofList_toList]
      at htoken hfront htokens hslices
    rw [← hspan] at htoken
    refine ⟨?_, g :: gaps, ?_, ?_, ?_⟩
    · exact List.forall_mem_cons.mpr ⟨htoken, htokens⟩
    · exact List.forall_mem_cons.mpr ⟨hgap, hgaps⟩
    · rw [gapSpans, List.map_cons, List.map_cons, hslices, ← hfront, hspan]
    · simpa [interleave] using hrest

/-- An offset in a text that tokens fill is in a gap or in a token. -/
theorem Fills.held (h : Fills offset cs ts) {i : Nat} (hle : offset ≤ i)
    (hlt : i < offset + byteLength cs) :
    (∃ gap ∈ gapSpans offset ts, gap.Holds i) ∨ ∃ t ∈ ts, t.span.Holds i := by
  induction h with
  | last _ _ hspan =>
    left
    refine ⟨_, List.mem_cons_self, hle, ?_⟩
    rw [hspan]
    exact hlt
  | @next offset g cs t ts _ hspan _ ih =>
    have hstart : t.span.start = offset + byteLength g := by rw [hspan]
    have hstop : t.span.stop = t.span.start + byteLength t.text.toList := by rw [hspan]
    simp only [byteLength_append] at hlt
    by_cases hgap : i < t.span.start
    · exact Or.inl ⟨_, List.mem_cons_self, hle, hgap⟩
    · by_cases htoken : i < t.span.stop
      · exact Or.inr ⟨t, List.mem_cons_self, by omega, htoken⟩
      · rcases ih (by omega) (by omega) with ⟨gap, hmem, hi⟩ | ⟨u, hmem, hi⟩
        · exact Or.inl ⟨gap, List.mem_cons_of_mem _ hmem, hi⟩
        · exact Or.inr ⟨u, List.mem_cons_of_mem _ hmem, hi⟩

/-- The tokens of a source fill it, and the spans of all of them stand in order. -/
theorem tokenize_fills {name text : String} {tokens : List Token}
    (h : tokenize name text = .ok tokens) :
    Fills 0 text.toList (written tokens) ∧ Ascend 0 (tokens.map Token.span) := by
  obtain ⟨marks, hmarks, rfl⟩ := tokenize_eq_ok h
  have hscans := Lexeme.scans_of_scan (Layout.run_fault _ hmarks)
  constructor
  · have hfills := Layout.run_fills (.ofText text) _ _ hscans.parted hmarks
    rw [hscans.flatten] at hfills
    exact hfills
  · have hascend := Layout.run_ascend _ _ Layout.sound_start hscans.parted
      (Layout.waits_next rfl) hmarks
    rw [List.map_map]
    exact hascend

/-! ## The law -/

/-- A source and its tokens: what the spans say of the bytes of the source. -/
structure Covers (text : String) (tokens : List Token) : Prop where
  whole : ∀ t ∈ tokens, t.span.start ≤ t.span.stop
  ordered : tokens.Pairwise fun a b => a.span.stop ≤ b.span.start
  sliced : ∀ t ∈ written tokens, slice text t.span = t.text.toUTF8
  /-- The bytes before each token are a gap, and gaps and tokens in turn are the source. -/
  rebuilt : ∃ gaps, (∀ g ∈ gaps, Gap g) ∧
    gaps.map (fun g => (String.ofList g).toUTF8) =
      (gapSpans 0 (written tokens)).map (slice text) ∧
    interleave gaps (written tokens) = text.toList
  /-- A byte outside the gaps belongs to one token. -/
  held : ∀ i < text.utf8ByteSize, (∀ gap ∈ gapSpans 0 (written tokens), ¬ gap.Holds i) →
    tokens.countP (fun t => t.span.Holds i) = 1

/-- The tokens of a source cover it. -/
theorem nothing_of_a_source_is_lost_in_its_tokens {name text : String} {tokens : List Token}
    (h : tokenize name text = .ok tokens) : Covers text tokens := by
  obtain ⟨hfills, hascend⟩ := tokenize_fills h
  obtain ⟨hsliced, hrebuilt⟩ := hfills.parts byteLength_nil
  rw [List.nil_append, String.ofList_toList] at hsliced hrebuilt
  refine ⟨?_, ?_, hsliced, hrebuilt, ?_⟩
  · intro t ht
    exact (hascend.start_le t.span (List.mem_map_of_mem ht)).2
  · exact List.pairwise_map.mp hascend.pairwise
  · intro i hi hgaps
    have hmost := hascend.countP_le i
    rw [List.countP_map] at hmost
    apply Nat.le_antisymm hmost
    have hlt : i < 0 + byteLength text.toList := by
      rw [Nat.zero_add, ← size_toByteArray_ofList, String.ofList_toList]
      exact hi
    rcases hfills.held (Nat.zero_le i) hlt with ⟨gap, hgap, hholds⟩ | ⟨t, ht, hholds⟩
    · exact absurd hholds (hgaps gap hgap)
    · rw [Nat.succ_le_iff, List.countP_pos_iff]
      exact ⟨t, (List.mem_filter.mp ht).1, by simpa using hholds⟩

/-- Blocks, a joined line, a comment behind blanks, strings of two kinds and letters of several
bytes. -/
def coveredText : String := "if é:\r\n\t \\\r\n x = '''ü\n''' \x0c # ß\n\n  y(\"ö\",\n 1 )"

theorem nothing_of_the_covered_text_is_lost :
    ∃ tokens, tokenize "t" coveredText = .ok tokens ∧ Covers coveredText tokens := by
  have hlexes : (tokenize "t" coveredText).toOption.any (fun _ => true) = true := by decide +kernel
  obtain ⟨tokens, htokens, -⟩ := exists_ok_of_any hlexes
  exact ⟨tokens, htokens, nothing_of_a_source_is_lost_in_its_tokens htokens⟩

end SourceMacros
