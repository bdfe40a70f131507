-- Where indentation comes from. A logical line is indented by the blanks before its first token that
-- stand together last. These are the blanks at the start of its first physical line, unless joined
-- breaks come before the token; then other blanks may follow, and what a block adds may not be what
-- its token spans.
import SourceMacros.Proofs.Blanks
import SourceMacros.Proofs.Indentation

namespace SourceMacros

open Lexeme (isBlank)
open Layout (Blank)

/-! ## Where a logical line begins -/

/-- Where the last of the tokens that stand for a part of the text ends. -/
def reach (ts : List Token) : Nat := ((written ts).getLast?.map (·.span.stop)).getD 0

/-- No token of the same logical line stands before: the last one that means anything to a grammar
says nothing. -/
def OpensLine (before : List Token) : Prop :=
  ∀ u, (before.filter (!·.kind.isTrivia)).getLast? = some u → u.kind.isSignificant = false

/-- The text behind the tokens so far: a physical line begins behind `head`, and `lead` is all that
has come of it. -/
structure Begins (seen : List Char) (ts : List Token) (head lead : List Char) : Prop where
  seen : seen = head ++ lead
  reach : byteLength head = reach ts
  line : head = [] ∨ head.getLast? = some '\n'
  gap : Gap lead

/-- The indentation of each open block continues that of the block around it. -/
def Nested : List (List Char) → Prop
  | [] => True
  | block :: outer => outer.headD [] <+: block ∧ Nested outer

/-- Together, the blocks add the indentation of the innermost one. -/
theorem flatMap_added {blocks : List (List Char)} (h : Nested blocks) :
    (Layout.added blocks).reverse.flatMap String.toList = blocks.headD [] := by
  induction blocks with
  | nil => rfl
  | cons block outer ih =>
    obtain ⟨⟨more, hmore⟩, houter⟩ := h
    simp only [Layout.added, List.reverse_cons, List.flatMap_append, List.flatMap_singleton,
      ih houter, String.toList_ofList, List.headD_cons]
    rw [← hmore, List.drop_left]

/-- How the first token of a logical line stands in a text: a physical line begins behind `head`, and
`lead` stands before the token. -/
structure StartsLine (text : String) (before : List Token) (t : Token)
    (head lead rest : List Char) : Prop where
  split : text.toList = head ++ lead ++ rest
  begins : Begins (head ++ lead) before head lead
  start : t.span.start = byteLength (head ++ lead)
  first : ∃ c more, rest = c :: more ∧ isBlank c = false
  indentation : (openBlocks before).flatMap (·.text.toList) = lastBlanks lead
  /-- Without joined breaks, these are the blanks at the start of the physical line. -/
  own : '\n' ∉ lead → lastBlanks lead = (lead ++ rest).takeWhile isBlank
  /-- A block that the line opens has the bytes of its span, unless a joined break comes last. -/
  sliced : ∀ u, before.getLast? = some u → u.kind = .indent →
    (slice text u.span = u.text.toUTF8 ↔ lead.getLast? ≠ some '\n')

/-- Of the tokens `later`, which come behind `ts`, the first one of each logical line stands so. -/
def LinesStart (text : String) (ts later : List Token) : Prop :=
  ∀ mid t after, later = mid ++ t :: after → t.kind.isSignificant = true → OpensLine (ts ++ mid) →
    ∃ head lead rest, StartsLine text (ts ++ mid) t head lead rest

/-- A token that opens a block comes right before one that means something. -/
def BlocksLead (ts : List Token) : Prop :=
  ∀ before u after, ts = before ++ u :: after → u.kind = .indent →
    ∃ t more, after = t :: more ∧ t.kind.isSignificant = true

namespace Layout

/-- What holds between lexemes, with the text before them, the tokens so far and the text behind. -/
structure Between (s : Layout) (seen : List Char) (ts : List Token) (lexemes : List Lexeme)
    (rest : List Char) : Prop where
  sound : s.Sound
  nested : Nested s.blocks
  opened : (openBlocks ts).map Token.text = (added s.blocks).reverse
  unmarked : ∀ u, ts.getLast? = some u → u.kind ≠ .indent
  within : s.atLineStart = false → ¬ OpensLine ts
  -- Behind a comment the line is over, whatever has come of it.
  fresh : s.atLineStart = true → (∀ l more, lexemes = l :: more → l.kind = .lineBreak) ∨
    ∃ head lead, Begins seen ts head lead ∧ s.lineIndent = lastBlanks lead ∧
      ((∀ c, lead.getLast? = some c → isBlank c = false) ∨
        ∀ c, rest.head? = some c → isBlank c = false)

variable {s s' : Layout} {lexeme : Lexeme} {marks : List Mark} {ts : List Token}

/-! ## Blocks of a line -/

/-- Behind the marks that close blocks, those are open that are left. -/
theorem closeBlocks_opened (table : LineTable) (depth offset : Nat) {blocks : List (List Char)}
    (hnested : Nested blocks) (hts : (openBlocks ts).map Token.text = (added blocks).reverse) :
    Nested (closeBlocks depth offset blocks).2 ∧
      (openBlocks (ts ++ (closeBlocks depth offset blocks).1.map (Mark.token table))).map
        Token.text = (added (closeBlocks depth offset blocks).2).reverse := by
  induction blocks generalizing ts with
  | nil => simpa [closeBlocks] using And.intro hnested hts
  | cons block outer ih =>
    unfold closeBlocks
    by_cases hdeep : depth < block.length
    · simp only [hdeep, if_true, List.map_cons]
      rw [List.append_cons]
      apply ih hnested.2
      rw [PassRun.openBlocks_append]
      simp only [List.foldl_cons, List.foldl_nil, track, Mark.token_kind]
      rw [List.map_dropLast, hts]
      simp [added]
    · simpa [hdeep] using And.intro hnested hts

/-- Behind the marks of a line, the innermost block has its indentation. -/
theorem Indents.opened (table : LineTable) {first : Nat} {blocks : List (List Char)}
    (h : s.Indents first marks blocks) (hnested : Nested s.blocks)
    (hts : (openBlocks ts).map Token.text = (added s.blocks).reverse) :
    Nested blocks ∧ (openBlocks (ts ++ marks.map (Mark.token table))).map Token.text =
      (added blocks).reverse ∧ blocks.headD [] = s.lineIndent := by
  cases h with
  | stays hsame => exact ⟨hnested, by simpa using hts, hsame.symm⟩
  | opens _ hcontinues =>
    refine ⟨⟨List.isPrefixOf_iff_prefix.mp hcontinues, hnested⟩, ?_, rfl⟩
    rw [PassRun.openBlocks_append]
    simp [track, added, hts, current]
  | closes hmeets =>
    obtain ⟨hleft, hopened⟩ := closeBlocks_opened table s.lineIndent.length first hnested hts
    exact ⟨hleft, hopened, hmeets⟩

end Layout

/-! ## Tokens in turn -/

variable {ts us : List Token} {t : Token}

theorem reach_append_marks (h : written us = []) : reach (ts ++ us) = reach ts := by
  rw [reach, written_append, h, List.append_nil]
  rfl

theorem reach_append_token (h : t.kind.isBlockMark = false) : reach (ts ++ [t]) = t.span.stop := by
  rw [reach, written_append, written_cons h, List.getLast?_append]
  rfl

/-- A line break begins a physical line, of which nothing has come. -/
theorem begins_next {seen text : List Char} (ht : t.kind.isBlockMark = false)
    (hstop : t.span.stop = byteLength (seen ++ text)) (htext : text.getLast? = some '\n') :
    Begins (seen ++ text) (ts ++ [t]) (seen ++ text) [] := by
  refine ⟨by simp, by rw [reach_append_token ht, hstop], Or.inr ?_, .nil⟩
  rw [List.getLast?_append, htext]
  rfl

theorem Begins.widen {seen head lead text : List Char} (h : Begins seen ts head lead)
    (htext : Gap text) : Begins (seen ++ text) ts head (lead ++ text) :=
  ⟨by rw [h.seen, List.append_assoc], h.reach, h.line, h.gap.append htext⟩

/-- A token that means nothing to a grammar does not tell where a logical line starts. -/
theorem opensLine_append_trivia (h : t.kind.isTrivia = true) :
    OpensLine (ts ++ [t]) ↔ OpensLine ts := by
  simp [OpensLine, h]

theorem not_opensLine (h : t.kind.isSignificant = true) : ¬ OpensLine (ts ++ [t]) := by
  have hkept : t.kind.isTrivia = false := (Layout.isSignificant_ne h).1
  intro hopens
  have hnot := hopens t (by simp [hkept])
  rw [h] at hnot
  cases hnot

/-- A token that marks no block leaves the blocks as they are. -/
theorem openBlocks_append_plain (h : t.kind.isBlockMark = false) :
    openBlocks (ts ++ [t]) = openBlocks ts := by
  rw [PassRun.openBlocks_append]
  refine track_plain (fun _ => ⟨?_, ?_⟩) _
  · rintro (hk : t.kind = .indent)
    simp [hk, TokenKind.isBlockMark] at h
  · rintro (hk : t.kind = .dedent)
    simp [hk, TokenKind.isBlockMark] at h

theorem unmarked_append (h : t.kind.isBlockMark = false) :
    ∀ u, (ts ++ [t]).getLast? = some u → u.kind ≠ .indent := by
  intro u hu hk
  rw [List.getLast?_concat] at hu
  cases hu
  simp [hk, TokenKind.isBlockMark] at h

theorem LinesStart.append {text : String} (hfirst : LinesStart text ts us) {later : List Token}
    (hlater : LinesStart text (ts ++ us) later) : LinesStart text ts (us ++ later) := by
  intro mid t after hsplit ht hopens
  rcases List.append_eq_append_iff.mp hsplit with ⟨more, rfl, rfl⟩ | ⟨more, rfl, hmore⟩
  · rw [← List.append_assoc] at hopens ⊢
    exact hlater more t after rfl ht hopens
  · cases more with
    | nil =>
      rw [List.nil_append] at hmore
      rw [List.append_nil] at hlater
      have := hlater [] t after hmore.symm ht
      rw [List.append_nil] at this
      exact this hopens
    | cons _ more =>
      rw [List.cons_append, List.cons.injEq] at hmore
      rw [← hmore.1] at hfirst
      exact hfirst mid t more rfl ht hopens

theorem linesStart_of_insignificant (text : String) (ts : List Token)
    (h : ∀ t ∈ us, t.kind.isSignificant = false) : LinesStart text ts us := by
  rintro mid t after rfl ht
  rw [h t (by simp)] at ht
  cases ht

theorem linesStart_singleton {text : String}
    (h : OpensLine ts → ∃ head lead rest, StartsLine text ts t head lead rest) :
    LinesStart text ts [t] := by
  intro mid u after hsplit _ hopens
  obtain ⟨rfl, hu⟩ : mid = [] ∧ u = t := by
    cases mid with
    | nil => exact ⟨rfl, (List.cons.inj hsplit).1.symm⟩
    | cons _ mid => simp at hsplit
  rw [List.append_nil] at hopens ⊢
  rw [hu]
  exact h hopens

theorem BlocksLead.append (hts : BlocksLead ts) (hus : BlocksLead us) : BlocksLead (ts ++ us) := by
  intro before u after hsplit hu
  rcases List.append_eq_append_iff.mp hsplit with ⟨more, rfl, rfl⟩ | ⟨more, rfl, hmore⟩
  · exact hus more u after rfl hu
  · cases more with
    | nil => exact hus [] u after hmore.symm hu
    | cons _ more =>
      rw [List.cons_append, List.cons.injEq] at hmore
      obtain ⟨rfl, rfl⟩ := hmore
      obtain ⟨t, more, rfl, ht⟩ := hts before u more rfl hu
      exact ⟨t, more ++ us, rfl, ht⟩

theorem blocksLead_of_unmarked (h : ∀ t ∈ ts, t.kind ≠ .indent) : BlocksLead ts := by
  rintro before u after rfl hu
  exact absurd hu (h u (by simp))

/-! ## Steps -/

namespace Layout

variable {s s' : Layout} {lexeme : Lexeme} {marks : List Mark} {lexemes : List Lexeme}
  {seen rest : List Char}

/-- What a lexeme leaves for those behind it. -/
theorem Moves.between (table : LineTable)
    (h : s.Moves lexeme ⟨byteLength seen, byteLength (seen ++ lexeme.text)⟩ marks s')
    (hs : s.Between seen ts (lexeme :: lexemes) (lexeme.text ++ rest))
    (hedged : lexeme.Edged rest) (hparted : Lexeme.Parted (lexeme :: lexemes)) :
    s'.Between (seen ++ lexeme.text) (ts ++ marks.map (Mark.token table)) lexemes rest := by
  have hsound := h.sound hs.sound
  -- Before anything but a line break, a line that starts has its lead.
  have hlead : s.atLineStart = true → lexeme.kind ≠ .lineBreak → ∃ head lead,
      Begins seen ts head lead ∧ s.lineIndent = lastBlanks lead ∧
        ((∀ c, lead.getLast? = some c → isBlank c = false) ∨
          ∀ c, (lexeme.text ++ rest).head? = some c → isBlank c = false) := by
    intro hstart hkind
    exact (hs.fresh hstart).resolve_left fun hbreak => hkind (hbreak lexeme lexemes rfl)
  have hone {t : Token} (ht : t.kind.isBlockMark = false) :
      (openBlocks (ts ++ [t])).map Token.text = (added s.blocks).reverse := by
    rw [openBlocks_append_plain ht, hs.opened]
  cases h with
  | skips hkind =>
    rw [List.map_nil, List.append_nil]
    refine ⟨hsound, hs.nested, hs.opened, hs.unmarked, hs.within, fun hstart => Or.inr ?_⟩
    rcases hkind with ⟨-, hnot⟩ | hkind
    · exact absurd ⟨hstart, hs.sound.unbracketed hstart⟩ hnot
    obtain ⟨head, lead, hbegins, hindent, -⟩ := hlead hstart (by simp [hkind])
    obtain ⟨hne, hgap, hplain⟩ := hedged.joined hkind
    refine ⟨head, lead ++ lexeme.text, hbegins.widen hgap, ?_, Or.inl ?_⟩
    · rw [hindent, lastBlanks_append_plain _ hplain]
    · intro c hc
      obtain ⟨d, hd⟩ := Option.isSome_iff_exists.mp (List.getLast?_isSome.mpr hne)
      rw [List.getLast?_append, hd] at hc
      cases hc
      exact hplain c (List.mem_of_getLast? hd)
  | indents hkind hstart =>
    rw [List.map_nil, List.append_nil]
    refine ⟨hsound, hs.nested, hs.opened, hs.unmarked, hs.within, fun _ => Or.inr ?_⟩
    obtain ⟨head, lead, hbegins, -, hlast⟩ := hlead hstart (by simp [hkind])
    obtain ⟨hne, hblank, hstop⟩ := hedged.blank hkind
    -- Blanks come behind no others: what stands before them ends in something else.
    have hlast : ∀ c, lead.getLast? = some c → isBlank c = false := by
      refine hlast.resolve_right fun hnot => ?_
      obtain ⟨c, cs, htext⟩ := List.exists_cons_of_ne_nil hne
      have hc := hblank c (by simp [htext])
      rw [hnot c (by simp [htext])] at hc
      cases hc
    exact ⟨head, lead ++ lexeme.text, hbegins.widen (gap_of_blanks hblank),
      (lastBlanks_append_blanks hne hblank hlast).symm, Or.inr hstop⟩
  | comments hkind =>
    refine ⟨hsound, hs.nested, hone rfl, unmarked_append rfl, fun hlate => ?_, fun _ => Or.inl ?_⟩
    · exact fun hopens => hs.within hlate ((opensLine_append_trivia rfl).mp hopens)
    · rintro l after rfl
      exact hparted.comments [] lexeme l after rfl hkind
  | wraps _ hbrackets =>
    have hlate : s.atLineStart = false := hs.sound.later fun hstart => hbrackets hstart.2
    refine ⟨hsound, hs.nested, hone rfl, unmarked_append rfl, fun _ => ?_, by simp [hlate]⟩
    exact fun hopens => hs.within hlate ((opensLine_append_trivia rfl).mp hopens)
  | blanks hkind _ hstart =>
    refine ⟨hsound, hs.nested, hone rfl, unmarked_append rfl, by simp [hstart], fun _ => Or.inr ?_⟩
    exact ⟨_, [], begins_next rfl rfl (hedged.lineBreak hkind), rfl, by simp⟩
  | ends hkind =>
    refine ⟨hsound, hs.nested, hone rfl, unmarked_append rfl, by simp, fun _ => Or.inr ?_⟩
    exact ⟨_, [], begins_next rfl rfl (hedged.lineBreak hkind), rfl, by simp⟩
  | starts hkind _ _ hindents =>
    have hplain := significant_written hkind
    obtain ⟨hnested, hopened, -⟩ := hindents.opened table hs.nested hs.opened
    rw [List.map_append, ← List.append_assoc]
    refine ⟨hsound, hnested, ?_, unmarked_append hplain,
      fun _ => not_opensLine (significant_isSignificant hkind), by simp⟩
    rw [List.map_singleton, openBlocks_append_plain hplain, hopened]
  | continues hkind =>
    have hplain := significant_written hkind
    exact ⟨hsound, hs.nested, hone hplain, unmarked_append hplain,
      fun _ => not_opensLine (significant_isSignificant hkind), by simp⟩

/-- A line that opens a block shows in its span what the block adds, unless a joined break comes
before its first token. -/
theorem Indents.sliced (table : LineTable) {head lead : List Char} {blocks : List (List Char)}
    (h : s.Indents (byteLength (head ++ lead)) marks blocks) (hgap : Gap lead)
    (hindent : s.lineIndent = lastBlanks lead) (hts : ∀ u, ts.getLast? = some u → u.kind ≠ .indent)
    (rest : List Char) :
    ∀ u, (ts ++ marks.map (Mark.token table)).getLast? = some u → u.kind = .indent →
      (slice (String.ofList (head ++ lead ++ rest)) u.span = u.text.toUTF8 ↔
        lead.getLast? ≠ some '\n') := by
  intro u hu hk
  cases h with
  | stays =>
    rw [List.map_nil, List.append_nil] at hu
    exact absurd hk (hts u hu)
  | opens hdeep hcontinues =>
    rw [List.map_singleton, List.getLast?_concat] at hu
    cases hu
    rw [hindent] at hdeep hcontinues ⊢
    exact slice_lead head lead rest hgap hdeep (List.isPrefixOf_iff_prefix.mp hcontinues)
  | closes =>
    rw [List.getLast?_append, Option.or_eq_some_iff] at hu
    rcases hu with hu | ⟨-, hu⟩
    · obtain ⟨m, hm, rfl⟩ := List.mem_map.mp (List.mem_of_getLast? hu)
      rw [Mark.token_kind, (closeBlocks_marks _ _ _ m hm).1] at hk
      cases hk
    · exact absurd hk (hts u hu)

theorem isSignificant_of_blockMark {k : TokenKind} (h : k.isBlockMark = true) :
    k.isSignificant = false := by
  cases k <;> simp_all [TokenKind.isBlockMark, TokenKind.isSignificant]

theorem Indents.isBlockMark {first : Nat} {blocks : List (List Char)}
    (h : s.Indents first marks blocks) : ∀ m ∈ marks, m.kind.isBlockMark = true := by
  cases h with
  | stays => simp
  | opens => simp [TokenKind.isBlockMark]
  | closes =>
    intro m hm
    rw [(closeBlocks_marks _ _ _ m hm).1]
    rfl

/-- A lexeme starts no logical line but the one it is the first of. -/
theorem Moves.linesStart (table : LineTable)
    (h : s.Moves lexeme ⟨byteLength seen, byteLength (seen ++ lexeme.text)⟩ marks s')
    (hs : s.Between seen ts (lexeme :: lexemes) (lexeme.text ++ rest))
    (hedged : lexeme.Edged rest) :
    LinesStart (String.ofList (seen ++ (lexeme.text ++ rest))) ts
      (marks.map (Mark.token table)) := by
  cases h with
  | skips | indents => exact linesStart_of_insignificant _ _ (by simp)
  | comments | wraps | blanks | ends =>
    exact linesStart_of_insignificant _ _ (by simp [TokenKind.isSignificant])
  | @starts kind before blocks _ hkind hstart _ hindents =>
    rw [List.map_append]
    refine LinesStart.append (linesStart_of_insignificant _ _ ?_) (linesStart_singleton fun _ => ?_)
    · intro t ht
      obtain ⟨m, hm, rfl⟩ := List.mem_map.mp ht
      exact isSignificant_of_blockMark (hindents.isBlockMark m hm)
    have hnobreak : ¬ ∀ l more, lexeme :: lexemes = l :: more → l.kind = .lineBreak := by
      intro hbreak
      rw [hbreak lexeme lexemes rfl] at hkind
      cases hkind
    obtain ⟨head, lead, hbegins, hindent, -⟩ := (hs.fresh hstart).resolve_left hnobreak
    obtain ⟨hnested, hopened, hinner⟩ := hindents.opened table hs.nested hs.opened
    obtain ⟨c, cs, htext, hc⟩ := hedged.significant (by rw [hkind]; rfl)
    have hseen := hbegins.seen
    subst hseen
    refine ⟨head, lead, lexeme.text ++ rest, by rw [String.toList_ofList],
      ⟨rfl, ?_, hbegins.line, hbegins.gap⟩, rfl, ⟨c, cs ++ rest, by rw [htext]; rfl, hc⟩, ?_,
      fun hjoin => ?_, hindents.sliced table hbegins.gap hindent hs.unmarked _⟩
    · rw [reach_append_marks (hindents.written_eq_nil table), hbegins.reach]
    · rw [← hindent, ← hinner, ← flatMap_added hnested, ← hopened, List.flatMap_map]
    · refine lastBlanks_eq_takeWhile (hbegins.gap.blank_of_unbroken hjoin) fun d hd => ?_
      rw [htext] at hd
      cases hd
      exact hc
  | continues hkind hnot =>
    refine linesStart_singleton fun hopens => ?_
    exact absurd hopens (hs.within (hs.sound.later hnot))

theorem Moves.blocksLead (table : LineTable) {span : Span} (h : s.Moves lexeme span marks s') :
    BlocksLead (marks.map (Mark.token table)) := by
  cases h with
  | skips | indents | comments | wraps | blanks | ends => exact blocksLead_of_unmarked (by simp)
  | @starts kind before blocks _ hkind _ _ hindents =>
    have hsig := significant_isSignificant hkind
    have hi := (isSignificant_ne hsig).2.1
    cases hindents with
    | stays => exact blocksLead_of_unmarked (by simpa using hi)
    | opens =>
      intro before u after hsplit hu
      cases before with
      | nil =>
        cases hsplit
        exact ⟨_, [], rfl, hsig⟩
      | cons _ before =>
        cases before with
        | nil =>
          cases hsplit
          exact absurd hu hi
        | cons _ before => simp at hsplit
    | closes =>
      refine blocksLead_of_unmarked ?_
      intro t ht
      obtain ⟨m, hm, rfl⟩ := List.mem_map.mp ht
      rcases List.mem_append.mp hm with hm | hm
      · rw [Mark.token_kind, (closeBlocks_marks _ _ _ m hm).1]
        simp
      · rw [List.mem_singleton.mp hm]
        exact hi
  | continues hkind =>
    exact blocksLead_of_unmarked
      (by simpa using (isSignificant_ne (significant_isSignificant hkind)).2.1)

/-- The end of a source says nothing more. -/
theorem finish_insignificant {offset : Nat} (h : s.finish offset = .ok marks) :
    ∀ m ∈ marks, m.kind.isSignificant = false ∧ m.kind ≠ .indent := by
  obtain ⟨-, rfl⟩ := finish_eq_ok h
  intro m hm
  rw [List.mem_append, List.mem_append, List.mem_singleton] at hm
  rcases hm with (hm | hm) | rfl
  · cases hstart : s.atLineStart <;> simp [hstart] at hm
    simp [hm, TokenKind.isSignificant]
  · simp [(closeBlocks_marks _ _ _ m hm).1, TokenKind.isSignificant]
  · simp [TokenKind.isSignificant]

/-- The tokens of a run, line by line. -/
theorem run_linesStart (table : LineTable) {fault : Option ScanFault} {found : Array Mark}
    (hscans : Lexeme.Scans rest lexemes) (hs : s.Between seen ts lexemes rest)
    (h : s.run (byteLength seen) #[] lexemes fault = .ok found) :
    LinesStart (String.ofList (seen ++ rest)) ts (found.toList.map (Mark.token table)) ∧
      BlocksLead (found.toList.map (Mark.token table)) := by
  induction hscans generalizing s seen ts found with
  | nil =>
    have hlast := finish_insignificant (run_nil_eq_ok h).2
    constructor
    · refine linesStart_of_insignificant _ _ fun t ht => ?_
      obtain ⟨m, hm, rfl⟩ := List.mem_map.mp ht
      exact (hlast m hm).1
    · refine blocksLead_of_unmarked fun t ht => ?_
      obtain ⟨m, hm, rfl⟩ := List.mem_map.mp ht
      exact (hlast m hm).2
  | @cons c cs kind n lexemes hstarts hlater ih =>
    have hparted := (Lexeme.Scans.cons hstarts hlater).parted
    have hsplit : c :: cs = (c :: cs.take n) ++ cs.drop n := by simp
    obtain ⟨first, s₁, later, hmoves, hrun, hmarks⟩ := run_cons_eq_ok h
    dsimp only at hmoves hrun
    rw [← byteLength_append] at hmoves hrun
    rw [hsplit] at hs ⊢
    have hnext := hmoves.between table hs hstarts.edged hparted
    obtain ⟨hlines, hblocks⟩ := ih hnext hrun
    rw [List.append_assoc] at hlines
    rw [hmarks, List.map_append]
    exact ⟨(hmoves.linesStart table hs hstarts.edged).append hlines,
      (hmoves.blocksLead table).append hblocks⟩

theorem between_start (lexemes : List Lexeme) (cs : List Char) :
    Between {} [] [] lexemes cs := by
  refine ⟨sound_start, trivial, rfl, by simp, by simp, fun _ => Or.inr ⟨[], [], ?_, rfl, by simp⟩⟩
  exact ⟨rfl, rfl, Or.inl rfl, .nil⟩

end Layout

/-! ## The law -/

/-- A logical line is indented by those blanks before its first token that stand together last, and
the blocks that are open there add up to them. Only a joined break sets them apart from the blanks
at the start of the physical line, or a block from the bytes of its span. -/
theorem a_line_is_indented_by_the_last_blanks_before_it {name text : String} {tokens : List Token}
    (h : tokenize name text = .ok tokens) : LinesStart text [] tokens ∧ BlocksLead tokens := by
  obtain ⟨marks, hmarks, rfl⟩ := tokenize_eq_ok h
  have hscans := Lexeme.scans_of_scan (Layout.run_fault _ hmarks)
  have hlines := Layout.run_linesStart (.ofText text) hscans (Layout.between_start _ _) hmarks
  rw [List.nil_append, String.ofList_toList] at hlines
  exact hlines

/-- Blanks on both sides of a joined break. -/
def joinedText : String := "if a:\n  \\\n    b\n"

theorem the_joined_text_is_indented_by_its_last_blanks :
    ∃ tokens, tokenize "t" joinedText = .ok tokens ∧ LinesStart joinedText [] tokens ∧
      BlocksLead tokens := by
  have hlexes : (tokenize "t" joinedText).toOption.any (fun _ => true) = true := by decide
  obtain ⟨tokens, htokens, -⟩ := exists_ok_of_any hlexes
  exact ⟨tokens, htokens, a_line_is_indented_by_the_last_blanks_before_it htokens⟩

/-- Blanks before a joined break and none behind it. -/
def severedText : String := "  \\\nx\n"

/-- A joined break puts a block beside the bytes of its span. Blanks behind one are taken for the
indentation of a line whose physical line starts with others. -/
theorem a_joined_break_misplaces_the_indentation_of_a_line :
    (∃ tokens, tokenize "t" severedText = .ok tokens ∧
      ∃ u ∈ tokens, u.kind = .indent ∧ slice severedText u.span ≠ u.text.toUTF8) ∧
    ∃ before t after, tokenize "t" joinedText = .ok (before ++ t :: after) ∧
      t.kind.isSignificant = true ∧ OpensLine before ∧
      (openBlocks before).flatMap (·.text.toList) = "    ".toList ∧
      ∃ head line, joinedText.toList = head ++ line ∧ byteLength head = reach before ∧
        head.getLast? = some '\n' ∧ line.takeWhile isBlank = "  ".toList := by
  constructor
  · have hsevered : (tokenize "t" severedText).toOption.any (fun tokens => tokens.any fun u =>
        decide (u.kind = .indent ∧ slice severedText u.span ≠ u.text.toUTF8)) = true := by
      decide +kernel
    obtain ⟨tokens, htokens, hany⟩ := exists_ok_of_any hsevered
    obtain ⟨u, hu, hsliced⟩ := List.any_eq_true.mp hany
    exact ⟨tokens, htokens, u, hu, of_decide_eq_true hsliced⟩
  · have hjoined : (tokenize "t" joinedText).toOption.any (fun tokens =>
        match tokens.drop 5 with
        | [] => false
        | t :: _ =>
          t.kind.isSignificant &&
          ((tokens.take 5).filter (!·.kind.isTrivia)).getLast?.all (!·.kind.isSignificant) &&
          (openBlocks (tokens.take 5)).flatMap (·.text.toList) == "    ".toList &&
          reach (tokens.take 5) == 6) = true := by
      decide +kernel
    obtain ⟨tokens, htokens, hcheck⟩ := exists_ok_of_any hjoined
    cases hrest : tokens.drop 5 with
    | nil => simp [hrest] at hcheck
    | cons t after =>
      simp only [hrest, Bool.and_eq_true, beq_iff_eq] at hcheck
      obtain ⟨⟨⟨hsig, hopens⟩, hblocks⟩, hreach⟩ := hcheck
      refine ⟨tokens.take 5, t, after, ?_, hsig, ?_, hblocks, "if a:\n".toList,
        "  \\\n    b\n".toList, by decide, ?_, by decide, by decide⟩
      · rw [← hrest, List.take_append_drop, htokens]
      · intro u hu
        rw [hu] at hopens
        simpa using hopens
      · rw [hreach]
        decide

end SourceMacros
