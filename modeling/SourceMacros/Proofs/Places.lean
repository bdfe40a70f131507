-- Where tokens stand. A token has the text of the lines it stands on, its own text is found there
-- at its column, and it ends right behind its last byte. From token to token positions never go
-- back.
import SourceMacros.Proofs.LineFeeds

namespace SourceMacros

/-! ## Lines -/

/-- A part of a text that is made of the lines from one number to another, as far as the text has
them. -/
structure WholeLines (first last : Nat) (before part after : List Char) : Prop where
  first : before.count '\n' + 1 = first
  opens : before = [] ∨ before.getLast? = some '\n'
  closes : ((before ++ part).count '\n' = last ∧ (before ++ part).getLast? = some '\n') ∨
    ((before ++ part).count '\n' < last ∧ after = [])

namespace LineTable

variable (text : String)

/-- The lines up to one, and those behind it up to another. -/
theorem firstLines_append_between {first last : Nat} (hpos : 0 < first) (hle : first ≤ last + 1) :
    firstLines (first - 1) text.toList ++ ((ofText text).between first last).toList =
      firstLines last text.toList := by
  have hlines : ((ofText text).between first last).toList =
      (((physicalLines text.toList).take last).drop (first - 1)).flatten := by
    have hextract : ((ofText text).lines.extract (first - 1) last).toList =
        (((physicalLines text.toList).take last).drop (first - 1)).map String.ofList := by
      simp [ofText, List.extract_eq_take_drop, List.drop_take, List.map_take, List.map_drop]
    rw [between_eq_join, String.toList_join, hextract, List.flatMap_map]
    simp only [String.toList_ofList, List.flatMap_id']
  have hfirst : (physicalLines text.toList).take (first - 1) =
      ((physicalLines text.toList).take last).take (first - 1) := by
    rw [List.take_take, Nat.min_eq_left (by omega)]
  rw [hlines, firstLines, hfirst, ← List.flatten_append, List.take_append_drop, firstLines]

/-- A run of lines from a line that the text has is made of whole lines. -/
theorem between_wholeLines {first last : Nat} (hpos : 0 < first)
    (hhas : first ≤ text.toList.count '\n' + 1) (hle : first ≤ last) :
    ∃ after, text.toList = firstLines (first - 1) text.toList ++
        ((ofText text).between first last).toList ++ after ∧
      WholeLines first last (firstLines (first - 1) text.toList)
        ((ofText text).between first last).toList after := by
  have hparts := firstLines_append_between text hpos (Nat.le_succ_of_le hle)
  obtain ⟨after, hafter⟩ := firstLines_begins last text.toList
  refine ⟨after, by rw [hparts, hafter], ?_, ?_, ?_⟩
  · rw [count_firstLines]
    omega
  · by_cases hfirst : first - 1 = 0
    · exact Or.inl (by rw [hfirst, firstLines_zero])
    · obtain ⟨front, hfront⟩ := exists_firstLines text.toList (n := first - 2) (by omega)
      rw [show first - 2 + 1 = first - 1 by omega] at hfront
      exact Or.inr (by rw [hfront, List.getLast?_concat])
  · rw [hparts, count_firstLines]
    by_cases hlast : last ≤ text.toList.count '\n'
    · obtain ⟨front, hfront⟩ := exists_firstLines text.toList (n := last - 1) (by omega)
      rw [Nat.sub_add_cancel (by omega)] at hfront
      exact Or.inl ⟨by omega, by rw [hfront, List.getLast?_concat]⟩
    · rw [firstLines_of_lt text.toList (by omega)] at hafter
      exact Or.inr ⟨by omega, by simpa using hafter⟩

/-! ## Ends of spans -/

variable {text : String}

/-- The lines up to that of an offset hold the byte there, if the text does. -/
theorem Found.reaches {cs : List Char} {offset : Nat} {p : Position} (h : Found cs offset p) :
    min (offset + 1) (byteLength cs) ≤ byteLength (firstLines p.line cs) := by
  by_cases hlast : p.line ≤ cs.count '\n'
  · have := h.within hlast
    omega
  · rw [firstLines_of_lt cs (by omega)]
    omega

theorem endPosition_empty {span : Span} (h : span.length = 0) :
    (ofText text).endPosition span = (ofText text).position span.start := by
  unfold endPosition
  rw [if_pos h]

/-- A span that holds something ends right behind its last byte. -/
theorem endPosition_found (text : String) {span : Span} (h : span.length ≠ 0) :
    ∃ column, Found text.toList (span.stop - 1) ⟨((ofText text).endPosition span).line, column⟩ ∧
      ((ofText text).endPosition span).column = column + 1 := by
  unfold endPosition
  rw [if_neg h]
  exact ⟨_, position_found text (span.stop - 1), rfl⟩

/-- A span of the text lies before the end of the line on which it ends. -/
theorem stop_le_firstLines (text : String) (span : Span) (hwhole : span.start ≤ span.stop)
    (hstop : span.stop ≤ byteLength text.toList) :
    span.stop ≤ byteLength (firstLines ((ofText text).endPosition span).line text.toList) := by
  by_cases hempty : span.length = 0
  · have hreaches := (position_found text span.start).reaches
    rw [endPosition_empty hempty]
    unfold Span.length at hempty
    omega
  · obtain ⟨column, hfound, -⟩ := endPosition_found text hempty
    have hreaches := hfound.reaches
    dsimp only at hreaches
    omega

end LineTable

/-! ## Order -/

/-- A position that is not past another one: on an earlier line, or on the same line and no
further. -/
def Position.NotPast (p q : Position) : Prop :=
  p.line < q.line ∨ p.line = q.line ∧ p.column ≤ q.column

theorem Position.NotPast.trans {p q r : Position} (h : p.NotPast q) (h' : q.NotPast r) :
    p.NotPast r := by
  unfold NotPast at *
  omega

namespace LineTable

variable {text : String}

theorem position_notPast (text : String) {a b : Nat} (h : a ≤ b) :
    ((ofText text).position a).NotPast ((ofText text).position b) := by
  have hcolumn := (position_found text a).column
  have hcolumn' := (position_found text b).column
  rcases Nat.lt_or_eq_of_le (position_line_mono text h) with hlt | heq
  · exact Or.inl hlt
  · rw [heq] at hcolumn
    exact Or.inr ⟨heq, by omega⟩

/-- A span starts no later than it ends. -/
theorem position_notPast_endPosition {span : Span} :
    ((ofText text).position span.start).NotPast ((ofText text).endPosition span) := by
  by_cases hempty : span.length = 0
  · rw [endPosition_empty hempty]
    exact position_notPast text (Nat.le_refl _)
  · unfold endPosition
    rw [if_neg hempty]
    unfold Span.length at hempty
    have hlast := position_notPast text (a := span.start) (b := span.stop - 1) (by omega)
    unfold Position.NotPast at *
    dsimp only
    omega

/-- A span ends no later than what comes behind it starts. -/
theorem endPosition_notPast (text : String) {span : Span} {offset : Nat}
    (hwhole : span.start ≤ span.stop) (h : span.stop ≤ offset) :
    ((ofText text).endPosition span).NotPast ((ofText text).position offset) := by
  by_cases hempty : span.length = 0
  · rw [endPosition_empty hempty]
    exact position_notPast text (by omega)
  · obtain ⟨column, hfound, hend⟩ := endPosition_found text hempty
    have hcolumn := hfound.column
    have hcolumn' := (position_found text offset).column
    rcases Nat.lt_or_eq_of_le (endPosition_line_le text hwhole h) with hlt | heq
    · exact Or.inl hlt
    · unfold Span.length at hempty
      dsimp only at hcolumn
      rw [heq] at hcolumn
      exact Or.inr ⟨heq, by omega⟩

end LineTable

/-! ## Tokens -/

/-- Of two beginnings of a text, the one of fewer bytes is a beginning of the other. -/
theorem prefix_of_byteLength_le {front whole cs : List Char} (h : front <+: cs)
    (h' : whole <+: cs) (hle : byteLength front ≤ byteLength whole) : front <+: whole := by
  rcases List.prefix_or_prefix_of_prefix h h' with hprefix | ⟨more, rfl⟩
  · exact hprefix
  · rw [byteLength_append] at hle
    have hlength := length_le_byteLength more
    have hnil : more = [] := List.length_eq_zero_iff.mp (by omega)
    simp [hnil]

/-- A part of a text with the bytes of a span. -/
def Spans (text part : List Char) (span : Span) : Prop :=
  ∃ before after, text = before ++ part ++ after ∧
    span = ⟨byteLength before, byteLength before + byteLength part⟩

theorem Fills.spans {offset : Nat} {cs : List Char} {ts : List Token} (h : Fills offset cs ts)
    {before : List Char} (hbefore : byteLength before = offset) :
    ∀ t ∈ ts, Spans (before ++ cs) t.text.toList t.span := by
  induction h generalizing before with
  | @last offset g t hgap htext hspan =>
    intro u hu
    rw [List.mem_singleton] at hu
    subst hu
    exact ⟨before ++ g, [], by simp [htext], by simp [hspan, htext, hbefore, Span.point]⟩
  | @next offset g cs t ts hgap hspan hrest ih =>
    intro u hu
    rcases List.mem_cons.mp hu with rfl | hu
    · exact ⟨before ++ g, cs, by simp, by simp [hspan, hbefore]⟩
    · have hnext : byteLength (before ++ g ++ t.text.toList) = t.span.stop := by
        simp [hspan, hbefore, Nat.add_assoc]
      simpa using ih hnext u hu

theorem Spans.slice_eq {text : String} {part : String} {span : Span}
    (h : Spans text.toList part.toList span) : slice text span = part.toUTF8 := by
  obtain ⟨before, after, htext, rfl⟩ := h
  have hmiddle := slice_middle before part.toList after
  rwa [← htext, String.ofList_toList, String.ofList_toList] at hmiddle

/-- A token that stands for a part of the text, and where it stands: its own bytes, the place of its
first byte and the end of its last one, and the lines from the one to the other. -/
structure Placed (text : String) (t : Token) : Prop where
  spanned : slice text t.span = t.text.toUTF8
  start : IsPlace text t.span.start t.start
  stop : t.span.length ≠ 0 → ∃ column,
    IsPlace text (t.span.stop - 1) ⟨t.stop.line, column⟩ ∧ t.stop.column = column + 1
  empty : t.span.length = 0 → t.stop = t.start
  line : ∃ before after, text.toList = before ++ t.line.toList ++ after ∧
    WholeLines t.start.line t.stop.line before t.line.toList after
  sliced : slice t.line ⟨t.start.column, t.start.column + t.text.utf8ByteSize⟩ = t.text.toUTF8

/-- What a token stands for is found at its column in its lines. -/
theorem Spans.slice_between {text part : String} {span : Span}
    (h : Spans text.toList part.toList span) :
    slice ((LineTable.ofText text).between ((LineTable.ofText text).position span.start).line
        ((LineTable.ofText text).endPosition span).line)
      ⟨((LineTable.ofText text).position span.start).column,
        ((LineTable.ofText text).position span.start).column + part.utf8ByteSize⟩ =
      part.toUTF8 := by
  obtain ⟨before, after, htext, hspan⟩ := h
  have hstart := LineTable.position_found text span.start
  have hline := LineTable.position_line_le_endPosition text span
  have hlines := LineTable.firstLines_append_between text hstart.pos (Nat.le_succ_of_le hline)
  have hreach := LineTable.stop_le_firstLines text span (by simp [hspan])
    (by simp [hspan, htext])
  have hcolumn := hstart.column
  generalize (LineTable.ofText text).position span.start = p at hlines hcolumn ⊢
  generalize ((LineTable.ofText text).endPosition span).line = last at hlines hreach ⊢
  subst hspan
  dsimp only at hcolumn
  have hwhole : before ++ part.toList <+: text.toList := ⟨after, htext.symm⟩
  -- The lines before the token are a part of what stands before it, and with it they reach no
  -- further than its own lines.
  obtain ⟨lead, hlead⟩ := prefix_of_byteLength_le (firstLines_begins (p.line - 1) text.toList)
    ((List.prefix_append _ _).trans hwhole) (by omega)
  obtain ⟨rest, hrest⟩ := prefix_of_byteLength_le hwhole (firstLines_begins last text.toList)
    (by rwa [byteLength_append])
  rw [← hlines, ← hlead, List.append_assoc, List.append_assoc, List.append_cancel_left_eq] at hrest
  have hbytes : byteLength lead = p.column := by
    rw [← hlead, byteLength_append] at hcolumn
    omega
  have hmiddle := slice_middle lead part.toList rest
  rwa [List.append_assoc, hrest, String.ofList_toList, String.ofList_toList, hbytes,
    byteLength_toList] at hmiddle

/-- A token that is a part of the text is placed there. -/
theorem Spans.placed {text part : String} {span : Span} (kind : TokenKind)
    (h : Spans text.toList part.toList span) :
    Placed text (Token.place (.ofText text) kind part span) := by
  have hstart := LineTable.position_found text span.start
  have hline := LineTable.position_line_le_endPosition text span
  obtain ⟨after, htext, hwhole⟩ := LineTable.between_wholeLines text hstart.pos hstart.le hline
  have hplace := hstart.isPlace
  rw [String.ofList_toList] at hplace
  refine ⟨h.slice_eq, hplace, fun hfull => ?_, LineTable.endPosition_empty,
    ⟨_, after, htext, hwhole⟩, h.slice_between⟩
  obtain ⟨column, hfound, hcolumn⟩ := LineTable.endPosition_found text hfull
  have hlast := hfound.isPlace
  rw [String.ofList_toList] at hlast
  exact ⟨column, hlast, hcolumn⟩

/-- Tokens whose spans stand in order never go back. -/
theorem pairwise_notPast (text : String) {marks : List Mark}
    (h : Ascend 0 (marks.map Mark.span)) :
    (marks.map (Mark.token (.ofText text))).Pairwise fun a b =>
      a.start.NotPast b.start ∧ a.stop.NotPast b.start ∧ a.stop.NotPast b.stop := by
  have hwhole : ∀ m ∈ marks, m.span.start ≤ m.span.stop :=
    fun m hm => (h.start_le m.span (List.mem_map_of_mem hm)).2
  rw [List.pairwise_map]
  refine (List.pairwise_map.mp h.pairwise).imp_of_mem fun {a b} ha hb hab => ?_
  have hstop := LineTable.endPosition_notPast text (hwhole a ha) hab
  exact ⟨LineTable.position_notPast_endPosition.trans hstop, hstop,
    hstop.trans LineTable.position_notPast_endPosition⟩

/-! ## The law -/

/-- The table of lines gives each offset its place, and its lines are the text. The tokens of a
source that stand for a part of it are placed in it, and from token to token, those that mark blocks
included, positions never go back. -/
theorem offsets_and_tokens_have_their_exact_places (name text : String) :
    (∀ offset, IsPlace text offset ((LineTable.ofText text).position offset)) ∧
    (LineTable.ofText text).between 1 (LineTable.ofText text).size = text ∧
    ∀ tokens, tokenize name text = .ok tokens →
      (∀ t ∈ written tokens, Placed text t) ∧ (∀ t ∈ tokens, t.start.NotPast t.stop) ∧
      tokens.Pairwise fun a b =>
        a.start.NotPast b.start ∧ a.stop.NotPast b.start ∧ a.stop.NotPast b.stop := by
  refine ⟨fun offset => ?_, ?_, fun tokens h => ?_⟩
  · have hplace := (LineTable.position_found text offset).isPlace
    rwa [String.ofList_toList] at hplace
  · have hjoin := LineTable.between_eq_join_numbers (.ofText text) 0 (LineTable.ofText text).size
    rw [hjoin, LineTable.join_lines]
  · obtain ⟨hfills, hascend⟩ := tokenize_fills h
    have hspans := hfills.spans byteLength_nil
    obtain ⟨marks, -, rfl⟩ := tokenize_eq_ok h
    rw [List.map_map] at hascend
    refine ⟨fun t ht => ?_, fun t ht => ?_, pairwise_notPast text hascend⟩
    · have hspan := hspans t ht
      obtain ⟨m, -, rfl⟩ := List.mem_map.mp (List.mem_filter.mp ht).1
      exact hspan.placed m.kind
    · obtain ⟨m, -, rfl⟩ := List.mem_map.mp ht
      exact LineTable.position_notPast_endPosition

/-- A string over two lines behind a letter of two bytes, a carriage return, brackets over two
lines, and no line break at the end. -/
def spreadText : String := "if ä:\n  b = '''ü\n c'''\r\n# d\n\n  e(1, \\\n2)"

theorem the_tokens_of_the_spread_text_have_their_places :
    ∃ tokens, tokenize "t" spreadText = .ok tokens ∧ (∀ t ∈ written tokens, Placed spreadText t) ∧
      (∀ t ∈ tokens, t.start.NotPast t.stop) ∧ tokens.Pairwise fun a b =>
        a.start.NotPast b.start ∧ a.stop.NotPast b.start ∧ a.stop.NotPast b.stop := by
  have hlexes : (tokenize "t" spreadText).toOption.any (fun _ => true) = true := by decide +kernel
  obtain ⟨tokens, htokens, -⟩ := exists_ok_of_any hlexes
  have hplaces := offsets_and_tokens_have_their_exact_places "t" spreadText
  exact ⟨tokens, htokens, hplaces.2.2 tokens htokens⟩

end SourceMacros
