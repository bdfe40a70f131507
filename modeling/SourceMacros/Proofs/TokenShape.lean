-- The shape of token sequences. Apart from comments and blank breaks, the tokens of a source are
-- logical lines, then the ends of the blocks that are still open, then the end marker. A logical
-- line may open one block or close some, it says something, and it ends. Brackets pair up inside
-- each line, and blocks pair up over the whole sequence.
import SourceMacros.Proofs.LayoutSteps
import SourceMacros.Proofs.Outcome
import SourceMacros.Proofs.Pairing
import SourceMacros.Proofs.TokenOrder

namespace SourceMacros

/-! ## Brackets and blocks -/

/-- The opening and the closing bracket of each kind. -/
def bracketPairs : List (Char × Char) := [('(', ')'), ('[', ']'), ('{', '}')]

/-- Operators open and close brackets. A kind of brackets is named by the opening one. -/
def bracketPairing : Pairing Token Char where
  opens t c := t.kind = .operator ∧ t.text = c.toString ∧ ∃ d, (c, d) ∈ bracketPairs
  closes t c := t.kind = .operator ∧ ∃ d, (c, d) ∈ bracketPairs ∧ t.text = d.toString

/-- Tokens open and close blocks. A block is named by the indentation it adds. -/
def blockPairing : Pairing Token String where
  opens t added := t.kind = .indent ∧ t.text = added
  closes t added := t.kind = .dedent ∧ t.text = added

theorem brackets_plain {t : Token} (h : t.kind ≠ .operator) : bracketPairing.Plain t :=
  fun _ => ⟨fun hopens => h hopens.1, fun hcloses => h hcloses.1⟩

theorem blocks_plain {t : Token} (hi : t.kind ≠ .indent) (hd : t.kind ≠ .dedent) :
    blockPairing.Plain t := fun _ => ⟨fun hopens => hi hopens.1, fun hcloses => hd hcloses.1⟩

/-! ## Lines -/

/-- A token that says something. -/
def TokenKind.isSignificant : TokenKind → Bool
  | .name | .number | .string | .operator => true
  | _ => false

/-- A logical line: it opens one block or closes any number of them, then it says something, with
its brackets in pairs, and then it ends. -/
structure LogicalLine where
  head : List Token
  body : List Token
  stop : Token
  head_blocks : (∃ t, head = [t] ∧ t.kind = .indent) ∨ ∀ t ∈ head, t.kind = .dedent
  body_ne_nil : body ≠ []
  body_significant : ∀ t ∈ body, t.kind.isSignificant = true
  body_paired : bracketPairing.Paired body
  stop_kind : stop.kind = .newline

/-- The tokens of a line. -/
def LogicalLine.tokens (line : LogicalLine) : List Token := line.head ++ line.body ++ [line.stop]

/-- Logical lines, then ends of blocks, then the end marker. -/
def LaidOut (ts : List Token) : Prop :=
  ∃ (lines : List LogicalLine) (closing : List Token) (last : Token),
    ts = lines.flatMap LogicalLine.tokens ++ closing ++ [last] ∧
      (∀ t ∈ closing, t.kind = .dedent) ∧ last.kind = .endMarker

theorem LaidOut.cons (line : LogicalLine) {ts : List Token} (h : LaidOut ts) :
    LaidOut (line.tokens ++ ts) := by
  obtain ⟨lines, closing, last, rfl, hclosing, hlast⟩ := h
  exact ⟨line :: lines, closing, last, by simp, hclosing, hlast⟩

/-- The rest of a logical line in which some brackets are open, and the lines behind it. -/
def MidLine (opened : List Char) (ts : List Token) : Prop :=
  ∃ body stop rest, ts = body ++ stop :: rest ∧ (∀ t ∈ body, t.kind.isSignificant = true) ∧
    bracketPairing.Closes opened body ∧ stop.kind = .newline ∧ LaidOut rest

/-! ## Marks -/

/-- The token of a mark. -/
def Mark.token (table : LineTable) (m : Mark) : Token := Token.place table m.kind m.text m.span

@[simp]
theorem Mark.token_kind (table : LineTable) (m : Mark) : (m.token table).kind = m.kind := rfl

@[simp]
theorem Mark.token_text (table : LineTable) (m : Mark) : (m.token table).text = m.text := rfl

/-- The tokens of marks, without those that mean nothing to a grammar. -/
def kept (table : LineTable) (marks : List Mark) : List Token :=
  (marks.map (Mark.token table)).filter (!·.kind.isTrivia)

@[simp]
theorem kept_nil (table : LineTable) : kept table [] = [] := rfl

@[simp]
theorem kept_append (table : LineTable) (ms ns : List Mark) :
    kept table (ms ++ ns) = kept table ms ++ kept table ns := by
  simp [kept]

theorem kept_cons (table : LineTable) {m : Mark} (h : m.kind.isTrivia = false) (ms : List Mark) :
    kept table (m :: ms) = m.token table :: kept table ms := by
  simp [kept, h]

theorem kept_dedents (table : LineTable) {marks : List Mark} (h : ∀ m ∈ marks, m.kind = .dedent) :
    ∀ t ∈ kept table marks, t.kind = .dedent := by
  intro t ht
  obtain ⟨m, hm, rfl⟩ := List.mem_map.mp (List.mem_filter.mp ht).1
  exact h m hm

namespace Layout

variable {s s' : Layout} {table : LineTable}

/-! ## What may follow -/

/-- The indentation that each open block added, the innermost first. -/
def added : List (List Char) → List String
  | [] => []
  | block :: outer => String.ofList (block.drop (outer.headD []).length) :: added outer

/-- What holds between lexemes: only blocks that are indented are open, no bracket is open at the
start of a logical line, and behind it no indentation waits for its line. -/
structure Sound (s : Layout) : Prop where
  indented : ∀ block ∈ s.blocks, block ≠ []
  unbracketed : s.atLineStart = true → s.brackets = []
  settled : s.atLineStart = false → s.lineIndent = []

theorem Sound.later (hs : s.Sound) (h : ¬ (s.atLineStart = true ∧ s.brackets = [])) :
    s.atLineStart = false := by
  rw [← Bool.not_eq_true]
  exact fun hstart => h ⟨hstart, hs.unbracketed hstart⟩

/-- Tokens that may follow in a state, up to the end of the source. -/
structure Precedes (s : Layout) (ts : List Token) : Prop where
  fresh : s.atLineStart = true → LaidOut ts
  within : s.atLineStart = false → MidLine (s.brackets.map Prod.fst) ts
  blocks : blockPairing.Closes (added s.blocks) ts
  indents : ∀ t ∈ ts, t.kind = .indent → t.text ≠ ""

/-- Only blocks, brackets and the start of a line matter for what may follow. -/
theorem Precedes.of_eq {ts : List Token} (h : s'.Precedes ts) (hblocks : s'.blocks = s.blocks)
    (hbrackets : s'.brackets = s.brackets) (hstart : s'.atLineStart = s.atLineStart) :
    s.Precedes ts := by
  obtain ⟨hfresh, hwithin, hclosed, hindents⟩ := h
  rw [hstart] at hfresh hwithin
  rw [hbrackets] at hwithin
  rw [hblocks] at hclosed
  exact ⟨hfresh, hwithin, hclosed, hindents⟩

/-- The line break that ends a logical line stands before the lines behind it. -/
theorem Precedes.of_newline {t : Token} {ts : List Token} (ht : t.kind = .newline)
    (hbrackets : s.brackets = []) (hstart : s.atLineStart = false)
    (h : Precedes { s with atLineStart := true, lineIndent := [] } ts) : s.Precedes (t :: ts) := by
  refine ⟨by simp [hstart], fun _ => ?_, ?_, ?_⟩
  · rw [hbrackets]
    exact ⟨[], t, ts, rfl, by simp, .done, ht, h.fresh rfl⟩
  · exact .plain (blocks_plain (by simp [ht]) (by simp [ht])) h.blocks
  · simpa [ht] using h.indents

/-! ## Blocks -/

/-- The marks that close blocks close what those blocks added. -/
theorem closeBlocks_closes (depth offset : Nat) (opened : List (List Char)) {ts : List Token}
    (h : blockPairing.Closes (added (closeBlocks depth offset opened).2) ts) :
    blockPairing.Closes (added opened)
      (kept table (closeBlocks depth offset opened).1 ++ ts) := by
  induction opened with
  | nil => exact h
  | cons block outer ih =>
    unfold closeBlocks at h ⊢
    by_cases hdeep : depth < block.length
    · simp only [hdeep, if_true] at h ⊢
      rw [kept_cons _ rfl]
      exact .closes ⟨rfl, rfl⟩ (ih h)
    · simp only [hdeep, if_false] at h ⊢
      exact h

theorem closeBlocks_subset (depth offset : Nat) (opened : List (List Char)) :
    (closeBlocks depth offset opened).2 ⊆ opened := by
  induction opened with
  | nil => simp [closeBlocks]
  | cons block outer ih =>
    unfold closeBlocks
    split
    · exact fun b hb => List.mem_cons_of_mem _ (ih hb)
    · exact fun b hb => hb

/-- At the end of the source no block that is indented stays open. -/
theorem closeBlocks_zero (offset : Nat) {opened : List (List Char)}
    (h : ∀ block ∈ opened, block ≠ []) : (closeBlocks 0 offset opened).2 = [] := by
  induction opened with
  | nil => rfl
  | cons block outer ih =>
    have hblock : 0 < block.length := List.length_pos_iff.mpr (h block (by simp))
    unfold closeBlocks
    simp only [hblock, if_true]
    exact ih fun b hb => h b (by simp [hb])

/-- The marks at the start of a logical line open one block that is indented, or close some. -/
theorem Indents.spec (table : LineTable) {first : Nat} {before : List Mark}
    {opened : List (List Char)} (h : s.Indents first before opened) (hs : s.Sound) :
    (∀ block ∈ opened, block ≠ []) ∧
      (∀ t ∈ kept table before, t.kind = .indent → t.text ≠ "") ∧
      ((∃ t, kept table before = [t] ∧ t.kind = .indent) ∨
        ∀ t ∈ kept table before, t.kind = .dedent) ∧
      ∀ ts, blockPairing.Closes (added opened) ts →
        blockPairing.Closes (added s.blocks) (kept table before ++ ts) := by
  cases h with
  | stays => exact ⟨hs.indented, by simp, by simp, fun ts hts => hts⟩
  | opens hdeep _ =>
    have hne : s.lineIndent ≠ [] := by rintro hnil; simp [hnil] at hdeep
    have htext : String.ofList (s.lineIndent.drop s.current.length) ≠ "" := by
      rw [Ne, String.ofList_eq_empty_iff, List.drop_eq_nil_iff]
      omega
    rw [kept_cons _ rfl, kept_nil]
    refine ⟨?_, ?_, Or.inl ⟨_, rfl, rfl⟩, fun ts hts => .opens ⟨rfl, rfl⟩ hts⟩
    · intro block hblock
      rcases List.mem_cons.mp hblock with rfl | hblock
      · exact hne
      · exact hs.indented block hblock
    · intro t ht _
      rw [List.mem_singleton] at ht
      subst ht
      exact htext
  | closes _ =>
    have hkinds := kept_dedents table fun m hm =>
      (closeBlocks_marks s.lineIndent.length first s.blocks m hm).1
    refine ⟨fun b hb => hs.indented b (closeBlocks_subset _ _ _ hb), ?_, Or.inr hkinds,
      fun ts hts => closeBlocks_closes _ _ _ hts⟩
    intro t ht hkind
    rw [hkinds t ht] at hkind
    cases hkind

/-! ## Brackets -/

theorem isOpener_iff {c : Char} : IsOpener c ↔ ∃ d, (c, d) ∈ bracketPairs := by
  simp only [IsOpener, bracketPairs, List.mem_cons, Prod.mk.injEq, List.not_mem_nil, or_false]
  constructor
  · rintro (rfl | rfl | rfl) <;> simp
  · rintro ⟨d, ⟨rfl, -⟩ | ⟨rfl, -⟩ | ⟨rfl, -⟩⟩ <;> simp

theorem opener?_iff {c d : Char} : opener? d = some c ↔ (c, d) ∈ bracketPairs := by
  unfold opener? bracketPairs
  split <;> simp_all [eq_comm]

theorem ofList_eq_toString_iff {text : List Char} {c : Char} :
    String.ofList text = c.toString ↔ text = [c] := by
  rw [← String.toList_inj]
  simp

/-- A token keeps account of brackets as its reader does. -/
theorem Counts.closes {kind : TokenKind} {text : List Char} {span : Span}
    {before after : List (Char × Span)} (h : Counts kind text span before after) {t : Token}
    (hkind : t.kind = kind) (htext : t.text = String.ofList text) {body : List Token}
    (hbody : bracketPairing.Closes (after.map Prod.fst) body) :
    bracketPairing.Closes (before.map Prod.fst) (t :: body) := by
  unfold Counts at h
  by_cases hop : kind = .operator
  · rw [if_pos hop] at h
    subst hop
    cases h with
    | opens outer hc hopener =>
      refine .opens ⟨hkind, ?_, isOpener_iff.mp hopener⟩ hbody
      rw [htext, ofList_eq_toString_iff, hc]
    | @closes c wanted place outer hc hwanted =>
      refine .closes ⟨hkind, c, opener?_iff.mp hwanted, ?_⟩ hbody
      rw [htext, ofList_eq_toString_iff, hc]
    | passes outer hplain =>
      refine .plain ?_ hbody
      intro c
      constructor
      · rintro ⟨-, hc, hpair⟩
        rw [htext, ofList_eq_toString_iff] at hc
        exact (hplain c hc).1 (isOpener_iff.mpr hpair)
      · rintro ⟨-, d, hpair, hd⟩
        rw [htext, ofList_eq_toString_iff] at hd
        rw [← opener?_iff, (hplain d hd).2] at hpair
        cases hpair
  · rw [if_neg hop] at h
    subst h
    exact .plain (brackets_plain (by rw [hkind]; exact hop)) hbody

/-! ## Steps -/

theorem significant_isSignificant {kind : LexemeKind} {k : TokenKind}
    (h : kind.significant? = some k) : k.isSignificant = true := by
  cases kind <;> simp_all [LexemeKind.significant?] <;> subst h <;> rfl

theorem isSignificant_ne {k : TokenKind} (h : k.isSignificant = true) :
    k.isTrivia = false ∧ k ≠ .indent ∧ k ≠ .dedent := by
  cases k <;> simp_all [TokenKind.isSignificant, TokenKind.isTrivia]

theorem Moves.sound {lexeme : Lexeme} {span : Span} {marks : List Mark}
    (h : s.Moves lexeme span marks s') (hs : s.Sound) : s'.Sound := by
  cases h with
  | skips | comments | wraps => exact hs
  | indents _ hstart => exact ⟨hs.indented, hs.unbracketed, by simp [hstart]⟩
  | blanks => exact ⟨hs.indented, hs.unbracketed, by simp⟩
  | ends _ hbrackets => exact ⟨hs.indented, fun _ => hbrackets, by simp⟩
  | starts _ _ _ hindents =>
    exact ⟨(hindents.spec (.ofText "") hs).1, by simp, by simp⟩
  | continues _ hnot => exact ⟨hs.indented, by simp, fun _ => hs.settled (hs.later hnot)⟩

/-- What a lexeme adds may stand before what may follow it. -/
theorem Moves.precedes {lexeme : Lexeme} {span : Span} {marks : List Mark}
    (h : s.Moves lexeme span marks s') (hs : s.Sound) {ts : List Token} (hts : s'.Precedes ts) :
    s.Precedes (kept table marks ++ ts) := by
  cases h with
  | skips | indents => exact hts.of_eq rfl rfl rfl
  | comments => exact hts
  | wraps => exact hts
  | blanks _ _ hstart => exact hts.of_eq rfl rfl rfl
  | ends _ hbrackets hstart =>
    rw [kept_cons _ rfl, kept_nil]
    exact hts.of_newline rfl hbrackets hstart
  | @starts kind before opened brackets' hkind hstart hbrackets hindents hcounts =>
    have hsig := significant_isSignificant hkind
    obtain ⟨htrivia, hindent, hdedent⟩ := isSignificant_ne hsig
    obtain ⟨body, stop, rest, rfl, hbody, hclosed, hstop, hrest⟩ := hts.within rfl
    obtain ⟨-, htexts, hhead, hblocks⟩ := hindents.spec table hs
    rw [kept_append, kept_cons _ htrivia, kept_nil]
    refine ⟨fun _ => ?_, by simp [hstart], ?_, ?_⟩
    · have hpaired := hcounts.closes (t := Mark.token table ⟨kind, String.ofList lexeme.text, span⟩)
        rfl rfl hclosed
      let line : LogicalLine :=
        { head := kept table before
          body := Mark.token table ⟨kind, String.ofList lexeme.text, span⟩ :: body
          stop
          head_blocks := hhead
          body_ne_nil := by simp
          body_significant := by simpa using ⟨hsig, hbody⟩
          body_paired := hpaired.paired
          stop_kind := hstop }
      have hlines := hrest.cons line
      simpa [line, LogicalLine.tokens] using hlines
    · rw [List.append_assoc]
      exact hblocks _ (.plain (blocks_plain hindent hdedent) hts.blocks)
    · intro t ht hk
      rw [List.append_assoc, List.mem_append, List.singleton_append, List.mem_cons] at ht
      rcases ht with ht | rfl | ht
      · exact htexts t ht hk
      · exact absurd hk hindent
      · exact hts.indents t ht hk
  | @continues kind brackets' hkind hnot hcounts =>
    have hsig := significant_isSignificant hkind
    obtain ⟨htrivia, hindent, hdedent⟩ := isSignificant_ne hsig
    have hstart := hs.later hnot
    obtain ⟨body, stop, rest, rfl, hbody, hclosed, hstop, hrest⟩ := hts.within rfl
    rw [kept_cons _ htrivia, kept_nil]
    refine ⟨by simp [hstart], fun _ => ?_, ?_, ?_⟩
    · refine ⟨Mark.token table ⟨kind, String.ofList lexeme.text, span⟩ :: body, stop, rest, rfl, ?_,
        hcounts.closes rfl rfl hclosed, hstop, hrest⟩
      simpa using ⟨hsig, hbody⟩
    · exact .plain (blocks_plain hindent hdedent) hts.blocks
    · intro t ht hk
      rcases List.mem_cons.mp ht with rfl | ht
      · exact absurd hk hindent
      · exact hts.indents t ht hk

/-! ## Runs -/

/-- At the end of the source every open block is closed, and the end marker comes last. -/
theorem closing_precedes (table : LineTable) (offset : Nat) (hs : s.Sound)
    (hstart : s.atLineStart = true) :
    s.Precedes (kept table
      ((closeBlocks 0 offset s.blocks).1 ++ [⟨.endMarker, "", .point offset⟩])) := by
  have hdedents := kept_dedents table fun m hm => (closeBlocks_marks 0 offset s.blocks m hm).1
  rw [kept_append, kept_cons _ rfl, kept_nil]
  refine ⟨fun _ => ⟨[], _, _, rfl, hdedents, rfl⟩, by simp [hstart], ?_, ?_⟩
  · apply closeBlocks_closes
    rw [closeBlocks_zero offset hs.indented]
    exact .plain (blocks_plain (by simp) (by simp)) .done
  · intro t ht hk
    rcases List.mem_append.mp ht with ht | ht
    · simp [hdedents t ht] at hk
    · simp only [List.mem_singleton] at ht
      simp [ht] at hk

theorem finish_precedes {offset : Nat} {marks : List Mark} (hs : s.Sound)
    (h : s.finish offset = .ok marks) : s.Precedes (kept table marks) := by
  obtain ⟨hbrackets, rfl⟩ := finish_eq_ok h
  have hclosing := closing_precedes (s := { s with atLineStart := true, lineIndent := [] })
    table offset ⟨hs.indented, fun _ => hbrackets, by simp⟩ rfl
  cases hstart : s.atLineStart with
  | true =>
    simp only [if_true, List.nil_append]
    exact hclosing.of_eq rfl rfl hstart.symm
  | false =>
    simp only [Bool.false_eq_true, if_false, List.cons_append]
    rw [kept_cons _ rfl]
    exact hclosing.of_newline rfl hbrackets hstart

theorem run_precedes (lexemes : List Lexeme) (fault : Option ScanFault) {offset : Nat}
    {marks : Array Mark} (hs : s.Sound) (h : s.run offset #[] lexemes fault = .ok marks) :
    s.Precedes (kept table marks.toList) := by
  induction lexemes generalizing s offset marks with
  | nil => exact finish_precedes hs (run_nil_eq_ok h).2
  | cons lexeme rest ih =>
    obtain ⟨first, s₁, later, hmoves, hlater, hmarks⟩ := run_cons_eq_ok h
    rw [hmarks, kept_append]
    exact hmoves.precedes hs (ih (hmoves.sound hs) hlater)

theorem sound_start : Sound {} := ⟨by simp, by simp, by simp⟩

end Layout

/-- The tokens of a source are what may follow at its start. -/
theorem tokenize_precedes {name text : String} {tokens : List Token}
    (h : tokenize name text = .ok tokens) :
    ({} : Layout).Precedes (tokens.filter (!·.kind.isTrivia)) := by
  obtain ⟨marks, hmarks, rfl⟩ := tokenize_eq_ok h
  exact Layout.run_precedes _ _ Layout.sound_start hmarks

/-! ## The law -/

/-- The tokens of a source, without comments and blank breaks, are logical lines, ends of blocks and
the end marker. Over the whole sequence each block that is opened is closed by a token with the same
indentation, which is never empty. -/
theorem tokens_are_logical_lines_and_paired_blocks {name text : String} {tokens : List Token}
    (h : tokenize name text = .ok tokens) :
    LaidOut (tokens.filter (!·.kind.isTrivia)) ∧
      blockPairing.Paired (tokens.filter (!·.kind.isTrivia)) ∧
      ∀ t ∈ tokens, t.kind = .indent → t.text ≠ "" := by
  obtain ⟨hfresh, -, hblocks, hindents⟩ := tokenize_precedes h
  refine ⟨hfresh rfl, hblocks.paired, ?_⟩
  intro t ht hkind
  exact hindents t (List.mem_filter.mpr ⟨ht, by simp [hkind, TokenKind.isTrivia]⟩) hkind

/-- Two blocks that end at once, brackets and a joined line over several physical lines, and lines
that say nothing. -/
def blockText : String := "if a:\n\tif [b,\n(c)]:\n\t  d \\\n e\n# f\n\n  \ng"

theorem the_blocks_are_logical_lines_and_paired :
    ∃ tokens, tokenize "t" blockText = .ok tokens ∧
      LaidOut (tokens.filter (!·.kind.isTrivia)) ∧
      blockPairing.Paired (tokens.filter (!·.kind.isTrivia)) ∧
      ∀ t ∈ tokens, t.kind = .indent → t.text ≠ "" := by
  have hlexes : (tokenize "t" blockText).toOption.any (fun _ => true) = true := by decide
  obtain ⟨tokens, htokens, -⟩ := exists_ok_of_any hlexes
  exact ⟨tokens, htokens, tokens_are_logical_lines_and_paired_blocks htokens⟩

end SourceMacros
