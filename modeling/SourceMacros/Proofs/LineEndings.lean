-- Line endings: a source text and the same text with a carriage return before each line feed have
-- the same tokens, carriage returns apart, unless a string that is not triple-quoted hides a line
-- feed behind a backslash. The second text of such a source has no tokens.
--
-- The layout pass runs over both texts side by side. What it remembers differs only in the places
-- of the open brackets.
import Mathlib.Data.List.Forall2
import SourceMacros.Proofs.ReturnedLexemes
import SourceMacros.Proofs.TokenShape

namespace SourceMacros

/-! ## Marks of both texts -/

/-- A mark of the first text and the mark for it in the second: the kind is the same, and so is the
text without its carriage returns. -/
def Mark.Answers (m m' : Mark) : Prop := m'.kind = m.kind ∧ withoutReturns m'.text = m.text

theorem withoutReturns_ofList {cs : List Char} (h : '\r' ∉ cs) :
    withoutReturns (String.ofList cs) = String.ofList cs := by
  rw [withoutReturns, String.toList_ofList, unreturned_of_not_mem h]

theorem withoutReturns_returned {cs : List Char} (h : '\r' ∉ cs) :
    withoutReturns (String.ofList (returned cs)) = String.ofList cs := by
  rw [withoutReturns, String.toList_ofList, unreturned_returned h]

/-- Marks that answer have the same kinds and texts, carriage returns apart. -/
theorem answers_map {ms ms' : List Mark} (h : List.Forall₂ Mark.Answers ms ms') :
    ms'.map Mark.kind = ms.map Mark.kind ∧
      ms'.map (fun m => withoutReturns m.text) = ms.map Mark.text := by
  induction h with
  | nil => exact ⟨rfl, rfl⟩
  | cons hm _ ih => simp [hm.1, hm.2, ih.1, ih.2]

namespace Layout

/-- A pass over the second text gets as far as one over the first, with results that answer. -/
def Follows {α β : Type} (R : α → β → Prop) (x : Except LayoutFault α) (y : Except LayoutFault β) :
    Prop :=
  ∀ a, x = .ok a → ∃ b, y = .ok b ∧ R a b

theorem Follows.ok {α β : Type} {R : α → β → Prop} {a : α} {b : β} (h : R a b) :
    Follows R (.ok a) (.ok b) := by
  rintro _ ⟨⟩
  exact ⟨b, rfl, h⟩

theorem Follows.bind {α β γ δ : Type} {R : α → β → Prop} {S : γ → δ → Prop}
    {x : Except LayoutFault α} {y : Except LayoutFault β} {f : α → Except LayoutFault γ}
    {g : β → Except LayoutFault δ} (h : Follows R x y)
    (hnext : ∀ a b, R a b → Follows S (f a) (g b)) : Follows S (x >>= f) (y >>= g) := by
  intro c hc
  cases x with
  | error fault => cases hc
  | ok a =>
    obtain ⟨b, rfl, hab⟩ := h a rfl
    exact hnext a b hab c hc

/-! ## One lexeme of both texts -/

/-- What the pass remembers of both texts. -/
structure Alike (s t : Layout) : Prop where
  blocks : t.blocks = s.blocks
  brackets : t.brackets.map Prod.fst = s.brackets.map Prod.fst
  atLineStart : t.atLineStart = s.atLineStart
  lineIndent : t.lineIndent = s.lineIndent
  /-- Indentation holds no carriage return. -/
  plain : '\r' ∉ s.lineIndent ∧ ∀ block ∈ s.blocks, '\r' ∉ block

/-- The marks and the state after a step of both passes. -/
def StepAlike (a b : List Mark × Layout) : Prop :=
  List.Forall₂ Mark.Answers a.1 b.1 ∧ a.2.Alike b.2

variable {s t : Layout}

theorem alike_start : Alike {} {} := ⟨rfl, rfl, rfl, rfl, by simp, by simp⟩

theorem Alike.brackets_eq_nil (h : s.Alike t) : t.brackets = [] ↔ s.brackets = [] := by
  rw [← List.map_eq_nil_iff (f := Prod.fst), h.brackets, List.map_eq_nil_iff]

theorem closeBlocks_answers (depth first first' : Nat) {blocks : List (List Char)}
    (h : ∀ block ∈ blocks, '\r' ∉ block) :
    List.Forall₂ Mark.Answers (closeBlocks depth first blocks).1
        (closeBlocks depth first' blocks).1 ∧
      (closeBlocks depth first' blocks).2 = (closeBlocks depth first blocks).2 := by
  induction blocks with
  | nil => exact ⟨.nil, rfl⟩
  | cons block outer ih =>
    obtain ⟨hmarks, hleft⟩ := ih fun b hb => h b (List.mem_cons_of_mem _ hb)
    unfold closeBlocks
    split
    · refine ⟨.cons ⟨rfl, ?_⟩ hmarks, hleft⟩
      exact withoutReturns_ofList fun hmem => h block (by simp) (List.mem_of_mem_drop hmem)
    · exact ⟨.nil, rfl⟩

theorem indentation_follows (h : s.Alike t) (first first' : Nat) :
    Follows StepAlike (s.indentation first) (t.indentation first') := by
  obtain ⟨hindent, hblocks⟩ := h.plain
  obtain ⟨hmarks, hleft⟩ := closeBlocks_answers s.lineIndent.length first first' hblocks
  have hsubset := closeBlocks_subset s.lineIndent.length first s.blocks
  intro a ha
  simp only [indentation, current, h.lineIndent, h.blocks] at ha ⊢
  by_cases hsame : s.lineIndent = s.blocks.headD []
  · rw [if_pos hsame] at ha ⊢
    cases ha
    exact ⟨_, rfl, .nil, rfl, h.brackets, h.atLineStart, rfl, by simp, hblocks⟩
  rw [if_neg hsame] at ha ⊢
  split at ha
  · next hdeep =>
    rw [if_pos hdeep]
    cases ha
    refine ⟨_, rfl, .cons ⟨rfl, ?_⟩ .nil, rfl, h.brackets, h.atLineStart, rfl, by simp, ?_⟩
    · exact withoutReturns_ofList fun hmem => hindent (List.mem_of_mem_drop hmem)
    · rintro block hblock
      rcases List.mem_cons.mp hblock with rfl | hblock
      · exact hindent
      · exact hblocks block hblock
  · next hdeep =>
    rw [if_neg hdeep, hleft]
    split at ha
    · next hmeets =>
      rw [if_pos hmeets]
      cases ha
      exact ⟨_, rfl, hmarks, rfl, h.brackets, h.atLineStart, rfl, by simp,
        fun block hblock => hblocks block (hsubset hblock)⟩
    · cases ha

theorem bracket_follows (h : s.Alike t) (text : List Char) (span span' : Span) :
    Follows Alike (s.bracket text span) (t.bracket text span') := by
  unfold bracket
  split
  · next c =>
    split
    · exact .ok ⟨h.blocks, by simp [h.brackets], h.atLineStart, h.lineIndent, h.plain⟩
    · split
      · exact .ok h
      · next wanted _ =>
        intro a ha
        split at ha
        · next found place outer hs =>
          split at ha
          · next hfound =>
            cases ha
            have hbrackets := h.brackets
            rw [hs] at hbrackets
            cases ht : t.brackets with
            | nil => simp [ht] at hbrackets
            | cons b outer' =>
              rw [ht] at hbrackets
              simp only [List.map_cons, List.cons.injEq] at hbrackets
              refine ⟨_, if_pos (hbrackets.1.trans hfound), ?_⟩
              exact ⟨h.blocks, hbrackets.2, h.atLineStart, h.lineIndent, h.plain⟩
          · cases ha
        · cases ha
  · exact .ok h

/-- Behind the marks of its line a lexeme keeps account of brackets and adds its own mark. -/
theorem counted_follows (h : s.Alike t) {marks marks' : List Mark}
    (hmarks : List.Forall₂ Mark.Answers marks marks') (kind : TokenKind) {text : List Char}
    (hr : '\r' ∉ text) (hline : kind = .operator → '\n' ∉ text) (span span' : Span) :
    Follows StepAlike
      (if kind = .operator then do
        let s ← bracket { s with atLineStart := false } text span
        pure (marks ++ [⟨kind, String.ofList text, span⟩], s)
      else do
        let s ← Except.ok { s with atLineStart := false }
        pure (marks ++ [⟨kind, String.ofList text, span⟩], s))
      (if kind = .operator then do
        let t ← bracket { t with atLineStart := false } (returned text) span'
        pure (marks' ++ [⟨kind, String.ofList (returned text), span'⟩], t)
      else do
        let t ← Except.ok { t with atLineStart := false }
        pure (marks' ++ [⟨kind, String.ofList (returned text), span'⟩], t)) := by
  have hlater : Alike { s with atLineStart := false } { t with atLineStart := false } :=
    ⟨h.blocks, h.brackets, rfl, h.lineIndent, h.plain⟩
  have hadd (s₁ t₁ : Layout) (hstates : s₁.Alike t₁) :
      StepAlike (marks ++ [⟨kind, String.ofList text, span⟩], s₁)
        (marks' ++ [⟨kind, String.ofList (returned text), span'⟩], t₁) :=
    ⟨List.rel_append hmarks (.cons ⟨rfl, withoutReturns_returned hr⟩ .nil), hstates⟩
  split
  · next hop =>
    rw [returned_of_not_mem (hline hop)] at hadd ⊢
    exact (bracket_follows hlater _ _ _).bind fun s₁ t₁ hstates => .ok (hadd s₁ t₁ hstates)
  · exact .ok (hadd _ _ hlater)

/-- A lexeme that means something is added to both texts, behind the marks of its line. -/
theorem significant_follows (h : s.Alike t) (kind : TokenKind) {text : List Char}
    (hr : '\r' ∉ text) (hline : kind = .operator → '\n' ∉ text) (span span' : Span) :
    Follows StepAlike (s.significant kind text span) (t.significant kind (returned text) span') := by
  unfold significant
  simp only [h.atLineStart, h.brackets_eq_nil]
  split
  · apply (indentation_follows h _ _).bind
    intro a b hab
    exact counted_follows hab.2 hab.1 kind hr hline span span'
  · exact counted_follows h .nil kind hr hline span span'

theorem step_follows (h : s.Alike t) {lexeme : Lexeme} (hr : '\r' ∉ lexeme.text)
    (hline : lexeme.kind = .blank ∨ lexeme.kind = .operator → '\n' ∉ lexeme.text)
    (span span' : Span) :
    Follows StepAlike (s.step lexeme span) (t.step lexeme.withReturns span') := by
  have hanswers (kind : TokenKind) : List.Forall₂ Mark.Answers
      [⟨kind, String.ofList lexeme.text, span⟩]
      [⟨kind, String.ofList (returned lexeme.text), span'⟩] :=
    .cons ⟨rfl, withoutReturns_returned hr⟩ .nil
  unfold step
  dsimp only [Lexeme.withReturns]
  simp only [h.atLineStart, h.brackets_eq_nil]
  split
  · next hkind =>
    rw [returned_of_not_mem (hline (Or.inl hkind))]
    split
    · exact .ok ⟨.nil, h.blocks, h.brackets, rfl, rfl, hr, h.plain.2⟩
    · exact .ok ⟨.nil, h⟩
  · exact .ok ⟨.nil, h⟩
  · exact .ok ⟨hanswers _, h⟩
  · split
    · exact .ok ⟨hanswers _, h.blocks, h.brackets, rfl, rfl, by simp, h.plain.2⟩
    · exact .ok ⟨hanswers _, h⟩
  · exact significant_follows h _ hr (by simp) _ _
  · exact significant_follows h _ hr (by simp) _ _
  · exact significant_follows h _ hr (by simp) _ _
  · next hkind => exact significant_follows h _ hr (fun _ => hline (Or.inr hkind)) _ _

theorem finish_follows (h : s.Alike t) (offset offset' : Nat) :
    Follows (List.Forall₂ Mark.Answers) (s.finish offset) (t.finish offset') := by
  intro marks hmarks
  obtain ⟨hbrackets, rfl⟩ := finish_eq_ok hmarks
  have hclosed := (closeBlocks_answers 0 offset offset' h.plain.2).1
  refine ⟨_, by rw [finish, h.brackets_eq_nil.mpr hbrackets], ?_⟩
  rw [h.atLineStart, h.blocks]
  refine List.rel_append (List.rel_append ?_ hclosed) (.cons ⟨rfl, rfl⟩ .nil)
  split
  · exact .nil
  · exact .cons ⟨rfl, rfl⟩ .nil

/-! ## Whole texts -/

theorem run_follows (h : s.Alike t) {lexemes : List Lexeme} (hr : ∀ l ∈ lexemes, '\r' ∉ l.text)
    (hline : ∀ l ∈ lexemes, l.kind = .blank ∨ l.kind = .operator → '\n' ∉ l.text)
    (offset offset' : Nat) {marks : Array Mark} (hrun : s.run offset #[] lexemes none = .ok marks) :
    ∃ marks', t.run offset' #[] (lexemes.map Lexeme.withReturns) none = .ok marks' ∧
      List.Forall₂ Mark.Answers marks.toList marks'.toList := by
  induction lexemes generalizing s t offset offset' marks with
  | nil =>
    obtain ⟨marks', hfinish, hanswers⟩ :=
      finish_follows h offset offset' _ (run_nil_eq_ok hrun).2
    exact ⟨#[] ++ marks'.toArray, by simp [run, hfinish, Except.map], by simpa using hanswers⟩
  | cons lexeme rest ih =>
    simp only [run] at hrun
    split at hrun
    · cases hrun
    next first s₁ hstep =>
    obtain ⟨⟨first', t₁⟩, hstep', hfirst, hstates⟩ := step_follows h (hr lexeme (by simp))
      (hline lexeme (by simp)) _ ⟨offset', offset' + byteLength lexeme.withReturns.text⟩ _ hstep
    rw [run_eq_map] at hrun
    cases hlater : s₁.run (offset + byteLength lexeme.text) #[] rest none with
    | error fault => rw [hlater] at hrun; cases hrun
    | ok later =>
      rw [hlater] at hrun
      cases hrun
      obtain ⟨later', hlater', hanswers⟩ := ih hstates (fun l hl => hr l (by simp [hl]))
        (fun l hl => hline l (by simp [hl])) _ (offset' + byteLength lexeme.withReturns.text) hlater
      refine ⟨#[] ++ first'.toArray ++ later', ?_, ?_⟩
      · simp only [List.map_cons, run, hstep']
        rw [run_eq_map, hlater']
        rfl
      · simpa using List.rel_append hfirst hanswers

theorem significant?_eq_string {kind : LexemeKind} :
    kind.significant? = some .string ↔ kind = .string := by
  cases kind <;> simp [LexemeKind.significant?]

/-- A lexeme adds a string if it is one, and no other string. -/
theorem Moves.string_iff {s' : Layout} {lexeme : Lexeme} {span : Span} {marks : List Mark}
    (h : s.Moves lexeme span marks s') (text : String) :
    (∃ m ∈ marks, m.kind = .string ∧ m.text = text) ↔
      lexeme.kind = .string ∧ String.ofList lexeme.text = text := by
  have hown {kind : TokenKind} (hkind : lexeme.kind.significant? = some kind) :
      kind = .string ↔ lexeme.kind = .string := by
    rw [← significant?_eq_string, hkind, Option.some.injEq]
  cases h with
  | skips hkind => rcases hkind with hkind | hkind <;> simp [hkind]
  | indents hkind | comments hkind | wraps hkind | blanks hkind | ends hkind => simp [hkind]
  | @starts kind before blocks _ hkind _ _ hindents =>
    have hbefore : ∀ m ∈ before, m.kind ≠ .string := by
      cases hindents with
      | stays | opens => simp
      | closes =>
        intro m hm
        simp [(closeBlocks_marks _ _ _ m hm).1]
    rw [← hown hkind]
    constructor
    · rintro ⟨m, hm, hstring, rfl⟩
      rcases List.mem_append.mp hm with hm | hm
      · exact absurd hstring (hbefore m hm)
      · rw [List.mem_singleton.mp hm] at hstring ⊢
        exact ⟨hstring, rfl⟩
    · rintro ⟨hstring, rfl⟩
      exact ⟨_, List.mem_append_right _ (List.mem_singleton_self _), hstring, rfl⟩
  | continues hkind =>
    rw [← hown hkind]
    simp

/-- The strings of a run are those of its lexemes. -/
theorem run_strings (lexemes : List Lexeme) {fault : Option ScanFault} {offset : Nat}
    {marks : Array Mark} (h : s.run offset #[] lexemes fault = .ok marks) (text : String) :
    (∃ m ∈ marks.toList, m.kind = .string ∧ m.text = text) ↔
      ∃ l ∈ lexemes, l.kind = .string ∧ String.ofList l.text = text := by
  induction lexemes generalizing s offset marks with
  | nil =>
    have hmarks := (finish_eq_ok (run_nil_eq_ok h).2).2
    have hclosed := closeBlocks_marks 0 offset s.blocks
    rw [hmarks]
    simp only [List.not_mem_nil, false_and, exists_false, iff_false]
    rintro ⟨m, hm, hkind, -⟩
    rw [List.mem_append, List.mem_append, List.mem_singleton] at hm
    rcases hm with (hm | hm) | rfl
    · split at hm
      · cases hm
      · rw [List.mem_singleton.mp hm] at hkind
        cases hkind
    · rw [(hclosed m hm).1] at hkind
      cases hkind
    · cases hkind
  | cons lexeme rest ih =>
    obtain ⟨first, s₁, later, hmoves, hlater, hmarks⟩ := run_cons_eq_ok h
    have hfirst := hmoves.string_iff text
    have hrest := ih hlater
    rw [hmarks]
    grind

end Layout

/-! ## Laws -/

theorem withReturns_toList (text : String) : (withReturns text).toList = returned text.toList := by
  rw [withReturns, String.toList_ofList]

/-- A string of the tokens hides a line feed if a lexeme does. -/
theorem string_hides_iff {text : String} {marks : Array Mark} (h : Layout.marks text = .ok marks) :
    (∀ m ∈ marks.toList, m.kind = .string → Lexeme.hidesBreak m.text.toList = false) ↔
      ∀ l ∈ (Lexeme.scan text.toList).1.toList, l.breaksOpen = false := by
  have hstrings := Layout.run_strings _ h
  constructor
  · intro hall l hl
    by_cases hkind : l.kind = .string
    · obtain ⟨m, hm, hmark, htext⟩ := (hstrings (String.ofList l.text)).mpr ⟨l, hl, hkind, rfl⟩
      have hhides := hall m hm hmark
      rw [htext, String.toList_ofList] at hhides
      simp [Lexeme.breaksOpen, hhides]
    · simp [Lexeme.breaksOpen, hkind]
  · intro hall m hm hkind
    obtain ⟨l, hl, hlexeme, htext⟩ := (hstrings m.text).mp ⟨m, hm, hkind, rfl⟩
    have hcloses := hall l hl
    rw [← htext, String.toList_ofList]
    simpa [Lexeme.breaksOpen, hlexeme] using hcloses

/-- A source text and the same text with a carriage return before each line feed have tokens of the
same kinds, and of the same texts without the carriage returns, if no string that is not
triple-quoted has a line feed in it. If one has, the second text has no tokens. -/
theorem line_endings_matter_only_where_a_string_hides_one {name text : String} {tokens : List Token}
    (hr : '\r' ∉ text.toList) (h : tokenize name text = .ok tokens) :
    ((∀ t ∈ tokens, t.kind = .string → Lexeme.hidesBreak t.text.toList = false) →
      ∃ tokens', tokenize name (withReturns text) = .ok tokens' ∧
        tokens'.map Token.kind = tokens.map Token.kind ∧
        tokens'.map (fun t => withoutReturns t.text) = tokens.map Token.text) ∧
    ((∃ t ∈ tokens, t.kind = .string ∧ Lexeme.hidesBreak t.text.toList = true) →
      ∃ fault, tokenize name (withReturns text) = .error fault) := by
  obtain ⟨marks, hmarks, rfl⟩ := tokenize_eq_ok h
  have hnone : (Lexeme.scan text.toList).2 = none := Layout.run_fault _ hmarks
  have hscans := Lexeme.scans_of_scan hnone
  obtain ⟨hsame, hfault⟩ := Lexeme.scan_returned hr hnone
  have hhides := string_hides_iff hmarks
  have hother := Layout.marks_eq_run (withReturns text)
  rw [withReturns_toList] at hother
  constructor
  · intro hall
    obtain ⟨hlexemes, hnone'⟩ := hsame (hhides.mp fun m hm => hall _ (List.mem_map_of_mem hm))
    have hplain : ∀ l ∈ (Lexeme.scan text.toList).1.toList, '\r' ∉ l.text := by
      intro l hl hmem
      apply hr
      rw [← hscans.flatten]
      exact List.mem_flatMap_of_mem hl hmem
    rw [Layout.marks_eq_run, hnone] at hmarks
    obtain ⟨marks', hmarks', hanswers⟩ :=
      Layout.run_follows Layout.alike_start hplain hscans.on_one_line 0 0 hmarks
    obtain ⟨hkinds, htexts⟩ := answers_map hanswers
    rw [hlexemes, hnone', hmarks'] at hother
    refine ⟨_, by rw [tokenize, hother], ?_, ?_⟩
    · rw [List.map_map, List.map_map]
      exact hkinds
    · rw [List.map_map, List.map_map]
      exact htexts
  · rintro ⟨t, ht, hkind, hbreak⟩
    have hopen : ∃ l ∈ (Lexeme.scan text.toList).1.toList, l.breaksOpen = true := by
      by_contra hnot
      push Not at hnot
      obtain ⟨m, hm, rfl⟩ := List.mem_map.mp ht
      have hclosed := hhides.mpr (fun l hl => by simpa using hnot l hl) m hm hkind
      exact Bool.false_ne_true (hclosed.symm.trans hbreak)
    cases hresult : Layout.marks (withReturns text) with
    | ok marks' =>
      rw [hother] at hresult
      exact absurd (Layout.run_fault _ hresult) (hfault hopen)
    | error fault => exact ⟨_, by rw [tokenize, hresult]⟩

/-- A block, a comment, a joined line, brackets and a triple-quoted string over two lines. -/
def brokenText : String := "if a: # b\n\tc = (1 \\\n, r'\\d')\n\nd = '''e\\\nf'''\n"

theorem the_broken_text_has_the_same_tokens :
    '\r' ∉ brokenText.toList ∧ ∃ tokens tokens', tokenize "m" brokenText = .ok tokens ∧
      tokenize "m" (withReturns brokenText) = .ok tokens' ∧
      tokens'.map Token.kind = tokens.map Token.kind ∧
      tokens'.map (fun t => withoutReturns t.text) = tokens.map Token.text := by
  have hr : '\r' ∉ brokenText.toList := by decide
  have hlexes : (tokenize "m" brokenText).toOption.any (fun tokens =>
      tokens.all fun t => t.kind != .string || !Lexeme.hidesBreak t.text.toList) = true := by
    decide +kernel
  obtain ⟨tokens, htokens, hall⟩ := exists_ok_of_any hlexes
  obtain ⟨tokens', hsame⟩ :=
    (line_endings_matter_only_where_a_string_hides_one hr htokens).1 (by simpa [or_iff_not_imp_left] using hall)
  exact ⟨hr, tokens, tokens', htokens, hsame⟩

/-- A backslash hides a line feed from the string it stands in, and a carriage return in its
place. -/
theorem a_hidden_line_feed_leaves_a_string_open :
    (tokenize "m" "x = 'a\\\nb'\n").toOption.isSome = true ∧
      withReturns "x = 'a\\\nb'\n" = "x = 'a\\\r\nb'\r\n" ∧
      tokenize "m" "x = 'a\\\r\nb'\r\n" =
        .error ⟨.unterminatedString, "'", 1, "m", ⟨4, 5⟩⟩ := by
  decide

end SourceMacros
