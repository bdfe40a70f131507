-- The tokens of a source stand in order. Each one starts no earlier than the tokens before it
-- end, the start of an opened block apart, and the end marker is the last one and the only one.
-- So the lines that tokens touch never go back.
import SourceMacros.Proofs.Lines
import SourceMacros.Stream

namespace SourceMacros

/-! ## Marks -/

/-- A mark stands behind an offset: it lies past it, except that the mark of an opened block may
reach back into the blanks before the offset. -/
structure Mark.Behind (offset : Nat) (m : Mark) : Prop where
  whole : m.span.start ≤ m.span.stop
  stop : offset ≤ m.span.stop
  start : m.kind ≠ .indent → offset ≤ m.span.start

theorem Mark.Behind.mono {low high : Nat} {m : Mark} (h : m.Behind high) (hle : low ≤ high) :
    m.Behind low :=
  ⟨h.whole, Nat.le_trans hle h.stop, fun hk => Nat.le_trans hle (h.start hk)⟩

/-- Each mark stands behind the ends of those before it. -/
def InOrder (marks : List Mark) : Prop := marks.Pairwise fun a b => b.Behind a.span.stop

theorem length_le_byteLength (cs : List Char) : cs.length ≤ byteLength cs := by
  unfold byteLength
  induction cs with
  | nil => exact Nat.le_refl _
  | cons c cs ih =>
    have := c.utf8Size_pos
    simp only [List.length_cons, List.foldr_cons]
    omega

namespace Layout

theorem closeBlocks_marks (depth offset : Nat) (blocks : List (List Char)) :
    ∀ m ∈ (closeBlocks depth offset blocks).1, m.kind = .dedent ∧ m.span = .point offset := by
  induction blocks with
  | nil => simp [closeBlocks]
  | cons block outer ih =>
    unfold closeBlocks
    split
    · intro m hm
      rcases List.mem_cons.mp hm with rfl | hm
      · exact ⟨rfl, rfl⟩
      · exact ih m hm
    · simp

theorem behind_point {m : Mark} {offset : Nat} (h : m.span = .point offset) : m.Behind offset := by
  refine ⟨?_, ?_, fun _ => ?_⟩ <;> simp [h, Span.point]

/-- The marks of a new logical line end where its first token starts. -/
theorem indentation_marks {s s' : Layout} {first : Nat} {marks : List Mark}
    (h : s.indentation first = .ok (marks, s')) (hs : s.lineIndent.length ≤ first) :
    (∀ m ∈ marks, m.Behind first ∧ m.span.stop = first ∧ m.kind ≠ .endMarker) ∧
      s'.lineIndent = [] := by
  unfold indentation at h
  dsimp only at h
  split at h
  · cases h
    simp
  · split at h
    · next hdeep =>
      cases h
      refine ⟨?_, rfl⟩
      intro m hm
      rw [List.mem_singleton] at hm
      subst hm
      refine ⟨⟨?_, Nat.le_refl _, fun hk => absurd rfl hk⟩, rfl, by simp⟩
      dsimp only
      omega
    · split at h
      · cases h
        refine ⟨?_, rfl⟩
        intro m hm
        obtain ⟨hk, hspan⟩ := closeBlocks_marks _ _ _ m hm
        exact ⟨behind_point hspan, by rw [hspan]; rfl, by simp [hk]⟩
      · cases h

theorem bracket_lineIndent {s s' : Layout} {text : List Char} {span : Span}
    (h : s.bracket text span = .ok s') : s'.lineIndent = s.lineIndent := by
  unfold bracket at h
  split at h
  · split at h
    · cases h; rfl
    · split at h
      · cases h; rfl
      · split at h
        · split at h
          · cases h; rfl
          · cases h
        · cases h
  · cases h; rfl

/-- What one lexeme from `offset` to `next` may add: marks in order that lie between the two. -/
structure Adds (offset next : Nat) (marks : List Mark) (s' : Layout) : Prop where
  behind : ∀ m ∈ marks, m.Behind offset ∧ m.span.stop ≤ next ∧ m.kind ≠ .endMarker
  inOrder : InOrder marks
  indent : s'.lineIndent.length ≤ next

theorem adds_none {offset next : Nat} {s' : Layout} (h : s'.lineIndent.length ≤ next) :
    Adds offset next [] s' := ⟨by simp, List.Pairwise.nil, h⟩

theorem adds_one {offset next : Nat} {s' : Layout} {kind : TokenKind} {text : String}
    (hle : offset ≤ next) (hk : kind ≠ .endMarker) (h : s'.lineIndent.length ≤ next) :
    Adds offset next [⟨kind, text, ⟨offset, next⟩⟩] s' := by
  refine ⟨?_, List.pairwise_singleton _ _, h⟩
  intro m hm
  rw [List.mem_singleton] at hm
  subst hm
  exact ⟨⟨hle, hle, fun _ => Nat.le_refl _⟩, Nat.le_refl _, hk⟩

/-- A lexeme that means something adds the marks of its line, if it is the first there, and then
its own. -/
theorem significant_eq_ok {s s' : Layout} {kind : TokenKind} {text : List Char} {span : Span}
    {marks : List Mark} (h : s.significant kind text span = .ok (marks, s')) :
    ∃ before s₁, marks = before ++ [⟨kind, String.ofList text, span⟩] ∧
      s'.lineIndent = s₁.lineIndent ∧
      (s.indentation span.start = .ok (before, s₁) ∨ (before = [] ∧ s₁ = s)) := by
  unfold significant at h
  -- Whatever came before, the rest of the lexeme only keeps account of brackets.
  have rest : ∀ (before : List Mark) (s₁ : Layout), (do
        let s := { s₁ with atLineStart := false }
        let s ← if kind = .operator then s.bracket text span else .ok s
        return (before ++ [⟨kind, String.ofList text, span⟩], s)) = Except.ok (marks, s') →
      marks = before ++ [⟨kind, String.ofList text, span⟩] ∧ s'.lineIndent = s₁.lineIndent := by
    intro before s₁ h
    dsimp only at h
    split at h
    · cases hb : bracket { s₁ with atLineStart := false } text span with
      | error fault => rw [hb] at h; cases h
      | ok s₂ =>
        rw [hb] at h
        cases h
        have := bracket_lineIndent hb
        exact ⟨rfl, this⟩
    · cases h
      exact ⟨rfl, rfl⟩
  dsimp only at h
  by_cases hstart : s.atLineStart ∧ s.brackets = []
  · rw [if_pos hstart] at h
    cases hi : s.indentation span.start with
    | error fault => rw [hi] at h; cases h
    | ok found =>
      rw [hi] at h
      obtain ⟨hmarks, hs'⟩ := rest found.1 found.2 h
      exact ⟨found.1, found.2, hmarks, hs', Or.inl rfl⟩
  · rw [if_neg hstart] at h
    obtain ⟨hmarks, hs'⟩ := rest [] s h
    exact ⟨[], s, hmarks, hs', Or.inr ⟨rfl, rfl⟩⟩

theorem significant_adds {s s' : Layout} {kind : TokenKind} {text : List Char}
    {offset next : Nat} {marks : List Mark} (hk : kind ≠ .endMarker) (hle : offset ≤ next)
    (hs : s.lineIndent.length ≤ offset)
    (h : s.significant kind text ⟨offset, next⟩ = .ok (marks, s')) :
    Adds offset next marks s' := by
  obtain ⟨before, s₁, rfl, hs', hcase⟩ := significant_eq_ok h
  have hown : Mark.Behind offset ⟨kind, String.ofList text, ⟨offset, next⟩⟩ :=
    ⟨hle, hle, fun _ => Nat.le_refl _⟩
  obtain ⟨hbefore, hindent⟩ :
      (∀ m ∈ before, m.Behind offset ∧ m.span.stop = offset ∧ m.kind ≠ .endMarker) ∧
        s₁.lineIndent.length ≤ next := by
    rcases hcase with hi | ⟨rfl, rfl⟩
    · obtain ⟨hmarks, hnil⟩ := indentation_marks hi hs
      exact ⟨hmarks, by simp [hnil]⟩
    · exact ⟨by simp, Nat.le_trans hs hle⟩
  refine ⟨?_, ?_, by rw [hs']; exact hindent⟩
  · intro m hm
    rcases List.mem_append.mp hm with hm | hm
    · obtain ⟨h1, h2, h3⟩ := hbefore m hm
      exact ⟨h1, by omega, h3⟩
    · rw [List.mem_singleton] at hm
      subst hm
      exact ⟨hown, Nat.le_refl _, hk⟩
  · unfold InOrder
    rw [List.pairwise_append]
    refine ⟨?_, List.pairwise_singleton _ _, ?_⟩
    · apply List.pairwise_of_forall_mem_list
      intro a ha b hb
      rw [(hbefore a ha).2.1]
      exact (hbefore b hb).1
    · intro a ha b hb
      rw [List.mem_singleton] at hb
      subst hb
      rw [(hbefore a ha).2.1]
      exact hown

theorem step_adds {s s' : Layout} {lexeme : Lexeme} {offset : Nat} {marks : List Mark}
    (hs : s.lineIndent.length ≤ offset)
    (h : s.step lexeme ⟨offset, offset + byteLength lexeme.text⟩ = .ok (marks, s')) :
    Adds offset (offset + byteLength lexeme.text) marks s' := by
  have hle : offset ≤ offset + byteLength lexeme.text := by omega
  have hs' : s.lineIndent.length ≤ offset + byteLength lexeme.text := by omega
  unfold step at h
  split at h
  · split at h
    · cases h
      apply adds_none
      have := length_le_byteLength lexeme.text
      dsimp only
      omega
    · cases h; exact adds_none hs'
  · cases h; exact adds_none hs'
  · cases h; exact adds_one hle (by simp) hs'
  · dsimp only at h
    split at h
    · cases h
      apply adds_one hle
      · split <;> simp
      · simp
    · cases h; exact adds_one hle (by simp) hs'
  all_goals exact significant_adds (by simp) hle hs h

/-- The marks at the end of a source: the end marker comes last, and nothing before it is one. -/
theorem finish_marks {s : Layout} {offset : Nat} {marks : List Mark}
    (h : s.finish offset = .ok marks) :
    ∃ front, marks = front ++ [⟨.endMarker, "", .point offset⟩] ∧
      (∀ m ∈ front, m.span = .point offset ∧ m.kind ≠ .endMarker) := by
  unfold finish at h
  split at h
  · cases h
  · cases h
    refine ⟨_, rfl, ?_⟩
    intro m hm
    rcases List.mem_append.mp hm with hm | hm
    · split at hm
      · simp at hm
      · rw [List.mem_singleton] at hm
        subst hm
        exact ⟨rfl, by simp⟩
    · obtain ⟨hk, hspan⟩ := closeBlocks_marks _ _ _ m hm
      exact ⟨hspan, by simp [hk]⟩

/-- The marks of a whole run from an offset. -/
structure Whole (offset : Nat) (marks : List Mark) : Prop where
  behind : ∀ m ∈ marks, m.Behind offset
  inOrder : InOrder marks
  ends : ∃ front last, marks = front ++ [last] ∧ last.kind = .endMarker ∧
    ∀ m ∈ front, m.kind ≠ .endMarker

theorem finish_whole {s : Layout} {offset : Nat} {marks : List Mark}
    (h : s.finish offset = .ok marks) : Whole offset marks := by
  obtain ⟨front, rfl, hfront⟩ := finish_marks h
  have hpoint : ∀ m ∈ front ++ [⟨.endMarker, "", .point offset⟩], m.span = .point offset := by
    intro m hm
    rcases List.mem_append.mp hm with hm | hm
    · exact (hfront m hm).1
    · rw [List.mem_singleton] at hm
      subst hm
      rfl
  refine ⟨fun m hm => behind_point (hpoint m hm), ?_, front, _, rfl, rfl,
    fun m hm => (hfront m hm).2⟩
  apply List.pairwise_of_forall_mem_list
  intro a ha b hb
  rw [hpoint a ha]
  exact behind_point (hpoint b hb)

/-- What the first lexeme adds stands before all that follows. -/
theorem Whole.append {offset next : Nat} {marks rest : List Mark} {s' : Layout}
    (hle : offset ≤ next) (ha : Adds offset next marks s') (hw : Whole next rest) :
    Whole offset (marks ++ rest) := by
  obtain ⟨front, last, hrest, hlast, hfront⟩ := hw.ends
  refine ⟨?_, ?_, marks ++ front, last, by rw [hrest, List.append_assoc], hlast, ?_⟩
  · intro m hm
    rcases List.mem_append.mp hm with hm | hm
    · exact (ha.behind m hm).1
    · exact (hw.behind m hm).mono hle
  · unfold InOrder
    rw [List.pairwise_append]
    refine ⟨ha.inOrder, hw.inOrder, ?_⟩
    intro a hma b hmb
    exact (hw.behind b hmb).mono (ha.behind a hma).2.1
  · intro m hm
    rcases List.mem_append.mp hm with hm | hm
    · exact (ha.behind m hm).2.2
    · exact hfront m hm

theorem run_whole (lexemes : List Lexeme) (fault : Option ScanFault) {s : Layout} {offset : Nat}
    {marks : Array Mark} (hs : s.lineIndent.length ≤ offset)
    (h : s.run offset #[] lexemes fault = .ok marks) : Whole offset marks.toList := by
  induction lexemes generalizing s offset marks with
  | nil =>
    cases fault with
    | some fault => cases h
    | none =>
      simp only [run] at h
      cases hf : s.finish offset with
      | error fault => rw [hf] at h; cases h
      | ok found =>
        rw [hf] at h
        cases h
        simpa using finish_whole hf
  | cons lexeme rest ih =>
    simp only [run] at h
    split at h
    · cases h
    · next added s₁ hstep =>
      have ha := step_adds hs hstep
      rw [run_eq_map] at h
      cases hr : s₁.run (offset + byteLength lexeme.text) #[] rest fault with
      | error fault => rw [hr] at h; cases h
      | ok found =>
        rw [hr] at h
        cases h
        have := Whole.append (by omega) ha (ih ha.indent hr)
        simpa using this

theorem marks_whole {text : String} {found : Array Mark} (h : marks text = .ok found) :
    Whole 0 found.toList := by
  unfold marks at h
  exact run_whole _ _ (by simp) h

end Layout

/-! ## Tokens -/

theorem tokenize_eq_ok {name text : String} {tokens : List Token}
    (h : tokenize name text = .ok tokens) :
    ∃ marks, Layout.marks text = .ok marks ∧ tokens =
      marks.toList.map fun m => Token.place (LineTable.ofText text) m.kind m.text m.span := by
  unfold tokenize at h
  dsimp only at h
  split at h
  · next marks hm =>
    cases h
    exact ⟨marks, hm, rfl⟩
  · cases h

/-- No token but one that opens a block starts on an earlier line than a token before it ends. -/
def LinesInOrder (tokens : List Token) : Prop :=
  tokens.Pairwise fun a b => b.kind ≠ .indent → a.stop.line ≤ b.start.line

theorem tokenize_linesInOrder {name text : String} {tokens : List Token}
    (h : tokenize name text = .ok tokens) : LinesInOrder tokens := by
  obtain ⟨marks, hm, rfl⟩ := tokenize_eq_ok h
  have hw := Layout.marks_whole hm
  unfold LinesInOrder
  rw [List.pairwise_map]
  apply List.Pairwise.imp_of_mem _ hw.inOrder
  intro a b ha hb hab hk
  exact LineTable.endPosition_line_le text (hw.behind a ha).whole (hab.start hk)

theorem tokenize_line_le {name text : String} {tokens : List Token}
    (h : tokenize name text = .ok tokens) : ∀ t ∈ tokens, t.start.line ≤ t.stop.line := by
  obtain ⟨marks, hm, rfl⟩ := tokenize_eq_ok h
  intro t ht
  obtain ⟨m, _, rfl⟩ := List.mem_map.mp ht
  exact LineTable.position_line_le_endPosition text m.span

/-- The end marker of a source is its last token and no other. -/
theorem tokenize_ends {name text : String} {tokens : List Token}
    (h : tokenize name text = .ok tokens) :
    ∃ front last, tokens = front ++ [last] ∧ last.kind = .endMarker ∧
      ∀ t ∈ front, t.kind ≠ .endMarker := by
  obtain ⟨marks, hm, rfl⟩ := tokenize_eq_ok h
  obtain ⟨front, last, hmarks, hlast, hfront⟩ := (Layout.marks_whole hm).ends
  rw [hmarks, List.map_append, List.map_singleton]
  refine ⟨_, _, rfl, hlast, ?_⟩
  intro t ht
  obtain ⟨m, hmf, rfl⟩ := List.mem_map.mp ht
  exact hfront m hmf

/-! ## Streams -/

namespace Stream

/-- The stream of the tokens of a text, before anything is read from it. -/
structure Lexed (tokens : List Token) (text : String) (stream : Stream) : Prop where
  lines : stream.lines = LineTable.ofText text
  cursor : stream.cursor = 0
  mem : ∀ t ∈ stream.front, t ∈ tokens
  noMarker : ∀ t ∈ stream.front, t.kind ≠ .endMarker
  inOrder : LinesInOrder stream.front.toList
  line_le : ∀ t ∈ stream.front, t.start.line ≤ t.stop.line

theorem lexed_of_tokenize {name text : String} {tokens : List Token}
    (h : tokenize name text = .ok tokens) :
    ∃ stream, ofSource name text = .ok stream ∧ Lexed tokens text stream := by
  refine ⟨ofTokens tokens name text, by simp [ofSource, h, Except.map], ?_⟩
  obtain ⟨front, last, htokens, hlast, hfront⟩ := tokenize_ends h
  have hkept : tokens.filter (!·.kind.isTrivia) = front.filter (!·.kind.isTrivia) ++ [last] := by
    simp [htokens, hlast, TokenKind.isTrivia]
  have hstream : ofTokens tokens name text =
      ⟨(front.filter (!·.kind.isTrivia)).toArray, last, hlast, 0, name, LineTable.ofText text⟩ := by
    unfold ofTokens
    simp [hkept, hlast]
  have hsub : (front.filter (!·.kind.isTrivia)).Sublist tokens := by
    rw [htokens]
    exact List.filter_sublist.trans (List.sublist_append_left _ _)
  rw [hstream]
  refine ⟨rfl, rfl, ?_, ?_, ?_, ?_⟩
  · intro t ht
    exact hsub.subset (List.mem_toArray.mp ht)
  · intro t ht
    exact hfront t (List.filter_sublist.subset (List.mem_toArray.mp ht))
  · exact (tokenize_linesInOrder h).sublist hsub
  · intro t ht
    exact tokenize_line_le h t (hsub.subset (List.mem_toArray.mp ht))

theorem lexed_of_ofSource {name text : String} {stream : Stream}
    (h : ofSource name text = .ok stream) :
    ∃ tokens, tokenize name text = .ok tokens ∧ Lexed tokens text stream := by
  cases ht : tokenize name text with
  | error fault => simp [ofSource, ht, Except.map] at h
  | ok tokens =>
    obtain ⟨found, hfound, hl⟩ := lexed_of_tokenize ht
    rw [hfound] at h
    cases h
    exact ⟨tokens, rfl, hl⟩

end Stream

end SourceMacros
