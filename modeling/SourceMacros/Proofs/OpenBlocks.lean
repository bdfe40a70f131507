-- Open blocks: which blocks are open behind some tokens of a source. What a block adds is blank,
-- a nested word leaves the same blocks open that were open before it, and an import directive takes
-- no token that opens or closes one.
import SourceMacros.Proofs.Lexemes
import SourceMacros.Proofs.TokenShape
import SourceMacros.Proofs.Turns

namespace SourceMacros

/-! ## Indentation is blank -/

namespace Layout

variable {s s' : Layout} {lexeme : Lexeme} {marks : List Mark}

/-- Characters of indentation, and no others. -/
def Blank (cs : List Char) : Prop := ∀ c ∈ cs, Lexeme.isBlank c = true

theorem Indents.blank {first : Nat} {opened : List (List Char)} (h : s.Indents first marks opened)
    (hs : Blank s.lineIndent) : ∀ m ∈ marks, m.kind = .indent → Blank m.text.toList := by
  intro m hm hkind
  cases h with
  | stays => cases hm
  | opens =>
    rw [List.mem_singleton.mp hm, String.toList_ofList]
    exact fun c hc => hs c (List.mem_of_mem_drop hc)
  | closes =>
    rw [(closeBlocks_marks _ _ _ m hm).1] at hkind
    cases hkind

theorem Moves.blank {span : Span} {rest : List Lexeme} (h : s.Moves lexeme span marks s')
    (hparted : Lexeme.Parted (lexeme :: rest)) (hs : Blank s.lineIndent) :
    (∀ m ∈ marks, m.kind = .indent → Blank m.text.toList) ∧ Blank s'.lineIndent := by
  cases h with
  | skips => exact ⟨by simp, hs⟩
  | indents hkind => exact ⟨by simp, hparted.blanks lexeme (by simp) hkind⟩
  | comments | wraps => exact ⟨by simp, hs⟩
  | blanks | ends => exact ⟨by simp, by simp [Blank]⟩
  | @starts kind before _ _ hkind _ _ hindents =>
    refine ⟨?_, by simp [Blank]⟩
    intro m hm hindent
    rcases List.mem_append.mp hm with hm | hm
    · exact hindents.blank hs m hm hindent
    · rw [List.mem_singleton.mp hm] at hindent
      exact absurd hindent (isSignificant_ne (significant_isSignificant hkind)).2.1
  | @continues kind _ hkind =>
    refine ⟨?_, hs⟩
    intro m hm hindent
    rw [List.mem_singleton.mp hm] at hindent
    exact absurd hindent (isSignificant_ne (significant_isSignificant hkind)).2.1

theorem run_blank (lexemes : List Lexeme) (fault : Option ScanFault) {offset : Nat}
    {marks : Array Mark} (hparted : Lexeme.Parted lexemes) (hs : Blank s.lineIndent)
    (h : s.run offset #[] lexemes fault = .ok marks) :
    ∀ m ∈ marks.toList, m.kind = .indent → Blank m.text.toList := by
  induction lexemes generalizing s offset marks with
  | nil =>
    intro m hm hkind
    rw [(finish_eq_ok (run_nil_eq_ok h).2).2, List.mem_append, List.mem_append,
      List.mem_singleton] at hm
    rcases hm with (hm | hm) | rfl
    · cases hstart : s.atLineStart <;> simp [hstart] at hm
      simp [hm] at hkind
    · rw [(closeBlocks_marks _ _ _ m hm).1] at hkind
      cases hkind
    · cases hkind
  | cons lexeme rest ih =>
    obtain ⟨first, s₁, later, hmoves, hlater, hmarks⟩ := run_cons_eq_ok h
    obtain ⟨hfirst, hs₁⟩ := hmoves.blank hparted hs
    intro m hm
    rw [hmarks, List.mem_append] at hm
    rcases hm with hm | hm
    · exact hfirst m hm
    · exact ih hparted.tail hs₁ hlater m hm

end Layout

/-- What a block adds is blank. -/
theorem tokenize_blank {name text : String} {tokens : List Token}
    (h : tokenize name text = .ok tokens) :
    ∀ t ∈ tokens, t.kind = .indent → Layout.Blank t.text.toList := by
  obtain ⟨marks, hmarks, rfl⟩ := tokenize_eq_ok h
  have hscans := Lexeme.scans_of_scan (Layout.run_fault _ hmarks)
  intro t ht hkind
  obtain ⟨m, hm, rfl⟩ := List.mem_map.mp ht
  exact Layout.run_blank _ _ hscans.parted (by simp [Layout.Blank]) hmarks m hm hkind

/-! ## Open blocks -/

/-- Tokens open and close blocks, whatever indentation they carry. -/
def blockNesting : Pairing Token Unit where
  opens t _ := t.kind = .indent
  closes t _ := t.kind = .dedent

/-- The open blocks after one more token. -/
def track (opened : List Token) (t : Token) : List Token :=
  match t.kind with
  | .indent => opened ++ [t]
  | .dedent => opened.dropLast
  | _ => opened

/-- The tokens whose blocks are still open behind all of these, the outermost first. -/
def openBlocks (ts : List Token) : List Token := ts.foldl track []

theorem track_plain {t : Token} (h : blockNesting.Plain t) (opened : List Token) :
    track opened t = opened := by
  unfold track
  split
  · next hkind => exact absurd hkind (h ()).1
  · next hkind => exact absurd hkind (h ()).2
  · rfl

/-- Behind a nested word the same blocks are open as before it. -/
theorem foldl_track_nested {w : List Token} (h : blockNesting.Paired w) (opened : List Token) :
    w.foldl track opened = opened := by
  induction h generalizing opened with
  | nil => rfl
  | plain ha _ ih => rw [List.foldl_cons, track_plain ha, ih]
  | @pair a b inner w hanswers _ _ ihinner ihw =>
    obtain ⟨-, ha : a.kind = .indent, hb : b.kind = .dedent⟩ := hanswers
    have hopen : track opened a = opened ++ [a] := by simp [track, ha]
    have hclose : track (opened ++ [a]) b = opened := by simp [track, hb]
    rw [List.foldl_cons, List.foldl_append, hopen, ihinner, List.foldl_cons, hclose, ihw]

theorem mem_track {opened : List Token} {t u : Token} (h : u ∈ track opened t) :
    u ∈ opened ∨ u = t ∧ t.kind = .indent := by
  unfold track at h
  split at h
  · next hkind => simpa [hkind] using h
  · exact Or.inl (List.dropLast_subset _ h)
  · exact Or.inl h

/-- A block is opened by one of the tokens. -/
theorem mem_openBlocks {ts : List Token} {t : Token} (h : t ∈ openBlocks ts) :
    t ∈ ts ∧ t.kind = .indent := by
  have hfold : ∀ (ts opened : List Token), t ∈ ts.foldl track opened →
      t ∈ opened ∨ t ∈ ts ∧ t.kind = .indent := by
    intro ts
    induction ts with
    | nil => exact fun _ ht => Or.inl ht
    | cons u ts ih =>
      intro opened ht
      rcases ih _ ht with ht | ⟨ht, hkind⟩
      · rcases mem_track ht with ht | ⟨rfl, hkind⟩
        · exact Or.inl ht
        · exact Or.inr ⟨List.mem_cons_self, hkind⟩
      · exact Or.inr ⟨List.mem_cons_of_mem _ ht, hkind⟩
  rcases hfold ts [] h with h | h
  · cases h
  · exact h

theorem closes_of_indent {t : Token} {w : List Token} {stack : List String}
    (ht : t.kind = .indent) (h : blockPairing.Closes stack (t :: w)) :
    blockPairing.Closes (t.text :: stack) w := by
  have hnot : ∀ k, ¬ blockPairing.closes t k := by
    rintro k ⟨hk, -⟩
    simp [ht] at hk
  exact h.of_opens hnot ⟨ht, rfl⟩ fun k hk => hk.2.symm

theorem closes_of_dedent {t : Token} {w : List Token} {stack : List String}
    (ht : t.kind = .dedent) (h : blockPairing.Closes stack (t :: w)) :
    ∃ outer, stack = t.text :: outer ∧ blockPairing.Closes outer w := by
  have hnot : ∀ k, ¬ blockPairing.opens t k := by
    rintro k ⟨hk, -⟩
    simp [ht] at hk
  exact h.of_closes hnot ⟨ht, rfl⟩ fun k hk => hk.2.symm

/-- Behind a nested word the same indentation is left to close as before it. -/
theorem closes_of_nested {w rest : List Token} (h : blockNesting.Paired w) {stack : List String}
    (hcloses : blockPairing.Closes stack (w ++ rest)) : blockPairing.Closes stack rest := by
  induction h generalizing stack rest with
  | nil => exact hcloses
  | plain ha _ ih => exact ih (hcloses.of_plain (blocks_plain (ha ()).1 (ha ()).2))
  | @pair a b inner w hanswers _ _ ihinner ihw =>
    obtain ⟨-, ha : a.kind = .indent, hb : b.kind = .dedent⟩ := hanswers
    rw [List.cons_append, List.append_assoc, List.cons_append] at hcloses
    have hinner := ihinner (closes_of_indent ha hcloses)
    obtain ⟨outer, hstack, hrest⟩ := closes_of_dedent hb hinner
    rw [List.cons.injEq] at hstack
    rw [← hstack.2] at hrest
    exact ihw hrest

/-! ## Streams -/

namespace Stream

variable {stream : Stream}

/-- The stream of a source has the tokens that mean something, and starts at the first of them. -/
theorem tokens_of_ofSource {name text : String} (h : ofSource name text = .ok stream) :
    ∃ tokens, tokenize name text = .ok tokens ∧
      stream.tokens = tokens.filter (!·.kind.isTrivia) ∧ stream.cursor = 0 := by
  cases htokens : tokenize name text with
  | error fault => simp [ofSource, htokens, Except.map] at h
  | ok tokens =>
    obtain ⟨front, last, hends, hlast, -⟩ := tokenize_ends htokens
    have hkept : tokens.filter (!·.kind.isTrivia) =
        front.filter (!·.kind.isTrivia) ++ [last] := by
      simp [hends, hlast, TokenKind.isTrivia]
    have hstream : stream = ofTokens tokens name text := by
      simpa [ofSource, htokens, Except.map, eq_comm] using h
    refine ⟨tokens, rfl, ?_, ?_⟩
    · rw [hstream, hkept]
      simp [ofTokens, Stream.tokens, hkept, hlast]
    · rw [hstream]
      simp [ofTokens, hkept, hlast]

theorem between_eq_take_drop (first last : Nat) :
    stream.between first last = (stream.tokens.drop first).take (last - first) := by
  unfold between tokens
  simp only [Array.toList_extract, List.extract_eq_take_drop, List.drop_append, List.take_append,
    Array.length_toList, List.length_drop]
  by_cases hpast : first ≤ stream.front.size ∧ stream.front.size < last
  · have hnone : first - stream.front.size = 0 := by omega
    have hlast : [stream.last].length ≤ last - first - (stream.front.size - first) := by
      simp
      omega
    rw [if_pos hpast, hnone, List.drop_zero, List.take_of_length_le hlast]
  · have hempty : ([stream.last].drop (first - stream.front.size)).take
        (last - first - (stream.front.size - first)) = [] := by
      simp
      omega
    rw [if_neg hpast, hempty, List.append_nil]

/-- The tokens before an index and those up to a later one. -/
theorem take_append_between {first last : Nat} (h : first ≤ last) :
    stream.tokens.take first ++ stream.between first last = stream.tokens.take last := by
  rw [between_eq_take_drop, ← List.take_add]
  congr 1
  omega

/-- The tokens from an index up to a later one and those from there on. -/
theorem between_append_drop {first last : Nat} (h : first ≤ last) :
    stream.between first last ++ stream.tokens.drop last = stream.tokens.drop first := by
  have hlast : stream.tokens.drop last = (stream.tokens.drop first).drop (last - first) := by
    rw [List.drop_drop]
    congr 1
    omega
  rw [between_eq_take_drop, hlast, List.take_append_drop]

theorem getElem?_tokens {i : Nat} (h : i < stream.front.size) :
    stream.tokens[i]? = some (stream.tokenAt i) := by
  simp [tokens, tokenAt, h, List.getElem?_append_left]

/-- Before its end a stream goes on with the token under the cursor. -/
theorem drop_cursor (h : stream.atEnd = false) :
    stream.tokens.drop stream.cursor =
      stream.peek :: stream.tokens.drop (stream.cursor + 1) := by
  rw [List.drop_eq_getElem?_toList_append, getElem?_tokens (PassRun.lt_size_of_not_atEnd h)]
  rfl

theorem take_cursor (h : stream.atEnd = false) :
    stream.tokens.take (stream.cursor + 1) =
      stream.tokens.take stream.cursor ++ [stream.peek] := by
  rw [List.take_add_one, getElem?_tokens (PassRun.lt_size_of_not_atEnd h)]
  rfl

/-- A stream that went on over tokens which open and close no block. -/
structure Passes (a b : Stream) : Prop where
  stream : b = { a with cursor := b.cursor }
  forward : a.cursor ≤ b.cursor
  plain : ∀ t ∈ a.between a.cursor b.cursor, blockNesting.Plain t

theorem Passes.refl (a : Stream) : a.Passes a := by
  refine ⟨rfl, Nat.le_refl _, ?_⟩
  simp [between_eq_take_drop]

theorem Passes.trans {a b c : Stream} (hab : a.Passes b) (hbc : b.Passes c) : a.Passes c := by
  have hc : c = { a with cursor := c.cursor } := by rw [hbc.stream, hab.stream]
  refine ⟨hc, Nat.le_trans hab.forward hbc.forward, ?_⟩
  intro t ht
  have htokens : b.tokens = a.tokens := by rw [hab.stream]; rfl
  have hsplit : a.between a.cursor c.cursor =
      a.between a.cursor b.cursor ++ b.between b.cursor c.cursor := by
    have hleft := a.take_append_between hab.forward
    have hright := b.take_append_between hbc.forward
    have hall := a.take_append_between (Nat.le_trans hab.forward hbc.forward)
    rw [htokens, ← hleft, List.append_assoc, ← hall] at hright
    exact (List.append_cancel_left hright).symm
  rw [hsplit, List.mem_append] at ht
  rcases ht with ht | ht
  · exact hab.plain t ht
  · exact hbc.plain t ht

theorem passes_skip (h : stream.atEnd = false) (hplain : blockNesting.Plain stream.peek) :
    stream.Passes stream.skip := by
  rw [PassRun.skip_eq h]
  refine ⟨rfl, Nat.le_succ _, ?_⟩
  intro t ht
  rw [between_eq_take_drop, drop_cursor h] at ht
  simp only [Nat.add_sub_cancel_left, List.take_succ_cons, List.take_zero,
    List.mem_singleton] at ht
  rw [ht]
  exact hplain

end Stream

/-! ## Import directives -/

section

variable {μ : Type} {p p' : ParseState μ}

theorem plain_of_accepts {m : Matcher} {t : Token} (hm : m.kind = some .name ∨
    m.kind = some .operator) (h : m.accepts t = true) : blockNesting.Plain t := by
  have hkind : t.kind = .name ∨ t.kind = .operator := by
    rcases hm with hm | hm
    · simp_all [Matcher.accepts]
    · simp_all [Matcher.accepts]
  rcases hkind with hkind | hkind <;> simp [Pairing.Plain, blockNesting, hkind]

theorem check_passes {stream : Stream} {m : Matcher} (hm : m.kind = some .name ∨
    m.kind = some .operator) (h : stream.check m = true) : stream.Passes stream.skip := by
  rw [Stream.check, Bool.and_eq_true, Bool.not_eq_true'] at h
  exact Stream.passes_skip h.1 (plain_of_accepts hm h.2)

theorem consume_passes {m : Matcher} {context : String} {t : Token}
    (hm : m.kind = some .name ∨ m.kind = some .operator)
    (h : Parser.consume m context p = .ok t p') : p.stream.Passes p'.stream := by
  obtain ⟨found, q, hq, h⟩ := bind_eq_ok.mp h
  unfold Parser.onStream Stream.consume at hq
  dsimp only at hq
  by_cases hcheck : p.stream.check m = true
  · rw [if_pos hcheck] at hq
    cases hq
    cases h
    exact check_passes hm hcheck
  · rw [if_neg hcheck] at hq
    cases hq
    cases h

theorem tryMatch_passes {m : Matcher} {found : Bool}
    (hm : m.kind = some .name ∨ m.kind = some .operator)
    (h : Parser.tryMatch [m] p = .ok found p') : p.stream.Passes p'.stream := by
  unfold Parser.tryMatch Parser.onStream Stream.tryMatch at h
  dsimp only at h
  by_cases hcheck : [m].any p.stream.check = true
  · rw [if_pos hcheck] at h
    cases h
    exact check_passes hm (by simpa using hcheck)
  · rw [if_neg hcheck] at h
    cases h
    exact .refl _

/-- An import directive is made of names and a point. -/
theorem directive_passes {directive : Directive} (h : Directive.parse p = .ok directive p') :
    p.stream.Passes p'.stream := by
  unfold Directive.parse at h
  obtain ⟨_, p₁, h1, h⟩ := bind_eq_ok.mp h
  obtain ⟨head, p₂, h2, h⟩ := bind_eq_ok.mp h
  obtain ⟨found, p₃, h3, h⟩ := bind_eq_ok.mp h
  have hpasses := ((consume_passes (Or.inl rfl) h1).trans (consume_passes (Or.inl rfl) h2)).trans
    (tryMatch_passes (Or.inr rfl) h3)
  cases found with
  | true =>
    obtain ⟨member, p₄, h4, h⟩ := bind_eq_ok.mp h
    cases h
    exact hpasses.trans (consume_passes (Or.inl rfl) h4)
  | false =>
    cases h
    exact hpasses

theorem paired_of_plain {w : List Token} (h : ∀ t ∈ w, blockNesting.Plain t) :
    blockNesting.Paired w := by
  induction w with
  | nil => exact .nil
  | cons t w ih => exact .plain (h t (by simp)) (ih fun u hu => h u (by simp [hu]))

end

end SourceMacros
