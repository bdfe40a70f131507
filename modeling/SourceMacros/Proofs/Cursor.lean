-- The cursor of a stream. The host pass and every plugin call on one stream in any order; none of
-- them moves the cursor back or past the first end marker, and every answer is about the token that
-- stands there.
import SourceMacros.Proofs.OpenBlocks

namespace SourceMacros

namespace Stream

/-! ## Calls -/

/-- A call on a stream. -/
inductive Call where
  | peek
  | previous
  | advance
  | next
  | check (m : Matcher)
  | tryMatch (ms : List Matcher)
  | consume (m : Matcher) (context : String)
  | fault (context : String)

/-- What a call gives back. -/
inductive Answer where
  | token (t : Token)
  | item (t : Option Token)
  | verdict (accepted : Bool)
  | consumed (result : Except SyntaxFault Token)
  | fault (f : SyntaxFault)

/-- What a call gives back, and the stream after it. -/
def call (s : Stream) : Call → Answer × Stream
  | .peek => (.token s.peek, s)
  | .previous => (.token s.previous, s)
  | .advance => (.token s.advance.1, s.advance.2)
  | .next => (.item s.next.1, s.next.2)
  | .check m => (.verdict (s.check m), s)
  | .tryMatch ms => (.verdict (s.tryMatch ms).1, (s.tryMatch ms).2)
  | .consume m context => (.consumed (s.consume m context).1, (s.consume m context).2)
  | .fault context => (.fault (s.faultHere context), s)

/-- The stream after some calls, one after the other. -/
def after (s : Stream) (calls : List Call) : Stream := calls.foldl (fun s c => (s.call c).2) s

theorem after_append (s : Stream) (calls more : List Call) :
    s.after (calls ++ more) = (s.after calls).after more := List.foldl_append

/-- The fault of a token that a grammar does not want. -/
def faultAt (source context : String) (t : Token) : SyntaxFault where
  cause := .expected context t.text
  found := t.text
  line := t.start.line
  source := source
  span := t.span

/-- What a call gives back over some tokens, of which the first end marker stands at `f`, with the
cursor at `i`, and where it leaves the cursor. -/
inductive Lawful (source : String) (ts : List Token) (f i : Nat) : Call → Answer → Nat → Prop
  | peek {t : Token} : ts[i]? = some t → Lawful source ts f i .peek (.token t) i
  | previous {t : Token} : ts[i - 1]? = some t → Lawful source ts f i .previous (.token t) i
  | advance {t : Token} : i < f → ts[i]? = some t →
      Lawful source ts f i .advance (.token t) (i + 1)
  | stay {t : Token} : i = f → ts[i]? = some t → Lawful source ts f i .advance (.token t) i
  | next {t : Token} : i < f → ts[i]? = some t → Lawful source ts f i .next (.item (some t)) (i + 1)
  | ended : i = f → Lawful source ts f i .next (.item none) i
  | check {t : Token} (m : Matcher) : ts[i]? = some t →
      Lawful source ts f i (.check m) (.verdict (decide (i < f) && m.accepts t)) i
  | accepts {t : Token} {ms : List Matcher} : i < f → ts[i]? = some t →
      (∃ m ∈ ms, m.accepts t = true) → Lawful source ts f i (.tryMatch ms) (.verdict true) (i + 1)
  | rejects {t : Token} {ms : List Matcher} : ts[i]? = some t →
      i = f ∨ (∀ m ∈ ms, m.accepts t = false) →
      Lawful source ts f i (.tryMatch ms) (.verdict false) i
  | consumes {t : Token} {m : Matcher} (context : String) : i < f → ts[i]? = some t →
      m.accepts t = true → Lawful source ts f i (.consume m context) (.consumed (.ok t)) (i + 1)
  | refuses {t : Token} {m : Matcher} (context : String) : ts[i]? = some t →
      i = f ∨ m.accepts t = false →
      Lawful source ts f i (.consume m context) (.consumed (.error (faultAt source context t))) i
  | fault {t : Token} (context : String) : ts[i]? = some t →
      Lawful source ts f i (.fault context) (.fault (faultAt source context t)) i

/-- A call moves the cursor forward or not at all, and at the first end marker not at all. -/
theorem Lawful.cursor_le {source : String} {ts : List Token} {f i j : Nat} {c : Call} {a : Answer}
    (h : Lawful source ts f i c a j) (hi : i ≤ f) : i ≤ j ∧ j ≤ f := by
  cases h with
  | peek | previous | stay | ended | check | rejects | refuses | fault => exact ⟨Nat.le_refl i, hi⟩
  | advance hlt | next hlt | accepts hlt | consumes _ hlt => exact ⟨Nat.le_succ i, hlt⟩

/-! ## The first end marker -/

/-- The index of the first end marker. -/
def firstMarker (s : Stream) : Nat := s.tokens.findIdx (·.kind == .endMarker)

variable {s s' : Stream}

theorem length_tokens (s : Stream) : s.tokens.length = s.front.size + 1 := by simp [tokens]

theorem firstMarker_le (s : Stream) : s.firstMarker ≤ s.front.size := by
  have hlast : s.last ∈ s.tokens := by simp [tokens]
  have hlt := List.findIdx_lt_length_of_exists (p := (·.kind == .endMarker))
    ⟨s.last, hlast, beq_iff_eq.mpr s.last_kind⟩
  rw [length_tokens] at hlt
  exact Nat.lt_succ_iff.mp hlt

theorem getElem?_tokenAt {i : Nat} (h : i ≤ s.front.size) :
    s.tokens[i]? = some (s.tokenAt i) := by
  rcases Nat.lt_or_eq_of_le h with hlt | rfl
  · exact getElem?_tokens hlt
  · simp [tokens, tokenAt]

/-- The first end marker is one. -/
theorem kind_firstMarker (s : Stream) : (s.tokenAt s.firstMarker).kind = .endMarker := by
  have hlt : s.firstMarker < s.tokens.length := by
    rw [length_tokens]
    exact Nat.lt_succ_of_le s.firstMarker_le
  have hmarker := List.findIdx_getElem (w := hlt)
  have hat := getElem?_tokenAt s.firstMarker_le
  rw [List.getElem?_eq_getElem hlt] at hat
  rw [← Option.some.inj hat]
  exact beq_iff_eq.mp hmarker

/-- No token before the first end marker is one. -/
theorem kind_of_lt_firstMarker {i : Nat} (h : i < s.firstMarker) :
    (s.tokenAt i).kind ≠ .endMarker := by
  have hle := s.firstMarker_le
  have hlt : i < s.tokens.length := by
    rw [length_tokens]
    omega
  have hnot := List.not_of_lt_findIdx h
  have hat := getElem?_tokenAt (s := s) (i := i) (by omega)
  rw [List.getElem?_eq_getElem hlt] at hat
  rw [← Option.some.inj hat]
  simpa using hnot

/-- The tokens are at their end exactly at the first end marker. -/
theorem atEnd_eq (h : s.cursor ≤ s.firstMarker) : s.atEnd = decide (s.cursor = s.firstMarker) := by
  unfold atEnd peek
  rcases Nat.lt_or_eq_of_le h with hlt | heq
  · simp [kind_of_lt_firstMarker hlt, Nat.ne_of_lt hlt]
  · simp [heq, kind_firstMarker]

/-! ## Steps -/

theorem skip_of_lt (h : s.cursor < s.firstMarker) :
    s.skip = { s with cursor := s.cursor + 1 } := by
  simp [skip, atEnd_eq (Nat.le_of_lt h), Nat.ne_of_lt h]

theorem skip_of_eq (h : s.cursor = s.firstMarker) : s.skip = s := by
  simp [skip, atEnd_eq (Nat.le_of_eq h), h]

theorem next_of_lt (h : s.cursor < s.firstMarker) :
    s.next = (some s.peek, { s with cursor := s.cursor + 1 }) := by
  simp [next, skip_of_lt h, atEnd_eq (Nat.le_of_lt h), Nat.ne_of_lt h]

theorem next_of_eq (h : s.cursor = s.firstMarker) : s.next = (none, s) := by
  simp [next, atEnd_eq (Nat.le_of_eq h), h]

theorem check_eq (h : s.cursor ≤ s.firstMarker) (m : Matcher) :
    s.check m = (decide (s.cursor < s.firstMarker) && m.accepts s.peek) := by
  have hnot : (!s.atEnd) = decide (s.cursor < s.firstMarker) := by
    rw [atEnd_eq h, ← decide_not]
    exact decide_eq_decide.mpr (by omega)
  rw [check, hnot]

/-- A matcher does not want the token under the cursor: it stands at the end or is another one. -/
theorem check_eq_false (h : s.cursor ≤ s.firstMarker) (m : Matcher) :
    s.check m = false ↔ s.cursor = s.firstMarker ∨ m.accepts s.peek = false := by
  rw [check_eq h, Bool.and_eq_false_iff, decide_eq_false_iff_not]
  exact or_congr_left (by omega)

theorem check_eq_true (h : s.cursor ≤ s.firstMarker) (m : Matcher) :
    s.check m = true ↔ s.cursor < s.firstMarker ∧ m.accepts s.peek = true := by
  rw [check_eq h, Bool.and_eq_true, decide_eq_true_eq]

/-- A call answers lawfully. -/
theorem call_lawful (h : s.cursor ≤ s.firstMarker) (c : Call) :
    Lawful s.source s.tokens s.firstMarker s.cursor c (s.call c).1 (s.call c).2.cursor := by
  have hle := s.firstMarker_le
  have hpeek : s.tokens[s.cursor]? = some s.peek := getElem?_tokenAt (by omega)
  cases c with
  | peek => exact .peek hpeek
  | previous => exact .previous (getElem?_tokenAt (by omega))
  | fault context => exact .fault context hpeek
  | advance =>
    simp only [call, Stream.advance]
    rcases Nat.lt_or_eq_of_le h with hlt | heq
    · rw [skip_of_lt hlt]
      exact .advance hlt hpeek
    · rw [skip_of_eq heq]
      exact .stay heq hpeek
  | next =>
    simp only [call]
    rcases Nat.lt_or_eq_of_le h with hlt | heq
    · rw [next_of_lt hlt]
      exact .next hlt hpeek
    · rw [next_of_eq heq]
      exact .ended heq
  | check m =>
    simp only [call, check_eq h]
    exact .check m hpeek
  | tryMatch ms =>
    simp only [call, tryMatch]
    by_cases hany : ms.any s.check = true
    · obtain ⟨m, hm, hcheck⟩ := List.any_eq_true.mp hany
      obtain ⟨hlt, haccepts⟩ := (check_eq_true h m).mp hcheck
      rw [if_pos hany, skip_of_lt hlt]
      exact .accepts hlt hpeek ⟨m, hm, haccepts⟩
    · rw [if_neg hany]
      refine .rejects hpeek ?_
      simp only [Bool.not_eq_true, List.any_eq_false, check_eq_false h] at hany
      exact or_iff_not_imp_left.mpr fun hlt m hm => (hany m hm).resolve_left hlt
  | consume m context =>
    simp only [call, consume]
    by_cases hcheck : s.check m = true
    · obtain ⟨hlt, haccepts⟩ := (check_eq_true h m).mp hcheck
      rw [if_pos hcheck, skip_of_lt hlt]
      exact .consumes context hlt hpeek haccepts
    · rw [if_neg hcheck]
      rw [Bool.not_eq_true, check_eq_false h] at hcheck
      exact .refuses context hpeek hcheck

theorem skip_eq_cursor (s : Stream) : s.skip = { s with cursor := s.skip.cursor } := by
  unfold skip
  split <;> rfl

/-- A call changes nothing but the cursor. -/
theorem call_eq_cursor (s : Stream) (c : Call) :
    (s.call c).2 = { s with cursor := (s.call c).2.cursor } := by
  cases c with
  | peek | previous | check | fault => rfl
  | advance => exact s.skip_eq_cursor
  | next =>
    simp only [call, next]
    split
    · rfl
    · exact s.skip_eq_cursor
  | tryMatch ms =>
    simp only [call, tryMatch]
    split
    · exact s.skip_eq_cursor
    · rfl
  | consume m context =>
    simp only [call, consume]
    split
    · exact s.skip_eq_cursor
    · rfl

/-! ## Runs -/

/-- Calls in a row change nothing but the cursor, and take it forward, up to the first end marker at
most. -/
theorem after_eq (h : s.cursor ≤ s.firstMarker) (calls : List Call) :
    ∃ i, s.after calls = { s with cursor := i } ∧ s.cursor ≤ i ∧ i ≤ s.firstMarker := by
  induction calls generalizing s with
  | nil => exact ⟨s.cursor, rfl, Nat.le_refl _, h⟩
  | cons c calls ih =>
    obtain ⟨hforward, hbound⟩ := (call_lawful h c).cursor_le h
    -- The first end marker behind the call is that of the same tokens.
    obtain ⟨i, hrest, hlater, hlast⟩ := ih (s := { s with cursor := (s.call c).2.cursor }) hbound
    refine ⟨i, ?_, Nat.le_trans hforward hlater, hlast⟩
    rw [← call_eq_cursor] at hrest
    rw [← List.singleton_append, after_append]
    exact hrest.trans (by rw [call_eq_cursor])

/-! ## Draining -/

/-- The tokens that a stream gives, one call for the next after the other, until it gives none. -/
inductive Drains : Stream → List Token → Stream → Prop
  | done {s s' : Stream} : s.next = (none, s') → Drains s [] s'
  | step {s s₁ s' : Stream} {t : Token} {ts : List Token} : s.next = (some t, s₁) →
      Drains s₁ ts s' → Drains s (t :: ts) s'

theorem Drains.unique {ts us : List Token} {a b : Stream} (h : Drains s ts a)
    (h' : Drains s us b) : us = ts ∧ b = a := by
  induction h generalizing us b with
  | done hnext =>
    cases h' with
    | done hnext' => rw [hnext] at hnext'; cases hnext'; exact ⟨rfl, rfl⟩
    | step hnext' => rw [hnext] at hnext'; cases hnext'
  | step hnext _ ih =>
    cases h' with
    | done hnext' => rw [hnext] at hnext'; cases hnext'
    | step hnext' hrest =>
      rw [hnext] at hnext'
      cases hnext'
      obtain ⟨rfl, rfl⟩ := ih hrest
      exact ⟨rfl, rfl⟩

/-- A stream gives the tokens from the cursor up to the first end marker. -/
theorem drains_firstMarker (h : s.cursor ≤ s.firstMarker) :
    Drains s ((s.tokens.take s.firstMarker).drop s.cursor)
      { s with cursor := s.firstMarker } := by
  generalize hn : s.firstMarker - s.cursor = n
  induction n generalizing s with
  | zero =>
    have heq : s.cursor = s.firstMarker := by omega
    have hnone : (s.tokens.take s.firstMarker).drop s.cursor = [] := by
      rw [List.drop_eq_nil_iff, List.length_take]
      omega
    rw [hnone, ← heq]
    exact .done (next_of_eq heq)
  | succ n ih =>
    have hlt : s.cursor < s.firstMarker := by omega
    have hle := s.firstMarker_le
    have hpeek : (s.tokens.take s.firstMarker)[s.cursor]? = some s.peek := by
      rw [List.getElem?_take_of_lt hlt]
      exact getElem?_tokenAt (by omega)
    rw [List.drop_eq_getElem?_toList_append, hpeek]
    exact .step (next_of_lt hlt) (ih (s := { s with cursor := s.cursor + 1 }) hlt (by
      change s.firstMarker - (s.cursor + 1) = n
      omega))

theorem drains_iff (h : s.cursor ≤ s.firstMarker) {ts : List Token} :
    Drains s ts s' ↔ ts = (s.tokens.take s.firstMarker).drop s.cursor ∧
      s' = { s with cursor := s.firstMarker } := by
  constructor
  · exact (drains_firstMarker h).unique
  · rintro ⟨rfl, rfl⟩
    exact drains_firstMarker h

/-- Draining stops at the first end marker behind the cursor, which is the first of all. -/
theorem drain_eq (h : s.cursor ≤ s.firstMarker) :
    s.drain = ((s.tokens.take s.firstMarker).drop s.cursor,
      { s with cursor := s.firstMarker }) := by
  have hle := s.firstMarker_le
  have hlength : (s.tokens.take s.firstMarker).length = s.firstMarker := by
    rw [List.length_take, length_tokens]
    omega
  have hsplit : s.tokens.drop s.cursor =
      (s.tokens.take s.firstMarker).drop s.cursor ++ s.tokens.drop s.firstMarker := by
    rw [← List.drop_append_of_le_length (by omega), List.take_append_drop]
  have hplain : ∀ t ∈ (s.tokens.take s.firstMarker).drop s.cursor,
      (t.kind != .endMarker) = true := by
    intro t ht
    obtain ⟨i, hi, rfl⟩ := List.mem_take_iff_getElem.mp (List.mem_of_mem_drop ht)
    have hnot := List.not_of_lt_findIdx (Nat.lt_of_lt_of_le hi (Nat.min_le_left _ _))
    simpa using hnot
  have hstop : (s.tokens.drop s.firstMarker).takeWhile (·.kind != .endMarker) = [] := by
    rw [List.drop_eq_getElem?_toList_append, getElem?_tokenAt hle]
    simp [kind_firstMarker]
  have hrest : (s.tokens.drop s.cursor).takeWhile (·.kind != .endMarker) =
      (s.tokens.take s.firstMarker).drop s.cursor := by
    rw [hsplit, List.takeWhile_append_of_pos hplain, hstop, List.append_nil]
  unfold drain
  simp only [hrest, List.length_drop, hlength, Nat.add_sub_cancel' h]

/-! ## The tokens of a stream -/

/-- Tokens with an end marker behind the last of them, unless it is one. -/
def completed (kept : List Token) : List Token :=
  if kept.getLast?.any (·.kind == .endMarker) then kept else kept ++ [endAfter kept.getLast?]

theorem ofTokens_tokens (tokens : List Token) (source text : String) :
    (ofTokens tokens source text).tokens = completed (tokens.filter (!·.kind.isTrivia)) := by
  unfold ofTokens completed
  generalize tokens.filter (!·.kind.isTrivia) = kept
  dsimp only
  split
  · next hnone =>
    rw [List.getLast?_eq_none_iff] at hnone
    subst hnone
    rfl
  · next t hlast =>
    obtain ⟨front, rfl⟩ := List.getLast?_eq_some_iff.mp hlast
    by_cases hkind : t.kind = .endMarker
    · simp [hkind, Stream.tokens]
    · simp [hkind, Stream.tokens]

theorem ofTokens_start (tokens : List Token) (source text : String) :
    (ofTokens tokens source text).cursor = 0 ∧ (ofTokens tokens source text).source = source := by
  unfold ofTokens
  dsimp only
  split
  · exact ⟨rfl, rfl⟩
  · split <;> exact ⟨rfl, rfl⟩

theorem tokenAt_mem (s : Stream) (i : Nat) : s.tokenAt i ∈ s.tokens := by
  by_cases h : i < s.front.size
  · simp [tokenAt, tokens, h]
  · simp [tokenAt, tokens, Array.getElem?_eq_none (Nat.not_lt.mp h)]

theorem source_of_ofSource {name text : String} (h : ofSource name text = .ok s) :
    s.source = name := by
  cases htokens : tokenize name text with
  | error fault => simp [ofSource, htokens, Except.map] at h
  | ok tokens =>
    have hstream : ofTokens tokens name text = s := by simpa [ofSource, htokens, Except.map] using h
    rw [← hstream]
    exact (ofTokens_start tokens name text).2

/-- Wherever the cursor stands, the stream of a source is at a token of the source. -/
theorem tokenAt_of_ofSource {name text : String} (h : ofSource name text = .ok s) :
    ∃ tokens, tokenize name text = .ok tokens ∧ ∀ i, s.tokenAt i ∈ tokens := by
  obtain ⟨tokens, htokens, hkept, -⟩ := tokens_of_ofSource h
  refine ⟨tokens, htokens, fun i => ?_⟩
  have hmem := s.tokenAt_mem i
  rw [hkept] at hmem
  exact (List.mem_filter.mp hmem).1

/-! ## The law -/

/-- What holds of a stream, whatever is called on it. -/
structure Disciplined (s : Stream) (f : Nat) : Prop where
  /-- The tokens are never none, and the last one is an end marker. -/
  ends : ∃ front last, s.tokens = front ++ [last] ∧ last.kind = .endMarker
  /-- The first end marker stands at `f`. -/
  marker : ∃ t, s.tokens[f]? = some t ∧ t.kind = .endMarker
  first : ∀ i t, i < f → s.tokens[i]? = some t → t.kind ≠ .endMarker
  /-- Calls change nothing but the cursor, which never moves back and never passes `f`. -/
  fixed : ∀ calls, s.after calls = { s with cursor := (s.after calls).cursor }
  forward : ∀ calls more, (s.after calls).cursor ≤ (s.after (calls ++ more)).cursor
  bounded : ∀ calls, (s.after calls).cursor ≤ f
  /-- Behind any calls, the next one answers lawfully. -/
  lawful : ∀ calls c, Lawful s.source s.tokens f (s.after calls).cursor c
    ((s.after calls).call c).1 (s.after (calls ++ [c])).cursor
  /-- Behind any calls, the tokens from the cursor up to `f` are left, and no others. -/
  drains : ∀ calls ts s', Drains (s.after calls) ts s' ↔
    ts = (s.tokens.take f).drop (s.after calls).cursor ∧ s' = { s with cursor := f }
  drain : ∀ calls, Drains (s.after calls) (s.after calls).drain.1 (s.after calls).drain.2

theorem disciplined (h : s.cursor ≤ s.firstMarker) : Disciplined s s.firstMarker := by
  have hle := s.firstMarker_le
  refine ⟨⟨s.front.toList, s.last, rfl, s.last_kind⟩, ⟨_, getElem?_tokenAt hle, kind_firstMarker s⟩,
    ?_, fun calls => ?_, fun calls more => ?_, fun calls => ?_, fun calls c => ?_,
    fun calls ts s' => ?_, fun calls => ?_⟩
  · intro i t hi ht
    rw [getElem?_tokenAt (by omega)] at ht
    cases ht
    exact kind_of_lt_firstMarker hi
  -- Behind any calls stands the same stream with another cursor.
  all_goals obtain ⟨i, hafter, -, hbound⟩ := after_eq h calls
  · rw [hafter]
  · rw [after_append, hafter]
    obtain ⟨j, hmore, hforward, -⟩ := after_eq (s := { s with cursor := i }) hbound more
    rw [hmore]
    exact hforward
  · rw [hafter]
    exact hbound
  · rw [after_append, hafter]
    exact call_lawful (s := { s with cursor := i }) hbound c
  · rw [hafter]
    exact drains_iff (s := { s with cursor := i }) hbound
  · rw [hafter, drain_eq (s := { s with cursor := i }) hbound]
    exact drains_firstMarker (s := { s with cursor := i }) hbound

/-- A stream over any tokens holds those that are no trivia, up to an end marker, and whatever is
called on it, in whatever order, keeps to them. -/
theorem the_cursor_is_disciplined_whatever_is_called (tokens : List Token) (source text : String) :
    (ofTokens tokens source text).tokens = completed (tokens.filter (!·.kind.isTrivia)) ∧
      (ofTokens tokens source text).source = source ∧
      (ofTokens tokens source text).cursor = 0 ∧
      Disciplined (ofTokens tokens source text)
        ((completed (tokens.filter (!·.kind.isTrivia))).findIdx (·.kind == .endMarker)) := by
  have htokens := ofTokens_tokens tokens source text
  obtain ⟨hcursor, hsource⟩ := ofTokens_start tokens source text
  refine ⟨htokens, hsource, hcursor, ?_⟩
  rw [← htokens]
  exact disciplined (hcursor ▸ Nat.zero_le _)

end Stream

end SourceMacros
