-- The indentation of invocations. The host loop keeps the indentation of the open blocks by adding
-- what a block adds and cutting off what its end carries. Where the parsers of macros take whole
-- blocks, it is at each invocation the indentation of the blocks that are open there, and that is
-- what stands before the lines of the text that is spliced in.
import SourceMacros.Proofs.OpenBlocks
import SourceMacros.Proofs.PassLaws
import SourceMacros.Proofs.Splicing

namespace SourceMacros

/-! ## The host loop -/

@[simp]
theorem Pass.indentation_copyThrough {μ : Type} (p : Pass μ) (line : Nat) :
    (p.copyThrough line).indentation = p.indentation := by
  unfold Pass.copyThrough
  split <;> rfl

namespace PassRun

variable {μ : Type} {resolve : String → Run μ (Definition μ)} {s s' : PassState μ}

/-- The state behind the token under the cursor. -/
def ahead (s : PassState μ) : PassState μ := { s with stream := s.stream.skip }

/-- The macro that the token under the cursor invokes. -/
def invoked? (s : PassState μ) : Option (Definition μ) :=
  if s.session.interrupted then none
  else if s.stream.peek.kind = .name ∧
      s.stream.peek.text ≠ s.session.settings.importKeyword then
    s.pass.trigger? s.stream.peek.text
  else none

/-- The tokens that were taken behind the one under the cursor. -/
def taken (s s' : PassState μ) : List Token :=
  s.stream.between (s.stream.cursor + 1) s'.stream.cursor

/-- In a pass from this state the parser of each macro that is invoked takes whole blocks. -/
def TakesBlocks (resolve : String → Run μ (Definition μ)) (s : PassState μ) : Prop :=
  ∀ n a definition text b, steps resolve n s = .ok () a → invoked? a = some definition →
    onStream definition.plugin.expand (ahead a) = .ok text b → blockNesting.Paired (taken a b)

/-- What a step does to the cursor and to the indentation. -/
inductive Shifts (s s' : PassState μ) : Prop
  | opens : s.stream.peek.kind = .indent → s'.stream.cursor = s.stream.cursor + 1 →
      s'.pass.indentation = s.pass.indentation ++ s.stream.peek.text.toList → Shifts s s'
  | closes : s.stream.peek.kind = .dedent → s'.stream.cursor = s.stream.cursor + 1 →
      s'.pass.indentation = s.pass.indentation.take
        (s.pass.indentation.length - s.stream.peek.text.length) → Shifts s s'
  /-- A token that marks no block, and the nested tokens that it takes. -/
  | takes : blockNesting.Plain s.stream.peek → s.stream.cursor < s'.stream.cursor →
      blockNesting.Paired (taken s s') → s'.pass.indentation = s.pass.indentation → Shifts s s'

theorem importDirective_shifts {keyword : Token} {start : Nat}
    (h : importDirective resolve keyword start s = .ok () s') :
    s.stream.Passes s'.stream ∧ s'.pass.indentation = s.pass.indentation := by
  unfold importDirective at h
  obtain ⟨_, _, h0, h⟩ := bind_eq_ok.mp h
  cases h0
  obtain ⟨directive, s₁, h1, h⟩ := bind_eq_ok.mp h
  obtain ⟨definition, s₂, h2, h⟩ := bind_eq_ok.mp h
  obtain ⟨hs₂, hp₂⟩ := onSession_eq_ok h2
  obtain ⟨_, _, hp₁⟩ := onStream_eq_ok h1
  cases h
  refine ⟨?_, by simp [Pass.skipThrough, Pass.insert, hp₂, hp₁]⟩
  unfold onStream at h1
  dsimp only at h1
  split at h1
  · next p hparse =>
    cases h1
    have hpasses := directive_passes hparse
    dsimp only at hpasses hs₂ ⊢
    rw [hs₂, Nat.max_eq_right hpasses.forward, ← hpasses.stream]
    exact hpasses
  · cases h1

theorem invocation_shifts {definition : Definition μ} {keyword : Token} {start : Nat}
    (h : invocation definition keyword start s = .ok () s') :
    (∃ text s₁, onStream definition.plugin.expand s = .ok text s₁ ∧
      s'.stream = s₁.stream) ∧ s'.pass.indentation = s.pass.indentation := by
  obtain ⟨text, s₁, hexpand, hstream, -⟩ := invocation_eq_ok h
  refine ⟨⟨text, s₁, hexpand, hstream⟩, ?_⟩
  unfold invocation at h
  obtain ⟨_, _, h0, h⟩ := bind_eq_ok.mp h
  cases h0
  obtain ⟨_, _, h1, h⟩ := bind_eq_ok.mp h
  obtain ⟨_, _, hp₁⟩ := onStream_eq_ok h1
  cases h
  simp [Pass.skipThrough, Pass.insert, hp₁]

theorem plain_shifts (hend : s.stream.atEnd = false) (hi : s.stream.peek.kind ≠ .indent)
    (hd : s.stream.peek.kind ≠ .dedent)
    (h : plain s.stream.peek { s with stream := s.stream.skip } = .ok () s') : Shifts s s' := by
  have hplain : blockNesting.Plain s.stream.peek := fun _ => ⟨hi, hd⟩
  have hs' : s'.stream = s.stream.skip ∧ s'.pass.indentation = s.pass.indentation := by
    rcases plain_eq (μ := μ) s.stream.peek with heq | heq
    · rw [heq] at h
      cases h
      exact ⟨rfl, rfl⟩
    · rw [heq] at h
      cases h
      exact ⟨rfl, by simp⟩
  have hcursor : s'.stream.cursor = s.stream.cursor + 1 := by rw [hs'.1, skip_eq hend]
  refine .takes hplain (by omega) ?_ hs'.2
  rw [taken, hcursor, Stream.between_eq_take_drop, Nat.sub_self, List.take_zero]
  exact .nil

/-- A step that succeeds is one of the named ones, where the parsers of macros take whole blocks. -/
theorem step_shifts (hend : s.stream.atEnd = false) (hblocks : TakesBlocks resolve s)
    (h : step resolve s = .ok () s') : Shifts s s' := by
  unfold step at h
  obtain ⟨_, _, h0, h⟩ := bind_eq_ok.mp h
  cases h0
  split at h
  · simp [bind, EStateM.bind] at h
  next hinterrupted =>
  obtain ⟨_, _, h0, h⟩ := bind_eq_ok.mp h
  cases h0
  have hcursor : s.stream.skip.cursor = s.stream.cursor + 1 := by rw [skip_eq hend]
  have htokens : ∀ first last, s.stream.skip.between first last = s.stream.between first last := by
    rw [skip_eq hend]
    exact fun _ _ => rfl
  cases hk : s.stream.peek.kind with
  | indent =>
    simp only [hk] at h
    cases h
    exact .opens hk hcursor rfl
  | dedent =>
    simp only [hk] at h
    cases h
    exact .closes hk hcursor rfl
  | endMarker => simp [Stream.atEnd, hk] at hend
  | number | string | operator | comment | blankBreak | newline =>
    simp only [hk] at h
    exact plain_shifts hend (by simp [hk]) (by simp [hk]) h
  | name =>
    simp only [hk] at h
    have hplain : blockNesting.Plain s.stream.peek := by simp [Pairing.Plain, blockNesting, hk]
    split at h
    · obtain ⟨hpasses, hindent⟩ := importDirective_shifts h
      have hforward := hpasses.forward
      have hpaired := paired_of_plain hpasses.plain
      dsimp only at hforward hpaired
      rw [hcursor] at hforward
      rw [hcursor, htokens] at hpaired
      exact .takes hplain (by omega) hpaired hindent
    · next himport =>
      cases htrigger : s.pass.trigger? s.stream.peek.text with
      | none =>
        simp only [htrigger] at h
        exact plain_shifts hend (by simp [hk]) (by simp [hk]) h
      | some definition =>
        simp only [htrigger] at h
        obtain ⟨⟨text, s₁, hexpand, hstream⟩, hindent⟩ := invocation_shifts h
        have hinvoked : invoked? s = some definition := by
          simp [invoked?, hinterrupted, hk, himport, htrigger]
        have hpaired := hblocks 0 s definition text s₁ rfl hinvoked hexpand
        have hforward := (onStream_eq_ok hexpand).2.1
        dsimp only at hforward
        rw [hcursor] at hforward
        refine .takes hplain (by rw [hstream]; omega) ?_ hindent
        rw [taken, hstream]
        exact hpaired

/-- The indentation of the pass is that of the open blocks, which the rest of the tokens close. -/
structure Indented (s : PassState μ) : Prop where
  indentation : s.pass.indentation =
    (openBlocks (s.stream.tokens.take s.stream.cursor)).flatMap (·.text.toList)
  blocks : blockPairing.Closes
    ((openBlocks (s.stream.tokens.take s.stream.cursor)).map Token.text).reverse
    (s.stream.tokens.drop s.stream.cursor)

theorem openBlocks_append (ts us : List Token) :
    openBlocks (ts ++ us) = us.foldl track (openBlocks ts) := List.foldl_append

theorem Shifts.indented (h : Shifts s s') (hs : Indented s) (hend : s.stream.atEnd = false)
    (hstream : s'.stream = { s.stream with cursor := s'.stream.cursor }) : Indented s' := by
  have htokens : s'.stream.tokens = s.stream.tokens := by rw [hstream]; rfl
  obtain ⟨hindentation, hblocks⟩ := hs
  rw [Stream.drop_cursor hend] at hblocks
  generalize hopened : openBlocks (s.stream.tokens.take s.stream.cursor) = opened
    at hindentation hblocks
  -- Behind the token under the cursor the blocks are those that the token leaves open.
  have hnext : openBlocks (s.stream.tokens.take (s.stream.cursor + 1)) =
      track opened s.stream.peek := by
    rw [Stream.take_cursor hend, openBlocks_append, hopened]
    rfl
  cases h with
  | opens hk hcursor hindent =>
    have htrack : track opened s.stream.peek = opened ++ [s.stream.peek] := by simp [track, hk]
    have hcloses := closes_of_indent hk hblocks
    constructor
    · rw [htokens, hcursor, hnext, htrack, hindent, hindentation]
      simp
    · rw [htokens, hcursor, hnext, htrack]
      simpa using hcloses
  | closes hk hcursor hindent =>
    obtain ⟨outer, hstack, hcloses⟩ := closes_of_dedent hk hblocks
    have htexts : opened.map Token.text = outer.reverse ++ [s.stream.peek.text] := by
      rw [← List.reverse_inj, hstack]
      simp
    have htrack : track opened s.stream.peek = opened.dropLast := by simp [track, hk]
    have hdropped : opened.dropLast.map Token.text = outer.reverse := by
      rw [List.map_dropLast, htexts, List.dropLast_concat]
    have hjoined : ∀ ts : List Token,
        ts.flatMap (·.text.toList) = (ts.map Token.text).flatMap String.toList := by
      intro ts
      rw [List.flatMap_map]
    constructor
    · rw [htokens, hcursor, hnext, htrack, hindent, hindentation, hjoined, hjoined, hdropped,
        htexts, List.flatMap_append, List.flatMap_singleton, List.length_append,
        String.length_toList, Nat.add_sub_cancel, List.take_left]
    · rw [htokens, hcursor, hnext, htrack, hdropped, List.reverse_reverse]
      exact hcloses
  | takes hplain hforward hpaired hindent =>
    have hrest := hblocks.of_plain (blocks_plain (hplain ()).1 (hplain ()).2)
    rw [← s.stream.between_append_drop hforward] at hrest
    have hcloses := closes_of_nested hpaired hrest
    have hsame : openBlocks (s.stream.tokens.take s'.stream.cursor) = opened := by
      rw [← s.stream.take_append_between hforward, openBlocks_append, hnext, track_plain hplain]
      exact foldl_track_nested hpaired opened
    constructor
    · rw [htokens, hsame, hindent, hindentation]
    · rw [htokens, hsame]
      exact hcloses

/-- Every state that the host loop reaches is indented. -/
theorem steps_indented (n : Nat) (hs : Indented s) (hblocks : TakesBlocks resolve s)
    (h : steps resolve n s = .ok () s') :
    Indented s' ∧ s'.stream = { s.stream with cursor := s'.stream.cursor } := by
  induction n generalizing s with
  | zero =>
    cases h
    exact ⟨hs, rfl⟩
  | succ n ih =>
    have hopen := h
    unfold steps at hopen
    obtain ⟨_, _, h0, hopen⟩ := bind_eq_ok.mp hopen
    cases h0
    by_cases hend : s.stream.atEnd = true
    · rw [if_pos hend] at hopen
      cases hopen
      exact ⟨hs, rfl⟩
    · rw [if_neg hend] at hopen
      rw [Bool.not_eq_true] at hend
      obtain ⟨_, s₁, hstep, hlater⟩ := bind_eq_ok.mp hopen
      have hstream := (step_advances hend hstep).stream
      have hlaterBlocks : TakesBlocks resolve s₁ := by
        intro m a definition text b hm
        apply hblocks (m + 1) a definition text b
        unfold steps
        rw [bind_of_ok (get_apply s), if_neg (by simp [hend]), bind_of_ok hstep]
        exact hm
      have hs₁ := (step_shifts hend hblocks hstep).indented hs hend hstream
      obtain ⟨hs', hstream'⟩ := ih hs₁ hlaterBlocks hlater
      refine ⟨hs', ?_⟩
      rw [hstream', hstream]

/-! ## Invocations -/

theorem invoked?_eq_some {definition : Definition μ} (h : invoked? s = some definition) :
    s.session.interrupted = false ∧ s.stream.peek.kind = .name ∧
      s.stream.peek.text ≠ s.session.settings.importKeyword ∧
      s.pass.trigger? s.stream.peek.text = some definition := by
  unfold invoked? at h
  split at h
  · cases h
  · next hinterrupted =>
    split at h
    · next hname => exact ⟨by simpa using hinterrupted, hname.1, hname.2, h⟩
    · cases h

/-- An invocation whose plugin gives a text splices it in, behind the lines before it. -/
theorem step_of_invoked {definition : Definition μ} {text : String} {b : PassState μ}
    (h : invoked? s = some definition)
    (hexpand : onStream definition.plugin.expand (ahead s) = .ok text b) :
    ∃ s', step resolve s = .ok () s' ∧ s'.stream = b.stream ∧
      s'.pass.chunks = .inserted (spliced s.pass.indentation text) ::
        (s.pass.copyThrough (s.stream.peek.start.line - 1)).chunks := by
  obtain ⟨hgo, hkind, himport, htrigger⟩ := invoked?_eq_some h
  let copied := s.pass.copyThrough (s.stream.peek.start.line - 1)
  -- The parser runs on a pass that has copied the lines before the invocation.
  have hrun := onStream_with_pass (s := { ahead s with pass := copied })
    (p := s.pass) hexpand
  have hstep : step resolve s =
      invocation definition s.stream.peek s.stream.cursor (ahead s) := by
    unfold step
    rw [bind_of_ok (get_apply s)]
    simp only [hgo, Bool.false_eq_true, if_false, hkind, himport, htrigger]
    rfl
  let last := lastLine b.stream s.stream.cursor b.stream.cursor
  have hinvocation : invocation definition s.stream.peek s.stream.cursor (ahead s) = .ok ()
      { b with
        pass := (copied.insert (spliced copied.indentation text)).skipThrough last } := by
    unfold invocation
    rw [bind_of_ok (update_apply _ _)]
    exact bind_of_ok hrun
  refine ⟨_, hstep.trans hinvocation, rfl, ?_⟩
  simp [Pass.skipThrough, Pass.insert, copied]

/-- A pass over a source starts with no open block. -/
theorem start_indented {name text : String} {stream : Stream}
    (h : Stream.ofSource name text = .ok stream) (session : Session μ) :
    Indented { session, stream, pass := {} } := by
  obtain ⟨tokens, htokens, htail, hcursor⟩ := Stream.tokens_of_ofSource h
  have hblocks := (tokenize_precedes htokens).blocks
  rw [← htail] at hblocks
  constructor
  · simp [hcursor, openBlocks]
  · simpa [hcursor, openBlocks, Layout.added] using hblocks

/-! ## Checking a pass -/

/-- Reads on with so many blocks open, and finds none open in the end. -/
def nests : Nat → List Token → Bool
  | opened, [] => opened == 0
  | opened, t :: ts =>
    match t.kind with
    | .indent => nests (opened + 1) ts
    | .dedent => opened != 0 && nests (opened - 1) ts
    | _ => nests opened ts

theorem closes_of_nests {opened : Nat} {ts : List Token} (h : nests opened ts = true) :
    blockNesting.Closes (List.replicate opened ()) ts := by
  fun_induction nests opened ts with
  | case1 opened =>
    rw [beq_iff_eq] at h
    subst h
    exact .done
  | case2 opened t ts hk ih => exact .opens hk (ih h)
  | case3 opened t ts hk ih =>
    rw [Bool.and_eq_true, bne_iff_ne] at h
    cases opened with
    | zero => exact absurd rfl h.1
    | succ opened => exact .closes hk (ih h.2)
  | case4 opened t ts hi hd ih => exact .plain (fun _ => ⟨hi, hd⟩) (ih h)

/-- The steps up to the end of the stream, where the parser of each macro takes whole blocks. -/
def checksBlocks (resolve : String → Run μ (Definition μ)) : Nat → PassState μ → Bool
  | 0, s => s.stream.atEnd
  | n + 1, s =>
    s.stream.atEnd ||
      ((invoked? s).all fun definition =>
        match onStream definition.plugin.expand (ahead s) with
        | .ok _ b => nests 0 (taken s b)
        | .error _ _ => true) &&
      match step resolve s with
      | .ok _ s' => checksBlocks resolve n s'
      | .error _ _ => true

theorem takesBlocks_of_checks (n : Nat) (h : checksBlocks resolve n s = true) :
    TakesBlocks resolve s := by
  have hend : ∀ s : PassState μ, s.stream.atEnd = true → TakesBlocks resolve s := by
    intro s hend m a definition text b hm hinvoked
    have hsame : a = s := by
      cases m with
      | zero => cases hm; rfl
      | succ m =>
        unfold steps at hm
        rw [bind_of_ok (get_apply s), if_pos hend] at hm
        cases hm
        rfl
    subst hsame
    simp [Stream.atEnd, (invoked?_eq_some hinvoked).2.1] at hend
  induction n generalizing s with
  | zero => exact hend s h
  | succ n ih =>
    rw [checksBlocks, Bool.or_eq_true, Bool.and_eq_true] at h
    rcases h with h | ⟨hhere, hlater⟩
    · exact hend s h
    intro m a definition text b hm hinvoked hexpand
    cases m with
    | zero =>
      cases hm
      rw [hinvoked, Option.all_some, hexpand] at hhere
      exact (closes_of_nests hhere).paired
    | succ m =>
      by_cases hstop : s.stream.atEnd = true
      · exact hend s hstop (m + 1) a definition text b hm hinvoked hexpand
      · unfold steps at hm
        rw [bind_of_ok (get_apply s), if_neg hstop] at hm
        obtain ⟨_, s₁, hstep, hm⟩ := bind_eq_ok.mp hm
        rw [hstep] at hlater
        exact ih hlater m a definition text b hm hinvoked hexpand

end PassRun

/-! ## The law -/

section

open PassRun

variable {μ : Type} {resolve : String → Run μ (Definition μ)}

/-- At every invocation that a pass over a source reaches, the indentation is that of the blocks
which are open there, and what the macro gives is spliced in behind it, line by line. The parsers
of macros must take whole blocks. -/
theorem invocations_are_indented_as_the_blocks_around_them {name text : String} {stream : Stream}
    (hstream : Stream.ofSource name text = .ok stream) {session : Session μ}
    (hblocks : TakesBlocks resolve { session, stream, pass := {} }) {n : Nat} {a : PassState μ}
    (hreached : steps resolve n { session, stream, pass := {} } = .ok () a)
    {definition : Definition μ} (hinvoked : invoked? a = some definition) :
    a.pass.indentation =
        (openBlocks (stream.tokens.take a.stream.cursor)).flatMap (·.text.toList) ∧
      ∀ translation b, onStream definition.plugin.expand (ahead a) = .ok translation b →
        ∃ a' block, step resolve a = .ok () a' ∧
          a'.pass.chunks = .inserted block ::
            (a.pass.copyThrough (a.stream.peek.start.line - 1)).chunks ∧
          Splices a.pass.indentation translation block := by
  obtain ⟨hindented, hsame⟩ := steps_indented n (start_indented hstream session) hblocks hreached
  have htokens : a.stream.tokens = stream.tokens := by rw [hsame]; rfl
  have hindentation := hindented.indentation
  rw [htokens] at hindentation
  refine ⟨hindentation, ?_⟩
  intro translation b hexpand
  obtain ⟨a', hstep, -, hchunks⟩ := step_of_invoked hinvoked hexpand
  refine ⟨a', _, hstep, hchunks, splices_spliced ?_ translation⟩
  intro hbreak
  rw [hindentation, List.mem_flatMap] at hbreak
  obtain ⟨t, ht, hc⟩ := hbreak
  obtain ⟨hmem, hkind⟩ := mem_openBlocks ht
  obtain ⟨tokens, hlexed, hkept, -⟩ := Stream.tokens_of_ofSource hstream
  have hin : t ∈ tokens := by
    have := List.mem_of_mem_take hmem
    rw [hkept] at this
    exact (List.mem_filter.mp this).1
  have hblank := tokenize_blank hlexed t hin hkind '\n' hc
  simp [Lexeme.isBlank] at hblank

/-- A macro that takes a block of one line, if there is a colon, and gives three lines. -/
def blockPlugin : Plugin Unit where
  kind := "block"
  parse := do
    if ← Parser.tryMatch [.operator ":"] then
      for _ in [0, 1, 2, 3, 4] do
        let _ ← Parser.advance
    return .unit
  translate := fun _ => "x:\n\n  y"

/-- A session in which the macro goes by the name of `m`. -/
def blockSession : Session Unit :=
  .start {} (Registry.standard.insert (.builtin "m") blockPlugin) ⟨[], []⟩ false ()

/-- Invocations in blocks of tabs and blanks, the first one with a block of its own. -/
def nestedText : String := "macro import m\nif a:\n\tif b:\n\t  m:\n\t   c\n\t  m\n\tm\n"

/-- The second of the invocations comes behind thirteen steps. -/
theorem the_second_invocation_is_indented :
    ∃ stream a definition, Stream.ofSource "t" nestedText = .ok stream ∧
      TakesBlocks SourceMacros.resolve { session := blockSession, stream, pass := {} } ∧
      steps SourceMacros.resolve 13 { session := blockSession, stream, pass := {} } = .ok () a ∧
      invoked? a = some definition ∧ a.pass.indentation = ['\t', ' ', ' '] ∧
      ∀ translation b, onStream definition.plugin.expand (ahead a) = .ok translation b →
        ∃ a' block, step SourceMacros.resolve a = .ok () a' ∧
          a'.pass.chunks = .inserted block ::
            (a.pass.copyThrough (a.stream.peek.start.line - 1)).chunks ∧
          Splices a.pass.indentation translation block := by
  have hcheck : (Stream.ofSource "t" nestedText).toOption.any (fun stream =>
      let start : PassState Unit := { session := blockSession, stream, pass := {} }
      checksBlocks SourceMacros.resolve 40 start &&
        match steps SourceMacros.resolve 13 start with
        | .ok _ a => (invoked? a).isSome && decide (a.pass.indentation = ['\t', ' ', ' '])
        | .error _ _ => false) = true := by
    decide +kernel
  obtain ⟨stream, hstream, hcheck⟩ := exists_ok_of_any hcheck
  rw [Bool.and_eq_true] at hcheck
  have hblocks := takesBlocks_of_checks 40 hcheck.1
  obtain ⟨-, hreach⟩ := hcheck
  split at hreach
  · next a hsteps =>
    rw [Bool.and_eq_true, decide_eq_true_iff, Option.isSome_iff_exists] at hreach
    obtain ⟨⟨definition, hinvoked⟩, hindentation⟩ := hreach
    exact ⟨stream, a, definition, hstream, hblocks, hsteps, hinvoked, hindentation,
      (invocations_are_indented_as_the_blocks_around_them hstream hblocks hsteps hinvoked).2⟩
  · cases hreach

end

end SourceMacros
