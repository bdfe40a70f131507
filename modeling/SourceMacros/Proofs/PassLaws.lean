-- The laws of a pass. An output is an interleaving of source lines with the texts of directives
-- and invocations; a text that imports nothing is its own expansion; and a line that holds code
-- outside every directive and invocation is kept exactly when that code is not cut off by one that
-- ends on the line.
import SourceMacros.Proofs.Parts
import SourceMacros.Resolution

namespace SourceMacros

open PassRun

variable {μ : Type}

/-! ## A successful pass -/

/-- The parts of the output of a pass over a stream. -/
def passParts (resolve : String → Run μ (Definition μ)) (session : Session μ) (stream : Stream) :
    List Part :=
  parts stream 0 (passTurns resolve session stream)

/-- What a pass over the whole stream of a text did. -/
structure PassedOver (resolve : String → Run μ (Definition μ)) (session : Session μ)
    (stream : Stream) (output : String) : Prop where
  walk : ∃ stop, stream.front.size ≤ stop ∧ Walk stream 0 (passTurns resolve session stream) stop
  ascends : Ascends stream 0 (passTurns resolve session stream)
  output : output = String.join ((passParts resolve session stream).map (Part.render stream.lines))

theorem atEnd_size {stream : Stream} (hm : ∀ t ∈ stream.front, t.kind ≠ .endMarker)
    (h : stream.atEnd = true) : stream.front.size ≤ stream.cursor := by
  rcases Nat.lt_or_ge stream.cursor stream.front.size with hlt | hge
  · have hpeek : stream.peek = stream.front[stream.cursor] := tokenAt_of_lt hlt
    have hkind := hm _ (Array.getElem_mem hlt)
    rw [← hpeek] at hkind
    simp [Stream.atEnd, hkind] at h
  · exact hge

theorem passedOver_of_ok {resolve : String → Run μ (Definition μ)} {session : Session μ}
    {stream : Stream} {tokens : List Token} {text output : String} {pass : Pass μ}
    {s' : PassState μ} (hl : Stream.Lexed tokens text stream)
    (h : expandStream resolve { session, stream, pass } = .ok output s') :
    PassedOver resolve session stream output := by
  obtain ⟨s₁, hsteps, rfl, -⟩ := expandStream_eq_ok h
  obtain ⟨hw, hdone⟩ := steps_walked resolve _ hsteps
  have hs₁ : s₁.stream = { stream with cursor := s₁.stream.cursor } := hw.stream
  have hwalk : Walk stream 0 (passTurns resolve session stream) s₁.stream.cursor := by
    have hfrom : Walk stream stream.cursor (passTurns resolve session stream) s₁.stream.cursor :=
      hw.walk
    have hstart := hl.cursor
    generalize passTurns resolve session stream = ts at hfrom ⊢
    rw [hstart] at hfrom
    exact hfrom
  have hstop : stream.front.size ≤ s₁.stream.cursor := by
    rcases hdone with hend | hle
    · have hm : ∀ t ∈ s₁.stream.front, t.kind ≠ .endMarker := by
        rw [hs₁]
        exact hl.noMarker
      have := atEnd_size hm hend
      rw [hs₁] at this
      exact this
    · rw [hl.cursor] at hle
      simpa using hle
  refine ⟨⟨_, hstop, hwalk⟩, hwalk.ascends ⟨hl.inOrder, hl.line_le⟩ (by simp), ?_⟩
  have hlines : s₁.stream.lines = stream.lines := by rw [hs₁]
  have hcopy : ∀ (p q : Pass μ), SameOutput p q → ∀ line,
      (p.copyThrough line).render stream.lines = (q.copyThrough line).render stream.lines := by
    intro p q hpq line
    rw [Pass.render_copyThrough, Pass.render_copyThrough, hpq.emitted]
    simp only [Pass.render, hpq.chunks]
  rw [hlines, hcopy _ _ hw.output, render_eq_parts]
  simp only [Pass.render, List.reverse_nil, List.map_nil, String.join_nil, String.empty_append]
  rfl

theorem expandTextVia_eq_ok {resolve : String → Run μ (Definition μ)} {session : Session μ}
    {pass : Pass μ} {name text output : String} {after : Session μ × Pass μ}
    (h : expandTextVia resolve name text (session, pass) = .ok output after) :
    ∃ stream tokens, Stream.ofSource name text = .ok stream ∧ tokenize name text = .ok tokens ∧
      Stream.Lexed tokens text stream ∧ PassedOver resolve session stream output := by
  unfold expandTextVia at h
  dsimp only at h
  split at h
  · cases h
  · next stream hs =>
    split at h
    · next hpass =>
      cases h
      obtain ⟨tokens, ht, hl⟩ := Stream.lexed_of_ofSource hs
      exact ⟨stream, tokens, hs, ht, hl, passedOver_of_ok hl hpass⟩
    · cases h

/-! ## Lines and events -/

/-- The directives and invocations that a pass over a stream handles, in order. -/
def passEvents (resolve : String → Run μ (Definition μ)) (session : Session μ) (stream : Stream) :
    List Turn :=
  (passTurns resolve session stream).filter Turn.isEvent

/-- The parts of an output interleave the lines of a source with events. -/
structure Interleaves (stream : Stream) (events : List Turn) (ps : List Part) : Prop where
  /-- Each event stands there once, in order. -/
  once : ps.filterMap Part.event? = events
  /-- Lines ascend, and an event stands between the lines before it and the lines behind it. -/
  ordered : ps.Pairwise (Part.Before stream)
  lines : ∀ n, .line n ∈ ps → 1 ≤ n ∧ n ≤ stream.lines.size
  /-- A line that is not there is one that an event reaches. -/
  replaced : ∀ n, 1 ≤ n → n ≤ stream.lines.size → .line n ∉ ps →
    ∃ t ∈ events, t.first stream ≤ n ∧ n ≤ t.last stream

/-- A token of code outside all events, on a line. -/
structure FreeCode (stream : Stream) (events : List Turn) (i n : Nat) : Prop where
  lt : i < stream.front.size
  code : (stream.tokenAt i).kind.isCode = true
  free : ∀ t ∈ events, ¬ (t.start ≤ i ∧ i < t.stop)
  first : (stream.tokenAt i).start.line ≤ n
  last : n ≤ (stream.tokenAt i).stop.line

instance (stream : Stream) (events : List Turn) (i n : Nat) :
    Decidable (FreeCode stream events i n) :=
  decidable_of_iff
    (i < stream.front.size ∧ (stream.tokenAt i).kind.isCode = true ∧
      (∀ t ∈ events, ¬ (t.start ≤ i ∧ i < t.stop)) ∧ (stream.tokenAt i).start.line ≤ n ∧
      n ≤ (stream.tokenAt i).stop.line)
    ⟨fun ⟨h1, h2, h3, h4, h5⟩ => ⟨h1, h2, h3, h4, h5⟩,
      fun ⟨h1, h2, h3, h4, h5⟩ => ⟨h1, h2, h3, h4, h5⟩⟩

variable {resolve : String → Run μ (Definition μ)} {session : Session μ} {stream : Stream}
  {output : String}

theorem PassedOver.interleaves (h : PassedOver resolve session stream output) :
    Interleaves stream (passEvents resolve session stream) (passParts resolve session stream) := by
  refine ⟨events_parts _ _ _, parts_pairwise h.ascends, ?_, ?_⟩
  · intro n hn
    exact lt_of_line_mem_parts h.ascends hn
  · intro n h1 hsize hn
    unfold passParts at hn
    rw [line_mem_parts_iff h.ascends h1 hsize] at hn
    simp only [Classical.not_forall, Nat.not_lt] at hn
    obtain ⟨t, hfind, hevent, hfirst⟩ := hn
    have hmem := List.mem_of_find?_eq_some hfind
    have hlast := List.find?_some hfind
    exact ⟨t, List.mem_filter.mpr ⟨hmem, hevent⟩, hfirst, of_decide_eq_true hlast⟩

theorem mem_passEvents {t : Turn} : t ∈ passEvents resolve session stream ↔
    t ∈ passTurns resolve session stream ∧ t.isEvent = true := List.mem_filter

/-- No line is among the parts twice. -/
theorem PassedOver.count_line_le_one (h : PassedOver resolve session stream output) (n : Nat) :
    (passParts resolve session stream).count (.line n) ≤ 1 := by
  rcases Nat.lt_or_ge 1 ((passParts resolve session stream).count (.line n)) with htwice | hle
  · have hsub : [Part.line n, .line n].Sublist (passParts resolve session stream) :=
      List.replicate_sublist_iff.mpr htwice
    have hlt : n < n := (parts_pairwise h.ascends).forall_sublist hsub
    exact absurd hlt (Nat.lt_irrefl n)
  · exact hle

/-- A turn with a token of code outside all events is that token alone. -/
theorem PassedOver.turn_of_free (h : PassedOver resolve session stream output) {k n : Nat}
    (hk : FreeCode stream (passEvents resolve session stream) k n) :
    ∃ u ∈ passTurns resolve session stream,
      u.isEvent = false ∧ u.start = k ∧ n ≤ u.last stream := by
  obtain ⟨stop, hstop, hwalk⟩ := h.walk
  have hlt : k < stop := Nat.lt_of_lt_of_le hk.lt hstop
  obtain ⟨u, hu, hle, hin⟩ := hwalk.covers (Nat.zero_le k) hlt hk.code
  have hplain : u.isEvent = false := by
    rw [← Bool.not_eq_true]
    intro hevent
    exact hk.free u (mem_passEvents.mpr ⟨hu, hevent⟩) ⟨hle, hin⟩
  obtain ⟨_, _, _, _, hone⟩ := hwalk.turn_facts u hu
  have hnext : u.stop = u.start + 1 := hone (by simpa [Turn.isEvent] using hplain)
  have hstart : u.start = k := by omega
  refine ⟨u, hu, hplain, hstart, ?_⟩
  have hsingle := lastLine_single hk.lt (isCode_ne hk.code).2
  have hline := hk.last
  rw [← hsingle, ← hstart, ← hnext] at hline
  exact hline

/-- The token of a turn that handles nothing is code outside all events. -/
theorem PassedOver.free_of_turn (h : PassedOver resolve session stream output) {u : Turn}
    (hu : u ∈ passTurns resolve session stream) (hplain : u.isEvent = false) :
    FreeCode stream (passEvents resolve session stream) u.start (u.last stream) := by
  obtain ⟨stop, _, hwalk⟩ := h.walk
  obtain ⟨_, hlt, hcode, _, hone⟩ := hwalk.turn_facts u hu
  have hnext : u.stop = u.start + 1 := hone (by simpa [Turn.isEvent] using hplain)
  have hlast : u.last stream = (stream.tokenAt u.start).stop.line := by
    unfold Turn.last
    rw [hnext]
    exact lastLine_single hlt (isCode_ne hcode).2
  obtain ⟨before, behind, hsplit⟩ := List.append_of_mem hu
  have horder := hwalk.pairwise
  rw [hsplit, List.pairwise_append, List.pairwise_cons] at horder
  obtain ⟨_, ⟨hbehind, _⟩, hbefore⟩ := horder
  refine ⟨hlt, hcode, ?_, (h.ascends.mem u hu).2, Nat.le_of_eq hlast⟩
  rintro t ht ⟨hle, hin⟩
  obtain ⟨ht, hevent⟩ := mem_passEvents.mp ht
  rw [hsplit, List.mem_append, List.mem_cons] at ht
  rcases ht with ht | rfl | ht
  · have := hbefore t ht u List.mem_cons_self
    omega
  · rw [hplain] at hevent
    cases hevent
  · have := hbehind t ht
    omega

/-- Every turn that reaches a line is the first one to reach it, or follows on that one. -/
theorem PassedOver.first_reach (h : PassedOver resolve session stream output) {n : Nat} {u : Turn}
    (hfind : (passTurns resolve session stream).find? (fun t => n ≤ t.last stream) = some u) :
    u ∈ passTurns resolve session stream ∧ n ≤ u.last stream ∧
      ∀ t ∈ passTurns resolve session stream, n ≤ t.last stream →
        t = u ∨ (u.stop ≤ t.start ∧ u.last stream ≤ t.first stream) := by
  obtain ⟨stop, _, hwalk⟩ := h.walk
  obtain ⟨hreach, before, behind, hsplit, hshort⟩ := List.find?_eq_some_iff_append.mp hfind
  refine ⟨List.mem_of_find?_eq_some hfind, of_decide_eq_true hreach, ?_⟩
  have horder := hwalk.pairwise.and h.ascends.pairwise
  rw [hsplit, List.pairwise_append, List.pairwise_cons] at horder
  obtain ⟨_, ⟨hbehind, _⟩, _⟩ := horder
  intro t ht hlast
  rw [hsplit, List.mem_append, List.mem_cons] at ht
  rcases ht with ht | rfl | ht
  · simpa [hlast] using hshort t ht
  · exact Or.inl rfl
  · exact Or.inr (hbehind t ht)

/-- A line is kept when every event that reaches it has code outside all events before it on that
line, and only then. -/
theorem PassedOver.line_mem_iff (h : PassedOver resolve session stream output) {n : Nat}
    (hn : 1 ≤ n) (hsize : n ≤ stream.lines.size) :
    .line n ∈ passParts resolve session stream ↔
      ∀ t ∈ passEvents resolve session stream, t.first stream ≤ n → n ≤ t.last stream →
        ∃ k < t.start, FreeCode stream (passEvents resolve session stream) k n := by
  obtain ⟨stop, _, hwalk⟩ := h.walk
  unfold passParts
  rw [line_mem_parts_iff h.ascends hn hsize]
  constructor
  · intro hkept t ht hfirst hlast
    obtain ⟨ht, hevent⟩ := mem_passEvents.mp ht
    cases hfind : (passTurns resolve session stream).find? (fun t => n ≤ t.last stream) with
    | none => simpa [hlast] using List.find?_eq_none.mp hfind t ht
    | some u =>
      obtain ⟨hu, hreach, hothers⟩ := h.first_reach hfind
      obtain ⟨_, hlt, _, hfor, _⟩ := hwalk.turn_facts u hu
      -- The first turn that reaches the line is no event, so it stands before the event.
      rcases hothers t ht hlast with rfl | ⟨hstop, hline⟩
      · have := hkept t hfind hevent
        omega
      · have hle := (h.ascends.mem u hu).2
        have hplain : u.isEvent = false := by
          rw [← Bool.not_eq_true]
          intro huevent
          have := hkept u hfind huevent
          omega
        have hfree := h.free_of_turn hu hplain
        have hends : u.last stream = n := by omega
        rw [hends] at hfree
        exact ⟨u.start, by omega, hfree⟩
  · intro hcode t hfind hevent
    apply Nat.lt_of_not_le
    intro hfirst
    obtain ⟨ht, hreach, hothers⟩ := h.first_reach hfind
    obtain ⟨k, hk, hfree⟩ := hcode t (mem_passEvents.mpr ⟨ht, hevent⟩) hfirst hreach
    obtain ⟨u, hu, hplain, hstart, hlast⟩ := h.turn_of_free hfree
    rcases hothers u hu hlast with rfl | ⟨hstop, _⟩
    · rw [hplain] at hevent
      cases hevent
    · obtain ⟨_, _, _, hfor, _⟩ := hwalk.turn_facts t ht
      omega

/-! ## A text that imports nothing -/

/-- No name among the tokens starts an import directive. -/
def ImportFree (keyword : String) (tokens : List Token) : Prop :=
  ∀ t ∈ tokens, t.kind = .name → t.text ≠ keyword

instance (keyword : String) (tokens : List Token) : Decidable (ImportFree keyword tokens) :=
  inferInstanceAs (Decidable (∀ t ∈ tokens, t.kind = .name → t.text ≠ keyword))

/-- A state in which nothing is imported and nobody asked to stop. -/
structure Idle (s : PassState μ) : Prop where
  interrupted : s.session.interrupted = false
  available : s.pass.available = []
  free : ImportFree s.session.settings.importKeyword s.stream.front.toList

/-- A token that is passed by does nothing to the session and imports nothing. -/
theorem plain_ok (token : Token) (s : PassState μ) :
    ∃ p, plain token s = .ok () { s with pass := p } ∧ p.available = s.pass.available := by
  rcases plain_eq (μ := μ) token with heq | heq
  · exact ⟨s.pass, by rw [heq]; rfl, rfl⟩
  · exact ⟨s.pass.copyThrough token.stop.line, by rw [heq]; rfl, Pass.available_copyThrough _ _⟩

/-- Where nothing is imported, a step only passes a token. -/
theorem Idle.step (resolve : String → Run μ (Definition μ)) {s : PassState μ} (h : Idle s)
    (hend : s.stream.atEnd = false) :
    ∃ p, PassRun.step resolve s = .ok () { s with stream := s.stream.skip, pass := p } ∧
      p.available = [] ∧ ∀ t, turn? s = some t → t.text = none := by
  have htrigger : ∀ keyword, s.pass.trigger? keyword = none := by
    intro keyword
    simp [Pass.trigger?, h.available]
  have hplain : ∃ p, plain s.stream.peek { s with stream := s.stream.skip } =
      .ok () { s with stream := s.stream.skip, pass := p } ∧ p.available = [] := by
    obtain ⟨p, hp, ha⟩ := plain_ok s.stream.peek { s with stream := s.stream.skip }
    exact ⟨p, hp, ha.trans h.available⟩
  unfold PassRun.step
  rw [bind_of_ok (get_apply s)]
  simp only [h.interrupted, Bool.false_eq_true, if_false]
  rw [bind_of_ok (set_apply _ _)]
  cases hk : s.stream.peek.kind with
  | indent | dedent => exact ⟨_, rfl, h.available, by simp [turn?, hk]⟩
  | newline =>
    obtain ⟨p, hp, ha⟩ := hplain
    exact ⟨p, hp, ha, by simp [turn?, hk]⟩
  | number | string | operator | comment | blankBreak | endMarker =>
    obtain ⟨p, hp, ha⟩ := hplain
    refine ⟨p, hp, ha, ?_⟩
    intro t ht
    simp only [turn?, hk, Option.some.injEq] at ht
    rw [← ht]
  | name =>
    have hlt := lt_size_of_not_atEnd hend
    have hmem : s.stream.peek ∈ s.stream.front.toList := by
      have hpeek : s.stream.peek = s.stream.front[s.stream.cursor] := tokenAt_of_lt hlt
      rw [hpeek]
      exact Array.getElem_mem_toList hlt
    have hother := h.free _ hmem hk
    obtain ⟨p, hp, ha⟩ := hplain
    simp only [hother, if_false, htrigger]
    refine ⟨p, hp, ha, ?_⟩
    intro t ht
    simp only [turn?, hk, hother, htrigger, if_false, Option.some.injEq] at ht
    rw [← ht]

theorem Idle.skip {s : PassState μ} (h : Idle s) {p : Pass μ} (hp : p.available = []) :
    Idle { s with stream := s.stream.skip, pass := p } := by
  have hfront : s.stream.skip.front = s.stream.front := by
    unfold Stream.skip
    split <;> rfl
  refine ⟨h.interrupted, hp, ?_⟩
  dsimp only
  rw [hfront]
  exact h.free

/-- Where nothing is imported, a run passes token after token and never fails. -/
theorem Idle.steps (resolve : String → Run μ (Definition μ)) {s : PassState μ} (h : Idle s)
    (n : Nat) :
    ∃ s', PassRun.steps resolve n s = .ok () s' ∧ s'.session = s.session ∧
      ∀ t ∈ turns resolve n s, t.text = none := by
  induction n generalizing s with
  | zero => exact ⟨s, rfl, rfl, by simp [turns]⟩
  | succ n ih =>
    unfold PassRun.steps
    rw [bind_of_ok (get_apply s)]
    by_cases hend : s.stream.atEnd = true
    · exact ⟨s, by simp [hend], rfl, by simp [turns, hend]⟩
    · rw [Bool.not_eq_true] at hend
      obtain ⟨p, hstep, hp, hturn⟩ := h.step resolve hend
      obtain ⟨s', hsteps, hsession, hturns⟩ := ih (h.skip hp)
      simp only [hend, Bool.false_eq_true, if_false]
      rw [bind_of_ok hstep]
      refine ⟨s', hsteps, hsession, ?_⟩
      simp only [turns, hend, Bool.false_eq_true, if_false, hstep, List.mem_append,
        Option.mem_toList]
      rintro t (ht | ht)
      · exact hturn t ht
      · exact hturns t ht

/-- A pass over the tokens of a text that imports nothing gives the text. -/
theorem expandStream_of_importFree (resolve : String → Run μ (Definition μ)) (pass : Pass μ)
    {tokens : List Token} {text : String} (hl : Stream.Lexed tokens text stream)
    (hfree : ImportFree session.settings.importKeyword tokens)
    (hgo : session.interrupted = false) :
    ∃ s', expandStream resolve { session, stream, pass } = .ok text s' ∧
      s'.session = session := by
  have hidle : Idle (μ := μ) { session, stream, pass := {} } :=
    ⟨hgo, rfl, fun t ht => hfree t (hl.mem t (by simpa using ht))⟩
  obtain ⟨s₁, hsteps, hsession, hturns⟩ :=
    hidle.steps resolve (stream.front.size - stream.cursor)
  have hrun := expandStream_of_steps (s := { session, stream, pass }) hsteps
  obtain ⟨_, _, hout⟩ := passedOver_of_ok hl hrun
  have htext : String.join ((passParts resolve session stream).map (Part.render stream.lines)) =
      text := by
    unfold passParts passTurns
    rw [parts_of_no_event stream 0 hturns, render_lines, hl.lines, LineTable.join_lines]
  rw [htext] at hout
  rw [hout] at hrun
  exact ⟨_, hrun, hsession⟩

/-! ## The laws -/

/-- A session with the standard plugins over an empty file tree. -/
def plainSession : Session Unit := .start {} .standard ⟨[], []⟩ false ()

/-- A text that lexes and imports nothing is its own expansion. The session stays as it was. -/
theorem a_text_that_imports_nothing_is_its_own_expansion {name text : String}
    {tokens : List Token} (htokens : tokenize name text = .ok tokens) {session : Session μ}
    (hfree : ImportFree session.settings.importKeyword tokens)
    (hgo : session.interrupted = false) (pass : Pass μ) :
    ∃ account, expandText name text (session, pass) = .ok text (session, account) := by
  obtain ⟨stream, hs, hl⟩ := Stream.lexed_of_tokenize htokens
  obtain ⟨s', hrun, hsession⟩ :=
    expandStream_of_importFree SourceMacros.resolve pass hl hfree hgo
  refine ⟨s'.pass, ?_⟩
  unfold expandText expandTextVia
  simp only [hs, hrun, hsession]

/-- Blank lines, comments, a continuation, a string and brackets over several lines, blocks, two
kinds of line breaks, and no break at the end. -/
def mixedText : String :=
  "\r\n# top\nif a: # b\r\n\tx = 1 + \\\n    2\n\n    # c\n\ts = '''macro\nimport'''\r\nf(\n)\n  \nmacros"

theorem a_mixed_text_is_its_own_expansion :
    ∃ tokens, tokenize "mixed" mixedText = .ok tokens ∧
      ImportFree plainSession.settings.importKeyword tokens ∧
      plainSession.interrupted = false ∧
      ∃ account, expandText "mixed" mixedText (plainSession, {}) =
        .ok mixedText (plainSession, account) := by
  have hcheck : (tokenize "mixed" mixedText).toOption.any
      (fun tokens => decide (ImportFree plainSession.settings.importKeyword tokens)) = true := by
    decide +kernel
  obtain ⟨tokens, htokens, hfree⟩ := exists_ok_of_any hcheck
  replace hfree := of_decide_eq_true hfree
  exact ⟨tokens, htokens, hfree, rfl,
    a_text_that_imports_nothing_is_its_own_expansion htokens hfree rfl {}⟩

/-- The output of a pass interleaves the lines of the text with what directives and invocations
left, and holds nothing else. -/
theorem an_output_interleaves_lines_with_events {name text output : String} {session : Session μ}
    {pass : Pass μ} {after : Session μ × Pass μ}
    (h : expandText name text (session, pass) = .ok output after) :
    ∃ stream, Stream.ofSource name text = .ok stream ∧
      Interleaves stream (passEvents SourceMacros.resolve session stream)
        (passParts SourceMacros.resolve session stream) ∧
      output = String.join ((passParts SourceMacros.resolve session stream).map
        (Part.render (LineTable.ofText text))) := by
  obtain ⟨stream, tokens, hs, _, hl, hpass⟩ := expandTextVia_eq_ok h
  refine ⟨stream, hs, hpass.interleaves, ?_⟩
  rw [← hl.lines]
  exact hpass.output

/-- A directive, an invocation in a block, and one that shares its line with other code. -/
def greetingText : String :=
  "# top\nmacro import hello\nif a:\n  b\n  hello\n\nc = 1; hello\nd\n"

def greetingOutput : String :=
  "# top\n# Macro imported: hello\nif a:\n  b\n\n  print(\"Hello World\")\n\nc = 1; hello\n" ++
    "\nprint(\"Hello World\")\nd\n"

theorem greetingText_facts :
    value? (expandText "t" greetingText (plainSession, {})) = some greetingOutput ∧
      (Stream.ofSource "t" greetingText).toOption.any (fun stream =>
        decide (∀ t ∈ passEvents SourceMacros.resolve plainSession stream,
          t.first stream ≤ 7 → 7 ≤ t.last stream → ∃ k < t.start,
            FreeCode stream (passEvents SourceMacros.resolve plainSession stream) k 7)) = true := by
  decide +kernel

theorem the_greeting_interleaves_lines_with_events :
    ∃ after stream, expandText "t" greetingText (plainSession, {}) = .ok greetingOutput after ∧
      Stream.ofSource "t" greetingText = .ok stream ∧
      Interleaves stream (passEvents SourceMacros.resolve plainSession stream)
        (passParts SourceMacros.resolve plainSession stream) := by
  obtain ⟨after, h⟩ := value?_eq_some.mp greetingText_facts.1
  obtain ⟨stream, hs, hparts, _⟩ := an_output_interleaves_lines_with_events h
  exact ⟨after, stream, h, hs, hparts⟩

/-- A line of the text is kept exactly once when every directive and invocation that reaches it has
code outside all of them before it on that line, and else it is lost. So code that only comes
behind one of them on its last line is lost with that line. -/
theorem a_line_is_kept_once_unless_an_event_comes_first_on_it {name text output : String}
    {session : Session μ} {pass : Pass μ} {after : Session μ × Pass μ}
    (h : expandText name text (session, pass) = .ok output after) :
    ∃ stream, Stream.ofSource name text = .ok stream ∧
      output = String.join ((passParts SourceMacros.resolve session stream).map
        (Part.render (LineTable.ofText text))) ∧
      ∀ n, 1 ≤ n → n ≤ (LineTable.ofText text).size →
        ((passParts SourceMacros.resolve session stream).count (.line n) = 1 ↔
          ∀ t ∈ passEvents SourceMacros.resolve session stream,
            t.first stream ≤ n → n ≤ t.last stream → ∃ k < t.start,
              FreeCode stream (passEvents SourceMacros.resolve session stream) k n) := by
  obtain ⟨stream, tokens, hs, _, hl, hpass⟩ := expandTextVia_eq_ok h
  rw [← hl.lines]
  refine ⟨stream, hs, hpass.output, ?_⟩
  intro n hn hsize
  rw [← hpass.line_mem_iff hn hsize, ← List.count_pos_iff]
  have := hpass.count_line_le_one n
  constructor
  · intro hone
    omega
  · intro hsome
    exact Nat.le_antisymm this hsome

/-- In `c = 1; hello` the code comes first, so the line is kept beside the greeting. -/
theorem the_greeting_keeps_the_line_it_shares :
    ∃ after stream, expandText "t" greetingText (plainSession, {}) = .ok greetingOutput after ∧
      Stream.ofSource "t" greetingText = .ok stream ∧
      (passParts SourceMacros.resolve plainSession stream).count (.line 7) = 1 := by
  obtain ⟨hvalue, hcheck⟩ := greetingText_facts
  obtain ⟨after, h⟩ := value?_eq_some.mp hvalue
  obtain ⟨stream, hs, _, hlines⟩ := a_line_is_kept_once_unless_an_event_comes_first_on_it h
  rw [hs] at hcheck
  have hfirst := of_decide_eq_true hcheck
  exact ⟨after, stream, h, hs, (hlines 7 (by decide) (by decide)).mpr hfirst⟩

/-- The `x = 1` that comes behind a directive on its line is not consumed by it, and is lost. -/
theorem code_behind_a_directive_is_lost :
    ∃ after stream,
      expandText "t" "macro import hello; x = 1\n" (plainSession, {}) =
        .ok "# Macro imported: hello\n" after ∧
      Stream.ofSource "t" "macro import hello; x = 1\n" = .ok stream ∧
      FreeCode stream (passEvents SourceMacros.resolve plainSession stream) 4 1 ∧
      (passParts SourceMacros.resolve plainSession stream).count (.line 1) = 0 := by
  have hfacts : value? (expandText "t" "macro import hello; x = 1\n" (plainSession, {})) =
        some "# Macro imported: hello\n" ∧
      (Stream.ofSource "t" "macro import hello; x = 1\n").toOption.any (fun stream =>
        decide (FreeCode stream (passEvents SourceMacros.resolve plainSession stream) 4 1 ∧
          (passParts SourceMacros.resolve plainSession stream).count (.line 1) = 0)) = true := by
    decide +kernel
  obtain ⟨hvalue, hcheck⟩ := hfacts
  obtain ⟨after, h⟩ := value?_eq_some.mp hvalue
  obtain ⟨stream, hs, hlost⟩ := exists_ok_of_any hcheck
  exact ⟨after, stream, h, hs, of_decide_eq_true hlost⟩

end SourceMacros
