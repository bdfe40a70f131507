-- The turns of a pass. A pass reads its stream from left to right, and what it does at one go is
-- a turn: it passes one token, or handles an import directive or an invocation with all the tokens
-- that takes. The output is what the turns leave, one after the other.
import SourceMacros.Expansion
import SourceMacros.Proofs.Outcome
import SourceMacros.Proofs.TokenOrder

namespace SourceMacros

/-! ## Turns -/

/-- A token that stands for code, and not for the end of a line, a block or the source. -/
def TokenKind.isCode : TokenKind → Bool
  | .newline | .indent | .dedent | .endMarker => false
  | _ => true

/-- What a pass does at one go: the indices of the first token and of the one behind the last, and
the text of a directive or an invocation. A token that starts nothing has none. -/
structure Turn where
  start : Nat
  stop : Nat
  text : Option String
  deriving DecidableEq, Repr

namespace Turn

/-- The line on which it starts. -/
def first (stream : Stream) (t : Turn) : Nat := (stream.tokenAt t.start).start.line

/-- The last line that its tokens reach. The end of a block counts as part of the line before
it. -/
def last (stream : Stream) (t : Turn) : Nat := lastLine stream t.start t.stop

/-- It handled an import directive or an invocation. -/
def isEvent (t : Turn) : Bool := t.text.isSome

/-- What it does to the output. -/
def act {μ : Type} (stream : Stream) (t : Turn) (p : Pass μ) : Pass μ :=
  match t.text with
  | none => p.copyThrough (t.last stream)
  | some text =>
    ((p.copyThrough (t.first stream - 1)).insert text).skipThrough (t.last stream)

end Turn

namespace PassRun

variable {μ : Type}

/-- The turn that a step takes. The tokens that only open or close blocks or end lines leave
nothing in the output, and neither does a step that fails. -/
def turn? (s : PassState μ) : Option Turn :=
  let token := s.stream.peek
  let start := s.stream.cursor
  let ahead := { s with stream := s.stream.skip }
  match token.kind with
  | .indent | .dedent | .newline => none
  | .name =>
    if token.text = s.session.settings.importKeyword then
      match onStream Directive.parse ahead with
      | .ok directive s' => some ⟨start, s'.stream.cursor, some directive.comment⟩
      | .error _ _ => none
    else
      match s.pass.trigger? token.text with
      | some definition =>
        match onStream definition.plugin.expand ahead with
        | .ok text s' => some ⟨start, s'.stream.cursor, some (spliced s.pass.indentation text)⟩
        | .error _ _ => none
      | none => some ⟨start, start + 1, none⟩
  | _ => some ⟨start, start + 1, none⟩

/-- The turns of the steps up to the end of the stream, or up to the first failure. -/
def turns (resolve : String → Run μ (Definition μ)) : Nat → PassState μ → List Turn
  | 0, _ => []
  | n + 1, s =>
    if s.stream.atEnd then []
    else
      match step resolve s with
      | .ok _ s' => (turn? s).toList ++ turns resolve n s'
      | .error _ _ => []

/-- The turns of a whole pass over a stream. -/
def passTurns (resolve : String → Run μ (Definition μ)) (session : Session μ) (stream : Stream) :
    List Turn :=
  turns resolve (stream.front.size - stream.cursor) { session, stream, pass := {} }

/-! ## One step -/

/-- Both accounts have the same output. -/
structure SameOutput (p q : Pass μ) : Prop where
  chunks : p.chunks = q.chunks
  emitted : p.emitted = q.emitted

theorem SameOutput.act {p q : Pass μ} (h : SameOutput p q) (stream : Stream) (t : Turn) :
    SameOutput (t.act stream p) (t.act stream q) := by
  obtain ⟨hc, he⟩ := h
  have hcopy : ∀ line, SameOutput (p.copyThrough line) (q.copyThrough line) := by
    intro line
    unfold Pass.copyThrough
    rw [he]
    split
    · exact ⟨by simp [hc], rfl⟩
    · exact ⟨hc, he⟩
  unfold Turn.act
  split
  · exact hcopy _
  · obtain ⟨hc', he'⟩ := hcopy (t.first stream - 1)
    exact ⟨by simp [Pass.skipThrough, Pass.insert, hc'],
      by simp [Pass.skipThrough, Pass.insert, he']⟩

/-- A parser that succeeds leaves the stream as it was, up to the cursor, and the pass alone. -/
theorem onStream_eq_ok {α : Type} {parse : Parser μ α} {s s' : PassState μ} {value : α}
    (h : onStream parse s = .ok value s') :
    s'.stream = { s.stream with cursor := s'.stream.cursor } ∧
      s.stream.cursor ≤ s'.stream.cursor ∧ s'.pass = s.pass := by
  unfold onStream at h
  dsimp only at h
  split at h
  · cases h
    exact ⟨rfl, Nat.le_max_left _ _, rfl⟩
  · cases h

theorem onSession_eq_ok {α : Type} {run : Run μ α} {s s' : PassState μ} {value : α}
    (h : onSession run s = .ok value s') : s'.stream = s.stream ∧ s'.pass = s.pass := by
  unfold onSession at h
  split at h
  · cases h; exact ⟨rfl, rfl⟩
  · cases h

/-- A step that is not at the end starts by moving past the token under the cursor. -/
theorem skip_eq {stream : Stream} (h : stream.atEnd = false) :
    stream.skip = { stream with cursor := stream.cursor + 1 } := by
  simp [Stream.skip, h]

/-- A parser does not see the account of the pass. -/
theorem onStream_with_pass {α : Type} {parse : Parser μ α} {s s' : PassState μ} {p : Pass μ}
    {value : α} (h : onStream parse { s with pass := p } = .ok value s') :
    onStream parse s = .ok value { s' with pass := s.pass } := by
  unfold onStream at h ⊢
  dsimp only at h ⊢
  split at h
  · cases h; rfl
  · cases h

/-- What an import directive does to the stream and to the output. -/
theorem importDirective_eq_ok {resolve : String → Run μ (Definition μ)} {keyword : Token}
    {start : Nat} {s s' : PassState μ} (h : importDirective resolve keyword start s = .ok () s') :
    ∃ directive s₁, onStream Directive.parse s = .ok directive s₁ ∧ s'.stream = s₁.stream ∧
      SameOutput s'.pass (((s.pass.copyThrough (keyword.start.line - 1)).insert
        directive.comment).skipThrough (lastLine s₁.stream start s₁.stream.cursor)) := by
  unfold importDirective at h
  obtain ⟨_, s₀, h0, h⟩ := bind_eq_ok.mp h
  cases h0
  obtain ⟨directive, s₁, h1, h⟩ := bind_eq_ok.mp h
  obtain ⟨definition, s₂, h2, h⟩ := bind_eq_ok.mp h
  obtain ⟨hs₂, hp₂⟩ := onSession_eq_ok h2
  obtain ⟨_, _, hp₁⟩ := onStream_eq_ok h1
  cases h
  refine ⟨directive, _, onStream_with_pass h1, hs₂, ?_⟩
  exact ⟨by simp [Pass.insert, Pass.skipThrough, hp₂, hp₁],
    by simp [Pass.insert, Pass.skipThrough, hp₂, hp₁, hs₂]⟩

/-- What an invocation does to the stream and to the output. -/
theorem invocation_eq_ok {definition : Definition μ} {keyword : Token} {start : Nat}
    {s s' : PassState μ} (h : invocation definition keyword start s = .ok () s') :
    ∃ text s₁, onStream definition.plugin.expand s = .ok text s₁ ∧ s'.stream = s₁.stream ∧
      SameOutput s'.pass (((s.pass.copyThrough (keyword.start.line - 1)).insert
        (spliced s.pass.indentation text)).skipThrough
          (lastLine s₁.stream start s₁.stream.cursor)) := by
  unfold invocation at h
  obtain ⟨_, s₀, h0, h⟩ := bind_eq_ok.mp h
  cases h0
  obtain ⟨text, s₁, h1, h⟩ := bind_eq_ok.mp h
  obtain ⟨_, _, hp₁⟩ := onStream_eq_ok h1
  have hindent : (s.pass.copyThrough (keyword.start.line - 1)).indentation =
      s.pass.indentation := by
    unfold Pass.copyThrough
    split <;> rfl
  cases h
  refine ⟨text, _, onStream_with_pass h1, rfl, ?_⟩
  exact ⟨by simp [Pass.insert, Pass.skipThrough, hp₁, hindent],
    by simp [Pass.insert, Pass.skipThrough, hp₁]⟩

/-- A turn that leads from one state to another. -/
structure Taken (s s' : PassState μ) (t : Turn) : Prop where
  start : t.start = s.stream.cursor
  stop : t.stop = s'.stream.cursor
  forward : s.stream.cursor < s'.stream.cursor
  single : t.text = none → t.stop = t.start + 1
  output : SameOutput s'.pass (t.act s.stream s.pass)

/-- What a step that succeeds does: it passes a token that stands for no code, or takes a turn. -/
structure Advances (s s' : PassState μ) : Prop where
  stream : s'.stream = { s.stream with cursor := s'.stream.cursor }
  turn : (turn? s = none ∧ s.stream.peek.kind.isCode = false ∧
      s'.stream.cursor = s.stream.cursor + 1 ∧ SameOutput s'.pass s.pass) ∨
    ∃ t, turn? s = some t ∧ s.stream.peek.kind.isCode = true ∧ Taken s s' t

/-- The last line of one token is the line on which it ends. -/
theorem lastLine_single {stream : Stream} {i : Nat} (hi : i < stream.front.size)
    (hk : (stream.tokenAt i).kind ≠ .dedent) :
    lastLine stream i (i + 1) = (stream.tokenAt i).stop.line := by
  have hat : stream.tokenAt i = stream.front[i] := by simp [Stream.tokenAt, hi]
  have hbetween : stream.between i (i + 1) = [stream.front[i]] := by
    have hpast : ¬ (i ≤ stream.front.size ∧ stream.front.size < i + 1) := by omega
    unfold Stream.between
    rw [if_neg hpast]
    apply List.ext_getElem
    · simp
      omega
    · intro j h1 h2
      have hj : j = 0 := by simpa using h2
      subst hj
      simp
  rw [hat] at hk ⊢
  simp [lastLine, hbetween, hk]

theorem lt_size_of_not_atEnd {stream : Stream} (h : stream.atEnd = false) :
    stream.cursor < stream.front.size := by
  rcases Nat.lt_or_ge stream.cursor stream.front.size with hlt | hge
  · exact hlt
  · have hpeek : stream.peek = stream.last := by
      simp [Stream.peek, Stream.tokenAt, Array.getElem?_eq_none hge]
    simp [Stream.atEnd, hpeek, stream.last_kind] at h

/-- A token of code that starts nothing is a turn of its own. -/
theorem plain_advances {s s' : PassState μ} (hend : s.stream.atEnd = false)
    (hcode : s.stream.peek.kind.isCode = true)
    (hturn : turn? s = some ⟨s.stream.cursor, s.stream.cursor + 1, none⟩)
    (h : plain s.stream.peek { s with stream := s.stream.skip } = .ok () s') : Advances s s' := by
  have hd : s.stream.peek.kind ≠ .dedent := by intro hk; simp [hk, TokenKind.isCode] at hcode
  have hn : s.stream.peek.kind ≠ .newline := by intro hk; simp [hk, TokenKind.isCode] at hcode
  have hcopy : plain s.stream.peek =
      update (μ := μ) (·.copyThrough s.stream.peek.stop.line) := by
    unfold plain
    split
    · contradiction
    · contradiction
    · rfl
  rw [hcopy, skip_eq hend] at h
  cases h
  refine ⟨rfl, Or.inr ⟨_, hturn, hcode, rfl, rfl, Nat.lt_succ_self _, fun _ => rfl, ?_⟩⟩
  have hlast := lastLine_single (lt_size_of_not_atEnd hend) hd
  simp only [Turn.act, Turn.last, hlast]
  exact ⟨rfl, rfl⟩

/-- A directive or an invocation is a turn with the tokens that its parser took. -/
theorem event_advances {s s₁ s' : PassState μ} {text : String} {value : Type}
    {parse : Parser μ value} {result : value} (hend : s.stream.atEnd = false)
    (hcode : s.stream.peek.kind.isCode = true)
    (hparse : onStream parse { s with stream := s.stream.skip } = .ok result s₁)
    (hturn : turn? s = some ⟨s.stream.cursor, s₁.stream.cursor, some text⟩)
    (hstream : s'.stream = s₁.stream)
    (hout : SameOutput s'.pass (((s.pass.copyThrough (s.stream.peek.start.line - 1)).insert
      text).skipThrough (lastLine s₁.stream s.stream.cursor s₁.stream.cursor))) :
    Advances s s' := by
  obtain ⟨hs, hle, _⟩ := onStream_eq_ok hparse
  rw [skip_eq hend] at hs hle
  have hs' : s'.stream = { s.stream with cursor := s'.stream.cursor } := by
    rw [hstream]
    exact hs
  refine ⟨hs', Or.inr ⟨_, hturn, hcode, rfl, by rw [hstream], ?_, by simp, ?_⟩⟩
  · rw [hstream]
    exact hle
  · have hline : lastLine s₁.stream s.stream.cursor s₁.stream.cursor =
        lastLine s.stream s.stream.cursor s₁.stream.cursor := by
      rw [hs]
      rfl
    rw [hline] at hout
    exact hout

theorem step_advances {resolve : String → Run μ (Definition μ)} {s s' : PassState μ}
    (hend : s.stream.atEnd = false) (h : step resolve s = .ok () s') : Advances s s' := by
  unfold step at h
  obtain ⟨_, _, h0, h⟩ := bind_eq_ok.mp h
  cases h0
  split at h
  · simp [bind, EStateM.bind] at h
  · obtain ⟨_, _, h0, h⟩ := bind_eq_ok.mp h
    cases h0
    cases hk : s.stream.peek.kind with
    | indent | dedent | newline =>
      simp only [hk, plain, skip_eq hend] at h
      cases h
      exact ⟨rfl, Or.inl ⟨by simp [turn?, hk], by simp [hk, TokenKind.isCode], rfl, rfl, rfl⟩⟩
    | endMarker => simp [Stream.atEnd, hk] at hend
    | number | string | operator | comment | blankBreak =>
      simp only [hk] at h
      exact plain_advances hend (by simp [hk, TokenKind.isCode]) (by simp [turn?, hk]) h
    | name =>
      simp only [hk] at h
      have hcode : s.stream.peek.kind.isCode = true := by simp [hk, TokenKind.isCode]
      split at h
      · next himport =>
        obtain ⟨directive, s₁, hparse, hstream, hout⟩ := importDirective_eq_ok h
        exact event_advances hend hcode hparse (by simp [turn?, hk, himport, hparse]) hstream hout
      · next himport =>
        cases htrigger : s.pass.trigger? s.stream.peek.text with
        | some definition =>
          simp only [htrigger] at h
          obtain ⟨text, s₁, hparse, hstream, hout⟩ := invocation_eq_ok h
          exact event_advances hend hcode hparse
            (by simp [turn?, hk, himport, htrigger, hparse]) hstream hout
        | none =>
          simp only [htrigger] at h
          exact plain_advances hend hcode (by simp [turn?, hk, himport, htrigger]) h

/-! ## A whole run -/

/-- Turns that follow each other from one index to another, with tokens that stand for no code
between them. -/
inductive Walk (stream : Stream) : Nat → List Turn → Nat → Prop
  | done (i : Nat) : Walk stream i [] i
  | pass {i j : Nat} {ts : List Turn} : (stream.tokenAt i).kind.isCode = false →
      Walk stream (i + 1) ts j → Walk stream i ts j
  | turn {j : Nat} {t : Turn} {ts : List Turn} : t.start < stream.front.size →
      (stream.tokenAt t.start).kind.isCode = true → t.start < t.stop →
      (t.text = none → t.stop = t.start + 1) → Walk stream t.stop ts j →
      Walk stream t.start (t :: ts) j

theorem Walk.with_cursor {stream : Stream} {c i j : Nat} {ts : List Turn}
    (h : Walk { stream with cursor := c } i ts j) : Walk stream i ts j := by
  induction h with
  | done i => exact .done i
  | pass hk _ ih => exact .pass hk ih
  | turn hlt hk hfor hone _ ih => exact .turn hlt hk hfor hone ih

/-- What a run of steps does: it walks the stream, and the output is what its turns leave. -/
structure Walked (s s' : PassState μ) (ts : List Turn) : Prop where
  stream : s'.stream = { s.stream with cursor := s'.stream.cursor }
  walk : Walk s.stream s.stream.cursor ts s'.stream.cursor
  output : SameOutput s'.pass (ts.foldl (fun p t => t.act s.stream p) s.pass)

theorem SameOutput.foldl_act {p q : Pass μ} (h : SameOutput p q) (stream : Stream)
    (ts : List Turn) :
    SameOutput (ts.foldl (fun p t => t.act stream p) p)
      (ts.foldl (fun p t => t.act stream p) q) := by
  induction ts generalizing p q with
  | nil => exact h
  | cons t ts ih => exact ih (h.act stream t)

/-- One step and then the others. -/
theorem Walked.step {s s₁ s' : PassState μ} {ts : List Turn} (hend : s.stream.atEnd = false)
    (h : Advances s s₁) (hw : Walked s₁ s' ts) : Walked s s' ((turn? s).toList ++ ts) := by
  obtain ⟨hstream, hwalk, hout⟩ := hw
  have hs' : s'.stream = { s.stream with cursor := s'.stream.cursor } := by
    rw [hstream, h.stream]
  have hsame : ∀ (p : Pass μ), ts.foldl (fun p t => t.act s₁.stream p) p =
      ts.foldl (fun p t => t.act s.stream p) p := by
    intro p
    rw [h.stream]
    rfl
  rw [h.stream] at hwalk
  replace hwalk := hwalk.with_cursor
  rw [hsame] at hout
  rcases h.turn with ⟨hturn, hk, hc, hpass⟩ | ⟨t, hturn, hk, ht⟩
  · simp only [hc] at hwalk
    refine ⟨hs', by simpa [hturn] using Walk.pass hk hwalk, ?_⟩
    have hrest := hpass.foldl_act s.stream ts
    simp only [hturn, Option.toList_none, List.nil_append]
    exact ⟨hout.chunks.trans hrest.chunks, hout.emitted.trans hrest.emitted⟩
  · have hlt := lt_size_of_not_atEnd hend
    simp only [← ht.stop] at hwalk
    have hfor : t.start < t.stop := by
      rw [ht.start, ht.stop]
      exact ht.forward
    refine ⟨hs', ?_, ?_⟩
    · rw [hturn, Option.toList_some, List.singleton_append, ← ht.start]
      exact .turn (by rw [ht.start]; exact hlt) (by rw [ht.start]; exact hk) hfor ht.single hwalk
    · have hrest := ht.output.foldl_act s.stream ts
      simp only [hturn, Option.toList_some, List.singleton_append, List.foldl_cons]
      exact ⟨hout.chunks.trans hrest.chunks, hout.emitted.trans hrest.emitted⟩

/-- The steps walk the stream, to its end if there are as many of them as tokens. -/
theorem steps_walked (resolve : String → Run μ (Definition μ)) (n : Nat) {s s' : PassState μ}
    (h : steps resolve n s = .ok () s') :
    Walked s s' (turns resolve n s) ∧
      (s'.stream.atEnd = true ∨ s.stream.cursor + n ≤ s'.stream.cursor) := by
  induction n generalizing s with
  | zero =>
    cases h
    exact ⟨⟨rfl, .done _, rfl, rfl⟩, Or.inr (Nat.le_refl _)⟩
  | succ n ih =>
    unfold steps at h
    obtain ⟨_, _, h0, h⟩ := bind_eq_ok.mp h
    cases h0
    by_cases hend : s.stream.atEnd = true
    · rw [if_pos hend] at h
      cases h
      simp only [turns, hend, if_true]
      exact ⟨⟨rfl, .done _, rfl, rfl⟩, Or.inl trivial⟩
    · rw [if_neg hend] at h
      rw [Bool.not_eq_true] at hend
      obtain ⟨_, s₁, hstep, h⟩ := bind_eq_ok.mp h
      have ha := step_advances hend hstep
      obtain ⟨hw, hdone⟩ := ih h
      have hforward : s.stream.cursor < s₁.stream.cursor := by
        rcases ha.turn with ⟨_, _, hc, _⟩ | ⟨_, _, _, ht⟩
        · omega
        · exact ht.forward
      simp only [turns, hend, hstep]
      refine ⟨Walked.step hend ha hw, ?_⟩
      rcases hdone with hdone | hdone
      · exact Or.inl hdone
      · exact Or.inr (by omega)

/-- A pass takes its steps with an account of its own, and then copies the lines that are left. -/
theorem expandStream_of_steps {resolve : String → Run μ (Definition μ)} {s s₁ : PassState μ}
    (h : steps resolve (s.stream.front.size - s.stream.cursor) { s with pass := {} } =
      .ok () s₁) :
    expandStream resolve s =
      .ok ((s₁.pass.copyThrough s₁.stream.lines.size).render s₁.stream.lines)
        { s₁ with pass := s₁.pass.copyThrough s₁.stream.lines.size } := by
  unfold expandStream
  rw [bind_of_ok (update_apply _ _), bind_of_ok (get_apply _), bind_of_ok h]
  rfl

theorem expandStream_eq_ok {resolve : String → Run μ (Definition μ)} {s s' : PassState μ}
    {output : String} (h : expandStream resolve s = .ok output s') :
    ∃ s₁, steps resolve (s.stream.front.size - s.stream.cursor) { s with pass := {} } = .ok () s₁ ∧
      output = (s₁.pass.copyThrough s₁.stream.lines.size).render s₁.stream.lines ∧
      s' = { s₁ with pass := s₁.pass.copyThrough s₁.stream.lines.size } := by
  unfold expandStream at h
  obtain ⟨_, _, h0, h⟩ := bind_eq_ok.mp h
  cases h0
  obtain ⟨_, _, h0, h⟩ := bind_eq_ok.mp h
  cases h0
  obtain ⟨_, s₁, hsteps, h⟩ := bind_eq_ok.mp h
  cases h
  exact ⟨s₁, hsteps, rfl, rfl⟩

/-! ## The order of turns -/

theorem Walk.turn_facts {stream : Stream} {i j : Nat} {ts : List Turn} (h : Walk stream i ts j) :
    ∀ t ∈ ts, i ≤ t.start ∧ t.start < stream.front.size ∧
      (stream.tokenAt t.start).kind.isCode = true ∧ t.start < t.stop ∧
      (t.text = none → t.stop = t.start + 1) := by
  induction h with
  | done i => simp
  | pass _ _ ih =>
    intro t ht
    obtain ⟨h1, h2⟩ := ih t ht
    exact ⟨by omega, h2⟩
  | turn hlt hk hfor hone _ ih =>
    intro u hu
    rcases List.mem_cons.mp hu with rfl | hu
    · exact ⟨Nat.le_refl _, hlt, hk, hfor, hone⟩
    · obtain ⟨h1, h2⟩ := ih u hu
      exact ⟨by omega, h2⟩

/-- A turn starts behind the tokens of those before it. -/
theorem Walk.pairwise {stream : Stream} {i j : Nat} {ts : List Turn} (h : Walk stream i ts j) :
    ts.Pairwise fun t u => t.stop ≤ u.start := by
  induction h with
  | done i => exact List.Pairwise.nil
  | pass _ _ ih => exact ih
  | turn _ _ _ _ hrest ih =>
    rw [List.pairwise_cons]
    exact ⟨fun u hu => (hrest.turn_facts u hu).1, ih⟩

/-- Every token of code on the way belongs to a turn. -/
theorem Walk.covers {stream : Stream} {i j : Nat} {ts : List Turn} (h : Walk stream i ts j)
    {k : Nat} (hik : i ≤ k) (hkj : k < j) (hk : (stream.tokenAt k).kind.isCode = true) :
    ∃ t ∈ ts, t.start ≤ k ∧ k < t.stop := by
  induction h with
  | done i => omega
  | @pass i j ts hpass _ ih =>
    have hne : k ≠ i := by
      rintro rfl
      rw [hk] at hpass
      cases hpass
    exact ih (by omega) hkj
  | @turn j t ts _ _ _ _ _ ih =>
    by_cases hin : k < t.stop
    · exact ⟨t, List.mem_cons_self, hik, hin⟩
    · obtain ⟨u, hu, hle, hlt⟩ := ih (by omega) hkj
      exact ⟨u, List.mem_cons_of_mem t hu, hle, hlt⟩

/-! ## The lines of turns -/

theorem mem_between {stream : Stream} {first last : Nat} {t : Token}
    (h : t ∈ stream.between first last) (hlast : last ≤ stream.front.size) :
    ∃ i, first ≤ i ∧ i < last ∧ stream.front[i]? = some t := by
  have hpast : ¬ (first ≤ stream.front.size ∧ stream.front.size < last) := by omega
  unfold Stream.between at h
  rw [if_neg hpast] at h
  obtain ⟨i, hi, rfl⟩ := List.getElem_of_mem h
  simp only [Array.length_toList, Array.size_extract] at hi
  refine ⟨first + i, by omega, by omega, ?_⟩
  rw [Array.getElem?_eq_getElem (by omega)]
  simp

theorem foldl_max_le {ts : List Token} {start bound : Nat} (hs : start ≤ bound)
    (h : ∀ t ∈ ts, t.stop.line ≤ bound) :
    ts.foldl (fun n t => max n t.stop.line) start ≤ bound := by
  induction ts generalizing start with
  | nil => exact hs
  | cons t ts ih =>
    have ht := h t List.mem_cons_self
    exact ih (Nat.max_le.mpr ⟨hs, ht⟩) (fun u hu => h u (List.mem_cons_of_mem t hu))

theorem le_foldl_max {ts : List Token} {start : Nat} {t : Token} (h : t ∈ ts) :
    t.stop.line ≤ ts.foldl (fun n t => max n t.stop.line) start := by
  have hstart : ∀ (ts : List Token) (n : Nat),
      n ≤ ts.foldl (fun n t => max n t.stop.line) n := by
    intro ts
    induction ts with
    | nil => exact fun _ => Nat.le_refl _
    | cons u ts ih =>
      intro n
      exact Nat.le_trans (Nat.le_max_left _ _) (ih _)
  induction ts generalizing start with
  | nil => cases h
  | cons u ts ih =>
    rcases List.mem_cons.mp h with rfl | h
    · exact Nat.le_trans (Nat.le_max_right _ _) (hstart ts _)
    · exact ih h

/-- The tokens of a stream stand in order, as those of a source do. -/
structure Ordered (stream : Stream) : Prop where
  inOrder : LinesInOrder stream.front.toList
  line_le : ∀ t ∈ stream.front, t.start.line ≤ t.stop.line

theorem isCode_ne {k : TokenKind} (h : k.isCode = true) : k ≠ .indent ∧ k ≠ .dedent := by
  constructor <;> rintro rfl <;> cases h

/-- The lines of turns never go back: each turn from a line on starts on that line or later, ends
no earlier than it starts, and is followed by turns from its last line on. -/
def Ascends (stream : Stream) : Nat → List Turn → Prop
  | _, [] => True
  | line, t :: ts =>
    line ≤ t.first stream ∧ t.first stream ≤ t.last stream ∧ Ascends stream (t.last stream) ts

theorem tokenAt_of_lt {stream : Stream} {i : Nat} (h : i < stream.front.size) :
    stream.tokenAt i = stream.front[i] := by
  simp [Stream.tokenAt, h]

theorem line_le_of_lt {stream : Stream} (ho : Ordered stream) {i k : Nat} (hik : i < k)
    (hk : k < stream.front.size) (hcode : (stream.tokenAt k).kind.isCode = true) :
    (stream.tokenAt i).stop.line ≤ (stream.tokenAt k).start.line := by
  have hi : i < stream.front.size := by omega
  have hpair := List.pairwise_iff_getElem.mp ho.inOrder i k (by simpa using hi)
    (by simpa using hk) hik
  simp only [Array.getElem_toList] at hpair
  rw [tokenAt_of_lt hk] at hcode
  rw [tokenAt_of_lt hi, tokenAt_of_lt hk]
  exact hpair (isCode_ne hcode).1

/-- A turn ends no earlier than it starts. -/
theorem first_le_last {stream : Stream} (ho : Ordered stream) {t : Turn}
    (hlt : t.start < stream.front.size) (hcode : (stream.tokenAt t.start).kind.isCode = true)
    (hfor : t.start < t.stop) : t.first stream ≤ t.last stream := by
  have hat := tokenAt_of_lt hlt
  have hmem : stream.tokenAt t.start ∈ stream.between t.start t.stop := by
    have hfront : stream.tokenAt t.start ∈ (stream.front.extract t.start t.stop).toList := by
      rw [hat, Array.mem_toList_iff, Array.mem_extract_iff_getElem]
      exact ⟨0, by omega, by simp⟩
    unfold Stream.between
    dsimp only
    split
    · exact List.mem_append_left _ hfront
    · exact hfront
  have hline : (stream.tokenAt t.start).start.line ≤ (stream.tokenAt t.start).stop.line := by
    rw [hat]
    exact ho.line_le _ (Array.getElem_mem hlt)
  apply Nat.le_trans hline
  apply le_foldl_max
  rw [List.mem_filter]
  exact ⟨hmem, by simpa using (isCode_ne hcode).2⟩

/-- No token of code behind a turn starts before the last line of the turn. -/
theorem last_le_start {stream : Stream} (ho : Ordered stream) {t : Turn} {k : Nat}
    (htk : t.stop ≤ k) (hk : k < stream.front.size)
    (hcode : (stream.tokenAt k).kind.isCode = true) :
    t.last stream ≤ (stream.tokenAt k).start.line := by
  apply foldl_max_le (Nat.zero_le _)
  intro u hu
  obtain ⟨i, _, hi, hat⟩ := mem_between (List.mem_filter.mp hu).1 (by omega)
  have hui : u = stream.tokenAt i := by simp [Stream.tokenAt, hat]
  rw [hui]
  exact line_le_of_lt ho (by omega) hk hcode

theorem Walk.ascends {stream : Stream} (ho : Ordered stream) {i j line : Nat} {ts : List Turn}
    (h : Walk stream i ts j)
    (hline : ∀ k, i ≤ k → k < stream.front.size → (stream.tokenAt k).kind.isCode = true →
      line ≤ (stream.tokenAt k).start.line) : Ascends stream line ts := by
  induction h generalizing line with
  | done i => trivial
  | pass _ _ ih => exact ih (fun k hk => hline k (by omega))
  | turn hlt hcode hfor _ _ ih =>
    refine ⟨hline _ (Nat.le_refl _) hlt hcode, first_le_last ho hlt hcode hfor, ih ?_⟩
    intro k hk hks hkc
    exact last_le_start ho hk hks hkc

theorem Ascends.mem {stream : Stream} {line : Nat} {ts : List Turn} (h : Ascends stream line ts) :
    ∀ t ∈ ts, line ≤ t.first stream ∧ t.first stream ≤ t.last stream := by
  induction ts generalizing line with
  | nil => simp
  | cons u ts ih =>
    obtain ⟨h1, h2, h3⟩ := h
    intro t ht
    rcases List.mem_cons.mp ht with rfl | ht
    · exact ⟨h1, h2⟩
    · obtain ⟨h4, h5⟩ := ih h3 t ht
      exact ⟨by omega, h5⟩

theorem Ascends.pairwise {stream : Stream} {line : Nat} {ts : List Turn}
    (h : Ascends stream line ts) : ts.Pairwise fun t u => t.last stream ≤ u.first stream := by
  induction ts generalizing line with
  | nil => exact List.Pairwise.nil
  | cons t ts ih =>
    obtain ⟨_, _, h3⟩ := h
    rw [List.pairwise_cons]
    exact ⟨fun u hu => (h3.mem u hu).1, ih h3⟩

end PassRun

end SourceMacros
