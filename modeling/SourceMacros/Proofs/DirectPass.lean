-- What a text expands to. A direct pass resolves a reference by the registry alone, over a session
-- with no files. With pure plugins, every pass that succeeds gives what the direct pass gives:
-- files, packages and earlier references only decide whether it succeeds.
import SourceMacros.Proofs.Turns
import SourceMacros.Resolution

namespace SourceMacros

variable {μ : Type}

/-! ## Pure parsers -/

namespace Parser

variable {α β : Type}

/-- The parser that does what a function of the stream says. -/
def ofFunction (f : Stream → Except Error α × Stream) : Parser μ α := fun s =>
  match f s.stream with
  | (.ok value, stream) => .ok value { s with stream }
  | (.error error, stream) => .error error { s with stream }

/-- A parser that depends on the stream alone, and changes nothing else. -/
def Pure (parse : Parser μ α) : Prop := ∃ f, parse = ofFunction f

theorem pure_return (a : α) : Pure (pure a : Parser μ α) := ⟨fun stream => (.ok a, stream), rfl⟩

theorem pure_throw (e : Error) : Pure (throw e : Parser μ α) :=
  ⟨fun stream => (.error e, stream), rfl⟩

theorem pure_onStream (f : Stream → α × Stream) : Pure (onStream f : Parser μ α) :=
  ⟨fun stream => (.ok (f stream).1, (f stream).2), rfl⟩

theorem Pure.bind {parse : Parser μ α} {next : α → Parser μ β} (h : Pure parse)
    (hnext : ∀ a, Pure (next a)) : Pure (parse >>= next) := by
  obtain ⟨f, rfl⟩ := h
  have ⟨g, hg⟩ := Classical.axiomOfChoice hnext
  refine ⟨fun stream =>
    match f stream with
    | (.ok a, stream) => g a stream
    | (.error e, stream) => (.error e, stream), ?_⟩
  funext s
  cases hf : f s.stream with
  | mk result stream =>
    cases result with
    | ok a =>
      have hfirst : ofFunction f s = .ok a { s with stream } := by simp [ofFunction, hf]
      rw [bind_of_ok hfirst, hg a]
      simp [ofFunction, hf]
    | error e =>
      have hfirst : ofFunction f s = .error e { s with stream } := by simp [ofFunction, hf]
      rw [bind_of_error hfirst]
      simp [ofFunction, hf]

theorem pure_consume (m : Matcher) (context : String) :
    Pure (consume m context : Parser μ Token) := by
  unfold consume
  apply (pure_onStream _).bind
  intro result
  cases result with
  | ok token => exact pure_return token
  | error fault => exact pure_throw _

end Parser

theorem Directive.pure_parse : Parser.Pure (Directive.parse : Parser μ Directive) := by
  unfold Directive.parse
  apply (Parser.pure_consume _ _).bind
  intro _
  apply (Parser.pure_consume _ _).bind
  intro head
  apply Parser.Pure.bind (Parser.pure_onStream _)
  intro found
  cases found with
  | true =>
    apply (Parser.pure_consume _ _).bind
    intro member
    exact Parser.pure_return _
  | false => exact Parser.pure_return _

/-- A plugin that parses by the stream alone. Its other parts are functions anyway. -/
def Plugin.Pure (plugin : Plugin μ) : Prop := plugin.parse.Pure

theorem Plugin.Pure.expand {plugin : Plugin μ} (h : plugin.Pure) : plugin.expand.Pure := by
  have htree : plugin.parseAst.Pure := h.bind fun _ => Parser.pure_return _
  unfold Plugin.expand
  apply htree.bind
  intro tree
  cases plugin.lintAst tree with
  | error e => exact Parser.pure_throw e
  | ok _ =>
    cases plugin.translateAst tree with
    | error e => exact Parser.pure_throw e
    | ok text => exact Parser.pure_return text

/-- Every registered plugin is pure. -/
def Registry.Pure (r : Registry μ) : Prop := ∀ key plugin, r.lookup key = some plugin → plugin.Pure

theorem Registry.Pure.insert {r : Registry μ} (h : r.Pure) (key : PluginKey) {plugin : Plugin μ}
    (hp : plugin.Pure) : (r.insert key plugin).Pure := by
  intro other found hlookup
  by_cases hother : key = other
  · subst hother
    rw [Registry.lookup_insert_self] at hlookup
    cases hlookup
    exact hp
  · rw [Registry.lookup_insert_of_ne _ _ hother] at hlookup
    exact h other found hlookup

theorem Registry.pure_standard : (Registry.standard : Registry μ).Pure := by
  have hempty : ({} : Registry μ).Pure := by
    intro key plugin hlookup
    cases hlookup
  exact hempty.insert _ (Parser.pure_return _)

/-! ## Meanings -/

/-- What a definition does to a pass: the word that triggers it, and the plugin. -/
def Definition.meaning (d : Definition μ) : String × Plugin μ := (d.keyword, d.plugin)

/-- What a reference means by the registry alone. -/
def Registry.meaning? (r : Registry μ) (reference : String) : Option (String × Plugin μ) :=
  match Pieces.splitText Directive.separator reference with
  | [keyword] => (r.lookup (.builtin keyword)).map (keyword, ·)
  | [package, keyword] => (r.lookup (.package package keyword)).map (keyword, ·)
  | _ => none

theorem Registry.Pure.of_meaning {r : Registry μ} (h : r.Pure) {reference keyword : String}
    {plugin : Plugin μ} (hm : r.meaning? reference = some (keyword, plugin)) : plugin.Pure := by
  unfold Registry.meaning? at hm
  split at hm
  · obtain ⟨found, hfound, heq⟩ := Option.map_eq_some_iff.mp hm
    cases heq
    exact h _ _ hfound
  · obtain ⟨found, hfound, heq⟩ := Option.map_eq_some_iff.mp hm
    cases heq
    exact h _ _ hfound
  · cases hm

/-- Plugins are pure, and what was resolved before is what the registry says. -/
structure Session.Coherent (s : Session μ) : Prop where
  pure : s.registry.Pure
  cache : ∀ entry ∈ s.cache, s.registry.meaning? entry.1 = some entry.2.meaning

/-- The session without its files and without anything it learned from them. -/
def Session.bare (s : Session μ) : Session μ where
  settings := { importKeyword := s.settings.importKeyword }
  registry := s.registry
  searchRoot := ⟨"."⟩
  tree := ⟨[], []⟩
  memory := s.memory

/-- Resolves a reference by the registry alone. -/
def resolveDirectly (reference : String) : Run μ (Definition μ) := fun s =>
  match s.registry.meaning? reference with
  | some (keyword, plugin) =>
    .ok { reference, keyword, origin := .builtin none, key := .builtin keyword, plugin } s
  | none => .error (.resolution reference .malformedReference) s

/-- The direct pass over a text gives an output. -/
def Expands (s : Session μ) (name text output : String) : Prop :=
  ∃ after, expandTextVia resolveDirectly name text (s.bare, {}) = .ok output after

theorem Expands.unique {s : Session μ} {name text output other : String}
    (h : Expands s name text output) (h' : Expands s name text other) : output = other := by
  obtain ⟨_, h⟩ := h
  obtain ⟨_, h'⟩ := h'
  rw [h] at h'
  cases h'
  rfl

/-! ## A pass beside the direct pass -/

/-- Both accounts have the same output and the same meanings behind their keywords. -/
structure Pass.Alike (p q : Pass μ) : Prop where
  chunks : q.chunks = p.chunks
  emitted : q.emitted = p.emitted
  indentation : q.indentation = p.indentation
  meanings : q.available.map Definition.meaning = p.available.map Definition.meaning

namespace Pass.Alike

variable {p q : Pass μ}

theorem copyThrough (h : p.Alike q) (line : Nat) :
    (p.copyThrough line).Alike (q.copyThrough line) := by
  obtain ⟨hc, he, hi, hm⟩ := h
  unfold Pass.copyThrough
  rw [he]
  split
  · exact ⟨by rw [hc], rfl, hi, hm⟩
  · exact ⟨hc, he, hi, hm⟩

theorem skipThrough (h : p.Alike q) (line : Nat) :
    (p.skipThrough line).Alike (q.skipThrough line) :=
  ⟨h.chunks, by simp only [Pass.skipThrough, h.emitted], h.indentation, h.meanings⟩

theorem insert (h : p.Alike q) (text : String) : (p.insert text).Alike (q.insert text) :=
  ⟨by simp only [Pass.insert, h.chunks], h.emitted, h.indentation, h.meanings⟩

theorem indent (h : p.Alike q) (change : List Char → List Char) :
    Alike { p with indentation := change p.indentation }
      { q with indentation := change q.indentation } :=
  ⟨h.chunks, h.emitted, by rw [h.indentation], h.meanings⟩

/-- A word triggers the same in both. -/
theorem trigger (h : p.Alike q) (keyword : String) :
    (q.trigger? keyword).map Definition.meaning = (p.trigger? keyword).map Definition.meaning := by
  have hfind : ∀ ds : List (Definition μ),
      (ds.find? (·.keyword == keyword)).map Definition.meaning =
        (ds.map Definition.meaning).find? (·.1 == keyword) := by
    intro ds
    rw [List.find?_map]
    rfl
  unfold Pass.trigger?
  rw [hfind, hfind, h.meanings]

theorem keywords (h : p.Alike q) : q.keywords = p.keywords := by
  have hfirst := congrArg (List.map Prod.fst) h.meanings
  simpa [Definition.meaning, Pass.keywords, Function.comp_def] using hfirst

theorem render (h : p.Alike q) (table : LineTable) : q.render table = p.render table := by
  unfold Pass.render
  rw [h.chunks]

end Pass.Alike

/-- A resolver that answers with what the registry says, and that leaves a coherent session. -/
def Answers (resolve : String → Run μ (Definition μ)) : Prop :=
  ∀ reference s d s', s.Coherent → resolve reference s = .ok d s' →
    s.registry.meaning? reference = some d.meaning ∧ s'.bare = s.bare ∧ s'.Coherent

/-- A state of a pass, and the state of the direct pass beside it. -/
structure Mirrors (a b : PassState μ) : Prop where
  meanings : b.session.registry.meaning? = a.session.registry.meaning?
  keyword : b.session.settings.importKeyword = a.session.settings.importKeyword
  ready : b.session.interrupted = false
  stream : b.stream = a.stream
  pass : a.pass.Alike b.pass
  coherent : a.session.Coherent
  imported : ∀ d ∈ a.pass.available, d.plugin.Pure

section

variable {resolve : String → Run μ (Definition μ)} {a a' b : PassState μ}

theorem Mirrors.update (hm : Mirrors a b) {p q : Pass μ} (h : p.Alike q)
    (hi : p.available = a.pass.available) : Mirrors { a with pass := p } { b with pass := q } :=
  ⟨hm.meanings, hm.keyword, hm.ready, hm.stream, h, hm.coherent, by rw [hi]; exact hm.imported⟩

theorem Mirrors.add (hm : Mirrors a b) {d e : Definition μ} (he : e.meaning = d.meaning)
    (hd : d.plugin.Pure) :
    Mirrors { a with pass := { a.pass with available := a.pass.available ++ [d] } }
      { b with pass := { b.pass with available := b.pass.available ++ [e] } } := by
  obtain ⟨hc, hl, hi, hmeanings⟩ := hm.pass
  refine ⟨hm.meanings, hm.keyword, hm.ready, hm.stream, ⟨hc, hl, hi, by simp [hmeanings, he]⟩,
    hm.coherent, ?_⟩
  intro f hf
  rcases List.mem_append.mp hf with hf | hf
  · exact hm.imported f hf
  · rw [List.mem_singleton.mp hf]
    exact hd

/-- A resolver that answers brings both states to the same meaning. -/
theorem Mirrors.resolved (hr : Answers resolve) (hm : Mirrors a b) {reference : String}
    {d : Definition μ} {session : Session μ} (h : resolve reference a.session = .ok d session) :
    ∃ e, resolveDirectly reference b.session = .ok e b.session ∧ e.meaning = d.meaning ∧
      d.plugin.Pure ∧ Mirrors { a with session } b := by
  obtain ⟨hmeaning, hbare, hcoherent⟩ := hr _ _ _ _ hm.coherent h
  have hregistry : session.bare.registry = a.session.bare.registry := by rw [hbare]
  have hkeyword : session.bare.settings.importKeyword = a.session.bare.settings.importKeyword := by
    rw [hbare]
  refine ⟨⟨reference, d.keyword, .builtin none, .builtin d.keyword, d.plugin⟩, ?_, rfl,
    hm.coherent.pure.of_meaning hmeaning, ?_⟩
  · unfold resolveDirectly
    rw [hm.meanings, hmeaning]
    rfl
  · exact ⟨hm.meanings.trans (congrArg Registry.meaning? hregistry.symm),
      hm.keyword.trans hkeyword.symm, hm.ready, hm.stream, hm.pass, hcoherent, hm.imported⟩

end

namespace PassRun

variable {resolve : String → Run μ (Definition μ)} {a a' b : PassState μ}

/-- A pure parser does the same to both states. -/
theorem onStream_mirrors {α : Type} {parse : Parser μ α} (hp : parse.Pure) (hm : Mirrors a b)
    {value : α} (h : onStream parse a = .ok value a') :
    a'.pass = a.pass ∧ ∃ b', onStream parse b = .ok value b' ∧ b'.pass = b.pass ∧
      Mirrors a' b' := by
  obtain ⟨f, rfl⟩ := hp
  unfold onStream Parser.ofFunction at h ⊢
  rw [hm.stream]
  dsimp only at h ⊢
  cases hf : f a.stream with
  | mk result stream =>
    rw [hf] at h
    cases result with
    | error e => cases h
    | ok v =>
      cases h
      exact ⟨rfl, _, rfl, rfl, hm.meanings, hm.keyword, hm.ready, rfl, hm.pass, hm.coherent,
        hm.imported⟩

theorem replaceFrom_mirrors (hm : Mirrors a b) {start : Nat}
    (h : replaceFrom start a = .ok () a') :
    ∃ b', replaceFrom start b = .ok () b' ∧ Mirrors a' b' := by
  cases h
  refine ⟨_, rfl, ?_⟩
  have hline : lastLine b.stream start b.stream.cursor = lastLine a.stream start a.stream.cursor :=
    by rw [hm.stream]
  have := hm.update (hm.pass.skipThrough (lastLine a.stream start a.stream.cursor)) rfl
  rw [← hline] at this
  simpa [hm.stream] using this

theorem importDirective_mirrors (hr : Answers resolve) (hm : Mirrors a b) {keyword : Token}
    {start : Nat} (h : importDirective resolve keyword start a = .ok () a') :
    ∃ b', importDirective resolveDirectly keyword start b = .ok () b' ∧ Mirrors a' b' := by
  unfold importDirective at h ⊢
  obtain ⟨_, a₁, h0, h⟩ := bind_eq_ok.mp h
  cases h0
  have hm₁ := hm.update (hm.pass.copyThrough (keyword.start.line - 1)) (by simp)
  obtain ⟨directive, a₂, hparse, h⟩ := bind_eq_ok.mp h
  obtain ⟨_, b₂, hparse', _, hm₂⟩ := onStream_mirrors Directive.pure_parse hm₁ hparse
  obtain ⟨d, a₃, hresolve, h⟩ := bind_eq_ok.mp h
  unfold onSession at hresolve
  split at hresolve
  · next hd =>
    cases hresolve
    obtain ⟨e, hdirect, hmeaning, hpure, hm₃⟩ := hm₂.resolved hr hd
    have hdirect' : onSession (resolveDirectly directive.reference) b₂ = .ok e b₂ := by
      unfold onSession
      rw [hdirect]
    obtain ⟨_, a₄, h4, h⟩ := bind_eq_ok.mp h
    cases h4
    obtain ⟨_, a₅, h5, h⟩ := bind_eq_ok.mp h
    cases h5
    have hm₄ := hm₃.add hmeaning hpure
    have hm₅ := hm₄.update (hm₄.pass.insert directive.comment) (by simp)
    obtain ⟨b', hb', hm'⟩ := replaceFrom_mirrors hm₅ h
    refine ⟨b', ?_, hm'⟩
    rw [bind_of_ok (update_apply _ _), bind_of_ok hparse', bind_of_ok hdirect',
      bind_of_ok (update_apply _ _), bind_of_ok (update_apply _ _)]
    exact hb'
  · cases hresolve

theorem invocation_mirrors (hm : Mirrors a b) {d e : Definition μ} (he : e.meaning = d.meaning)
    (hd : d.plugin.Pure) {keyword : Token} {start : Nat}
    (h : invocation d keyword start a = .ok () a') :
    ∃ b', invocation e keyword start b = .ok () b' ∧ Mirrors a' b' := by
  have hplugin : e.plugin = d.plugin := congrArg Prod.snd he
  unfold invocation at h ⊢
  rw [hplugin]
  obtain ⟨_, a₁, h0, h⟩ := bind_eq_ok.mp h
  cases h0
  have hm₁ := hm.update (hm.pass.copyThrough (keyword.start.line - 1)) (by simp)
  obtain ⟨text, a₂, hparse, h⟩ := bind_eq_ok.mp h
  obtain ⟨_, b₂, hparse', _, hm₂⟩ := onStream_mirrors hd.expand hm₁ hparse
  obtain ⟨_, a₃, h3, h⟩ := bind_eq_ok.mp h
  cases h3
  have hm₃ := hm₂.update (hm₂.pass.insert (spliced a₂.pass.indentation text)) (by simp)
  obtain ⟨b', hb', hm'⟩ := replaceFrom_mirrors hm₃ h
  refine ⟨b', ?_, hm'⟩
  rw [bind_of_ok (update_apply _ _), bind_of_ok hparse', bind_of_ok (update_apply _ _),
    hm₂.pass.indentation]
  exact hb'

theorem plain_mirrors (hm : Mirrors a b) {token : Token} (h : plain token a = .ok () a') :
    ∃ b', plain token b = .ok () b' ∧ Mirrors a' b' := by
  rcases plain_eq (μ := μ) token with heq | heq
  · rw [heq] at h ⊢
    cases h
    exact ⟨b, rfl, hm⟩
  · rw [heq] at h ⊢
    cases h
    exact ⟨_, rfl, hm.update (hm.pass.copyThrough token.stop.line) (by simp)⟩

/-- A step beside a step of the direct pass. -/
theorem step_mirrors (hr : Answers resolve) (hm : Mirrors a b) (h : step resolve a = .ok () a') :
    ∃ b', step resolveDirectly b = .ok () b' ∧ Mirrors a' b' := by
  unfold step at h ⊢
  obtain ⟨_, _, h0, h⟩ := bind_eq_ok.mp h
  cases h0
  split at h
  · simp [bind, EStateM.bind] at h
  · obtain ⟨_, _, h0, h⟩ := bind_eq_ok.mp h
    cases h0
    have hm₁ : Mirrors { a with stream := a.stream.skip } { b with stream := b.stream.skip } :=
      ⟨hm.meanings, hm.keyword, hm.ready, by rw [hm.stream], hm.pass, hm.coherent, hm.imported⟩
    rw [bind_of_ok (get_apply b)]
    simp only [hm.ready, Bool.false_eq_true, if_false]
    rw [bind_of_ok (set_apply _ _)]
    rw [hm.stream] at hm₁ ⊢
    rw [hm.keyword]
    cases hk : a.stream.peek.kind with
    | indent =>
      simp only [hk] at h
      cases h
      exact ⟨_, rfl, hm₁.update (hm₁.pass.indent (· ++ a.stream.peek.text.toList)) rfl⟩
    | dedent =>
      simp only [hk] at h
      cases h
      exact ⟨_, rfl, hm₁.update (hm₁.pass.indent fun indentation =>
        indentation.take (indentation.length - a.stream.peek.text.length)) rfl⟩
    | newline | number | string | operator | comment | blankBreak | endMarker =>
      simp only [hk] at h
      exact plain_mirrors hm₁ h
    | name =>
      simp only [hk] at h ⊢
      split at h
      · next himport =>
        rw [if_pos himport]
        exact importDirective_mirrors hr hm₁ h
      · next himport =>
        rw [if_neg himport]
        have htrigger := hm.pass.trigger a.stream.peek.text
        cases ha : a.pass.trigger? a.stream.peek.text with
        | none =>
          rw [ha] at htrigger
          simp only [ha] at h
          simp only [Option.map_eq_none_iff.mp htrigger]
          exact plain_mirrors hm₁ h
        | some d =>
          rw [ha] at htrigger
          obtain ⟨e, he, hmeaning⟩ := Option.map_eq_some_iff.mp htrigger
          simp only [ha] at h
          simp only [he]
          exact invocation_mirrors hm₁ hmeaning
            (hm.imported d (List.mem_of_find?_eq_some ha)) h

theorem steps_mirror (hr : Answers resolve) (n : Nat) (hm : Mirrors a b)
    (h : steps resolve n a = .ok () a') :
    ∃ b', steps resolveDirectly n b = .ok () b' ∧ Mirrors a' b' := by
  induction n generalizing a b with
  | zero =>
    cases h
    exact ⟨b, rfl, hm⟩
  | succ n ih =>
    unfold steps at h ⊢
    obtain ⟨_, _, h0, h⟩ := bind_eq_ok.mp h
    cases h0
    rw [bind_of_ok (get_apply b), hm.stream]
    split at h
    · next hend =>
      cases h
      exact ⟨b, by rw [if_pos hend]; rfl, hm⟩
    · next hend =>
      obtain ⟨_, a₁, hstep, h⟩ := bind_eq_ok.mp h
      obtain ⟨b₁, hstep', hm₁⟩ := step_mirrors hr hm hstep
      obtain ⟨b', hsteps', hm'⟩ := ih hm₁ h
      exact ⟨b', by rw [if_neg hend, bind_of_ok hstep', hsteps'], hm'⟩

end PassRun

/-- A pass over a coherent session that succeeds gives what the direct pass gives over any other
session with the same import keyword and the same meanings. -/
theorem directly_of_ok {resolve : String → Run μ (Definition μ)} (hr : Answers resolve)
    {s t : Session μ} (hs : s.Coherent) (hmeanings : t.registry.meaning? = s.registry.meaning?)
    (hkeyword : t.settings.importKeyword = s.settings.importKeyword)
    (hready : t.interrupted = false) {pass : Pass μ} {name text output : String}
    {after : Session μ × Pass μ}
    (h : expandTextVia resolve name text (s, pass) = .ok output after) :
    ∃ direct, expandTextVia resolveDirectly name text (t, {}) = .ok output direct ∧
      direct.2.keywords = after.2.keywords := by
  unfold expandTextVia at h
  dsimp only at h
  split at h
  · cases h
  · next stream hstream =>
    split at h
    · next hpass =>
      cases h
      obtain ⟨a, hsteps, rfl, rfl⟩ := PassRun.expandStream_eq_ok hpass
      have hstart : Mirrors (μ := μ) { session := s, stream, pass := {} }
          { session := t, stream, pass := {} } :=
        ⟨hmeanings, hkeyword, hready, rfl, ⟨rfl, rfl, rfl, rfl⟩, hs, by simp⟩
      obtain ⟨b, hsteps', hm⟩ := PassRun.steps_mirror hr _ hstart hsteps
      have hdirect := PassRun.expandStream_of_steps
        (s := { session := t, stream, pass := {} }) hsteps'
      rw [hm.stream, (hm.pass.copyThrough _).render] at hdirect
      unfold expandTextVia
      simp only [hstream, hdirect]
      exact ⟨_, rfl, (hm.pass.copyThrough _).keywords⟩
    · cases h

/-- A pass over a coherent session that succeeds gives what the direct pass gives. -/
theorem expands_of_ok {resolve : String → Run μ (Definition μ)} (hr : Answers resolve)
    {s : Session μ} (hs : s.Coherent) {pass : Pass μ} {name text output : String}
    {after : Session μ × Pass μ}
    (h : expandTextVia resolve name text (s, pass) = .ok output after) :
    Expands s name text output := by
  obtain ⟨direct, hdirect, -⟩ := directly_of_ok (t := s.bare) hr hs rfl rfl rfl h
  exact ⟨direct, hdirect⟩

end SourceMacros
