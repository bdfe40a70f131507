-- Import directives and their references. The parser takes the tokens that spell a directive and no
-- others, and stops at the first one that does not fit. A reference is written with a point between
-- the names, and as no name of a source holds a point, reading it gives the names back.
import SourceMacros.Proofs.Cursor
import SourceMacros.Proofs.FailingSteps
import SourceMacros.Proofs.LeadingBlanks
import SourceMacros.Proofs.Nesting
import SourceMacros.Proofs.Splicing

namespace SourceMacros

variable {μ : Type}

/-! ## The grammar -/

namespace Directive

/-- The word that every directive starts with. -/
def IsImport (t : Token) : Prop := t.kind = .name ∧ t.text = "import"

/-- What stands between the two names of a directive. -/
def IsPoint (t : Token) : Prop := t.kind = .operator ∧ t.text = "."

/-- Tokens that spell a directive, and how many of them do. -/
inductive Spells (ahead : Nat → Token) : Directive → Nat → Prop
  | single : IsImport (ahead 0) → (ahead 1).kind = .name → ¬ IsPoint (ahead 2) →
      Spells ahead ⟨ahead 1, none⟩ 2
  | pair : IsImport (ahead 0) → (ahead 1).kind = .name → IsPoint (ahead 2) →
      (ahead 3).kind = .name → Spells ahead ⟨ahead 1, some (ahead 3)⟩ 4

/-- The first of some tokens that fits no directive, and what should stand there. -/
inductive Breaks (ahead : Nat → Token) : Nat → String → Prop
  | keyword : ¬ IsImport (ahead 0) → Breaks ahead 0 "Expected the keyword 'import'"
  | head : IsImport (ahead 0) → (ahead 1).kind ≠ .name →
      Breaks ahead 1 "Expected the name of your module"
  | member : IsImport (ahead 0) → (ahead 1).kind = .name → IsPoint (ahead 2) →
      (ahead 3).kind ≠ .name → Breaks ahead 3 "Expected the name of the macro file"

theorem accepts_import {t : Token} : (Matcher.name "import").accepts t = true ↔ IsImport t := by
  simp only [Matcher.accepts, Matcher.name, IsImport, Option.all_some, Bool.and_eq_true, beq_iff_eq]
  exact and_congr eq_comm eq_comm

theorem accepts_name {t : Token} : (Matcher.ofKind .name).accepts t = true ↔ t.kind = .name := by
  simp only [Matcher.accepts, Matcher.ofKind, Option.all_some, Option.all_none, Bool.and_true,
    beq_iff_eq]
  exact eq_comm

theorem accepts_point {t : Token} :
    (Matcher.operator separator.toString).accepts t = true ↔ IsPoint t := by
  simp only [Matcher.accepts, Matcher.operator, IsPoint, Option.all_some, Bool.and_eq_true,
    beq_iff_eq]
  exact and_congr eq_comm eq_comm

end Directive

/-! ## The parser -/

namespace ParseState

/-- The token so many places behind the cursor. -/
def ahead (st : ParseState μ) (n : Nat) : Token := st.stream.tokenAt (st.stream.cursor + n)

/-- The state with the cursor so many places further. -/
def moved (st : ParseState μ) (n : Nat) : ParseState μ :=
  { st with stream := { st.stream with cursor := st.stream.cursor + n } }

theorem moved_zero (st : ParseState μ) : st.moved 0 = st := rfl

end ParseState

namespace Parser

variable {st : ParseState μ} {n : Nat} {m : Matcher}

/-- A matcher that asks for a name or an operator accepts no end marker. -/
theorem check_moved (hm : m.kind = some .name ∨ m.kind = some .operator) :
    (st.moved n).stream.check m = m.accepts (st.ahead n) := by
  change (!(st.moved n).stream.atEnd && m.accepts (st.ahead n)) = m.accepts (st.ahead n)
  cases haccepts : m.accepts (st.ahead n) with
  | false => simp
  | true =>
    have hkind : (st.moved n).stream.peek.kind ≠ .endMarker := by
      intro hend
      change (st.ahead n).kind = .endMarker at hend
      rcases hm with hm | hm <;> simp [Matcher.accepts, hm, hend] at haccepts
    simp [Stream.atEnd, hkind]

theorem skip_moved (h : (st.moved n).stream.check m = true) :
    (st.moved n).stream.skip = (st.moved (n + 1)).stream := by
  rw [Stream.check, Bool.and_eq_true, Bool.not_eq_true'] at h
  rw [Stream.skip, h.1]
  rfl

theorem consume_of_accepts (hm : m.kind = some .name ∨ m.kind = some .operator)
    (h : m.accepts (st.ahead n) = true) (context : String) :
    consume m context (st.moved n) = .ok (st.ahead n) (st.moved (n + 1)) := by
  have hcheck := (check_moved hm).trans h
  have hstep : onStream (·.consume m context) (st.moved n) =
      .ok (.ok (st.ahead n)) (st.moved (n + 1)) := by
    simp only [onStream, Stream.consume, hcheck, if_true, skip_moved hcheck]
    rfl
  rw [consume, bind_of_ok hstep]
  rfl

theorem consume_of_refuses (hm : m.kind = some .name ∨ m.kind = some .operator)
    (h : ¬ m.accepts (st.ahead n) = true) (context : String) :
    consume m context (st.moved n) =
      .error (.grammar (Stream.faultAt st.stream.source context (st.ahead n))) (st.moved n) := by
  rw [← check_moved hm] at h
  have hstep : onStream (·.consume m context) (st.moved n) =
      .ok (.error (Stream.faultAt st.stream.source context (st.ahead n))) (st.moved n) := by
    simp only [onStream, Stream.consume, h, Bool.false_eq_true, if_false]
    rfl
  rw [consume, bind_of_ok hstep]
  rfl

theorem tryMatch_moved (hm : m.kind = some .name ∨ m.kind = some .operator) :
    tryMatch [m] (st.moved n) = .ok (m.accepts (st.ahead n))
      (st.moved (if m.accepts (st.ahead n) = true then n + 1 else n)) := by
  simp only [tryMatch, onStream, Stream.tryMatch, List.any_cons, List.any_nil, Bool.or_false]
  rw [← check_moved hm]
  cases hcheck : (st.moved n).stream.check m with
  | true =>
    simp only [if_true, skip_moved hcheck]
    rfl
  | false => rfl

end Parser

namespace Directive

variable {st st' : ParseState μ}

/-- Parses what may follow the first name of a directive. -/
def parseMember (head : Token) : Parser μ Directive := do
  if ← Parser.tryMatch [.operator separator.toString] then
    let member ← Parser.consume (.ofKind .name) "Expected the name of the macro file"
    return ⟨head, some member⟩
  else
    return ⟨head, none⟩

theorem parse_of_names (himport : IsImport (st.ahead 0)) (hhead : (st.ahead 1).kind = .name) :
    parse st = parseMember (st.ahead 1) (st.moved 2) := by
  rw [parse, ← st.moved_zero,
    bind_of_ok (Parser.consume_of_accepts (Or.inl rfl) (accepts_import.mpr himport) _),
    bind_of_ok (Parser.consume_of_accepts (Or.inl rfl) (accepts_name.mpr hhead) _)]
  rfl

theorem parseMember_of_point (head : Token) (hpoint : IsPoint (st.ahead 2)) :
    parseMember head (st.moved 2) = (do
      let member ← Parser.consume (.ofKind .name) "Expected the name of the macro file"
      return ⟨head, some member⟩ : Parser μ Directive) (st.moved 3) := by
  rw [parseMember, bind_of_ok (Parser.tryMatch_moved (Or.inr rfl)), accepts_point.mpr hpoint]
  rfl

/-- Tokens that spell a directive are parsed to it. -/
theorem Spells.parse {d : Directive} {n : Nat} (h : Spells st.ahead d n) :
    parse st = .ok d (st.moved n) := by
  cases h with
  | single himport hhead hpoint =>
    rw [← accepts_point, Bool.not_eq_true] at hpoint
    rw [parse_of_names himport hhead, parseMember,
      bind_of_ok (Parser.tryMatch_moved (Or.inr rfl)), hpoint]
    rfl
  | pair himport hhead hpoint hmember =>
    rw [parse_of_names himport hhead, parseMember_of_point _ hpoint,
      bind_of_ok (Parser.consume_of_accepts (Or.inl rfl) (accepts_name.mpr hmember) _)]
    rfl

/-- At the first token that fits no directive the parser fails. -/
theorem Breaks.parse {n : Nat} {context : String} (h : Breaks st.ahead n context) :
    parse st = .error (.grammar (Stream.faultAt st.stream.source context (st.ahead n)))
      (st.moved n) := by
  cases h with
  | keyword himport =>
    rw [Directive.parse, ← st.moved_zero, bind_of_error
      (Parser.consume_of_refuses (Or.inl rfl) (mt accepts_import.mp himport) _)]
    rfl
  | head himport hhead =>
    rw [Directive.parse, ← st.moved_zero,
      bind_of_ok (Parser.consume_of_accepts (Or.inl rfl) (accepts_import.mpr himport) _),
      bind_of_error (Parser.consume_of_refuses (Or.inl rfl) (mt accepts_name.mp hhead) _)]
    rfl
  | member himport hhead hpoint hmember =>
    rw [parse_of_names himport hhead, parseMember_of_point _ hpoint,
      bind_of_error (Parser.consume_of_refuses (Or.inl rfl) (mt accepts_name.mp hmember) _)]

/-- Of any tokens, either some spell a directive or one is the first that fits none. -/
theorem spells_or_breaks (ahead : Nat → Token) :
    (∃ d n, Spells ahead d n) ∨ ∃ n context, Breaks ahead n context := by
  by_cases himport : IsImport (ahead 0)
  · by_cases hhead : (ahead 1).kind = .name
    · by_cases hpoint : IsPoint (ahead 2)
      · by_cases hmember : (ahead 3).kind = .name
        · exact Or.inl ⟨_, _, .pair himport hhead hpoint hmember⟩
        · exact Or.inr ⟨_, _, .member himport hhead hpoint hmember⟩
      · exact Or.inl ⟨_, _, .single himport hhead hpoint⟩
    · exact Or.inr ⟨_, _, .head himport hhead⟩
  · exact Or.inr ⟨_, _, .keyword himport⟩

theorem parse_eq_ok_iff {d : Directive} :
    parse st = .ok d st' ↔ ∃ n, Spells st.ahead d n ∧ st' = st.moved n := by
  constructor
  · intro h
    rcases spells_or_breaks st.ahead with ⟨d', n, hspells⟩ | ⟨n, context, hbreaks⟩
    · rw [hspells.parse] at h
      cases h
      exact ⟨n, hspells, rfl⟩
    · rw [hbreaks.parse] at h
      cases h
  · rintro ⟨n, hspells, rfl⟩
    exact hspells.parse

theorem parse_eq_error_iff {e : Error} :
    parse st = .error e st' ↔ ∃ n context, Breaks st.ahead n context ∧ st' = st.moved n ∧
      e = .grammar (Stream.faultAt st.stream.source context (st.ahead n)) := by
  constructor
  · intro h
    rcases spells_or_breaks st.ahead with ⟨d, n, hspells⟩ | ⟨n, context, hbreaks⟩
    · rw [hspells.parse] at h
      cases h
    · rw [hbreaks.parse] at h
      cases h
      exact ⟨n, context, hbreaks, rfl, rfl⟩
  · rintro ⟨n, context, hbreaks, rfl, rfl⟩
    exact hbreaks.parse

end Directive

/-! ## Names of a source -/

namespace Lexeme

/-- How a name is spelled. -/
def IsName (cs : List Char) : Prop :=
  ∃ c rest, cs = c :: rest ∧ NameChar.isStart c = true ∧ ∀ d ∈ rest, NameChar.isContinue d = true

theorem Starts.isName {c : Char} {cs : List Char} {n : Nat} (h : Starts c cs .name n) :
    IsName (c :: cs.take n) := by
  cases h with
  | name hc =>
    rw [← List.prefix_iff_eq_take.mp (List.takeWhile_prefix NameChar.isContinue)]
    exact ⟨c, _, rfl, hc, fun d hd => List.mem_takeWhile_imp hd⟩

theorem Scanned.isName {cs left : List Char} {lexemes : List Lexeme}
    (h : Scanned cs lexemes left) : ∀ l ∈ lexemes, l.kind = .name → IsName l.text := by
  induction h with
  | nil => simp
  | cons hstarts _ ih =>
    refine List.forall_mem_cons.mpr ⟨?_, ih⟩
    rintro rfl
    exact hstarts.isName

/-- No name holds a point. -/
theorem IsName.not_mem {cs : List Char} (h : IsName cs) : Directive.separator ∉ cs := by
  have hpoint : NameChar.isStart Directive.separator = false ∧
      NameChar.isContinue Directive.separator = false := by decide
  obtain ⟨c, rest, rfl, hc, hrest⟩ := h
  intro hmem
  rcases List.mem_cons.mp hmem with rfl | hmem
  · simp [hpoint] at hc
  · have hcontinue := hrest _ hmem
    simp [hpoint] at hcontinue

end Lexeme

namespace Layout

variable {s s' : Layout} {marks : List Mark}

/-- What says something is a lexeme of its kind. -/
theorem Moves.significant {lexeme : Lexeme} {span : Span} (h : s.Moves lexeme span marks s') :
    ∀ m ∈ marks, m.kind.isSignificant = true →
      lexeme.kind.significant? = some m.kind ∧ m.text = String.ofList lexeme.text := by
  intro m hm hsig
  cases h with
  | skips | indents => cases hm
  | comments | wraps | blanks | ends =>
    rw [List.mem_singleton.mp hm] at hsig
    cases hsig
  | starts hkind _ _ hindents =>
    rcases List.mem_append.mp hm with hm | hm
    · rw [isSignificant_of_blockMark (hindents.isBlockMark m hm)] at hsig
      cases hsig
    · rw [List.mem_singleton.mp hm]
      exact ⟨hkind, rfl⟩
  | continues hkind =>
    rw [List.mem_singleton.mp hm]
    exact ⟨hkind, rfl⟩

theorem Passes.significant {offset : Nat} {lexemes : List Lexeme}
    (h : s.Passes offset lexemes marks s') : ∀ m ∈ marks, m.kind.isSignificant = true →
      ∃ l ∈ lexemes, l.kind.significant? = some m.kind ∧ m.text = String.ofList l.text := by
  induction h with
  | nil => simp
  | cons hstep _ ih =>
    intro m hm hsig
    rcases List.mem_append.mp hm with hm | hm
    · exact ⟨_, List.mem_cons_self, (step_moves hstep).significant m hm hsig⟩
    · obtain ⟨l, hl, hmark⟩ := ih m hm hsig
      exact ⟨l, List.mem_cons_of_mem _ hl, hmark⟩

end Layout

/-- A name among the tokens of a source is spelled as one. -/
theorem tokenize_isName {name text : String} {tokens : List Token}
    (h : tokenize name text = .ok tokens) :
    ∀ t ∈ tokens, t.kind = .name → Lexeme.IsName t.text.toList := by
  obtain ⟨found, hmarks, rfl⟩ := tokenize_eq_ok h
  obtain ⟨left, hscanned, -⟩ := Lexeme.scan_scanned text.toList
  rw [Layout.marks_eq_run] at hmarks
  obtain ⟨marks, s, later, hpasses, hfinish, hfound⟩ := Layout.run_eq_ok hmarks
  intro t ht hkind
  obtain ⟨m, hm, rfl⟩ := List.mem_map.mp ht
  change m.kind = .name at hkind
  have hsig : m.kind.isSignificant = true := by rw [hkind]; rfl
  rw [hfound] at hm
  rcases List.mem_append.mp hm with hm | hm
  · obtain ⟨l, hl, hlexeme, htext⟩ := hpasses.significant m hm hsig
    have hname : l.kind = .name := by
      rw [hkind] at hlexeme
      cases hl : l.kind <;> simp_all [LexemeKind.significant?]
    change Lexeme.IsName m.text.toList
    rw [htext, String.toList_ofList]
    exact hscanned.isName l hl hname
  · rw [(Layout.finish_insignificant hfinish m hm).1] at hsig
    cases hsig

/-! ## References -/

namespace Directive

/-- The names of a directive, in order. -/
def names (d : Directive) : List String := d.head.text :: (d.member.map Token.text).toList

/-- Reading a reference gives the names back, if none of them holds a point. -/
theorem splitText_reference {d : Directive} (h : ∀ name ∈ d.names, separator ∉ name.toList) :
    Pieces.splitText separator d.reference = d.names := by
  obtain ⟨head, member⟩ := d
  cases member with
  | none =>
    have hhead : separator ∉ head.text.toList := h _ (by simp [names])
    simp [Pieces.splitText, reference, names, Pieces.split_of_not_mem separator hhead]
  | some member =>
    have hhead : separator ∉ head.text.toList := h _ (by simp [names])
    have hmember : separator ∉ member.text.toList := h _ (by simp [names])
    simp [Pieces.splitText, reference, names, Pieces.split_append separator hhead,
      Pieces.split_of_not_mem separator hmember]

/-- Resolves a directive by its names: one asks for a built-in macro, two for a macro of a
package. -/
def resolveNames (resolve : String → Run μ (Definition μ)) (d : Directive) :
    Run μ (Definition μ) := do
  match d.member with
  | none => Run.ofExcept (resolveBuiltin (← get) d.head.text)
  | some member =>
    match packageFolder? (← get) d.head.text with
    | none => throw (.resolution d.reference (.noPackageDirectory d.head.text))
    | some dir => loadPackage resolve dir d.reference d.head.text member.text

/-- Resolves a directive by its names, and remembers what it was resolved to. -/
def resolveNamed (resolve : String → Run μ (Definition μ)) (d : Directive) :
    Run μ (Definition μ) := do
  match (← get).cached? d.reference with
  | some definition => return definition
  | none =>
    let definition ← d.resolveNames resolve
    modify (·.remember d.reference definition)
    return definition

/-- A reference whose names are read back is resolved by its names. -/
theorem resolveNew_reference (resolve : String → Run μ (Definition μ)) {d : Directive}
    (hsplit : Pieces.splitText separator d.reference = d.names) (hne : "" ∉ d.names) :
    resolveNew resolve d.reference = d.resolveNames resolve := by
  obtain ⟨head, member⟩ := d
  cases member with
  | none =>
    have hhead : (head.text == "") = false :=
      beq_eq_false_iff_ne.mpr fun heq => hne (by simp [names, heq])
    unfold resolveNew resolveNames
    rw [hsplit]
    simp only [names, Option.map_none, Option.toList_none, hhead, Bool.false_eq_true, if_false]
  | some member =>
    have hnames : (head.text == "" || member.text == "") = false := by
      rw [Bool.or_eq_false_iff, beq_eq_false_iff_ne, beq_eq_false_iff_ne]
      exact ⟨fun heq => hne (by simp [names, heq]), fun heq => hne (by simp [names, heq])⟩
    funext s
    rw [resolveNew_of_package hsplit hnames, resolveNames]
    dsimp only
    rw [bind_of_ok (get_apply s)]
    cases packageFolder? s head.text with
    | none => rfl
    | some dir => rfl

theorem resolveVia_reference (resolve : String → Run μ (Definition μ)) {d : Directive}
    (hsplit : Pieces.splitText separator d.reference = d.names) (hne : "" ∉ d.names) :
    resolveVia resolve d.reference = d.resolveNamed resolve := by
  have hnew := resolveNew_reference resolve hsplit hne
  unfold resolveVia resolveNamed
  generalize resolveNew resolve d.reference = run at hnew ⊢
  subst hnew
  rfl

theorem resolve_reference {d : Directive}
    (hsplit : Pieces.splitText separator d.reference = d.names) (hne : "" ∉ d.names)
    (s : Session μ) :
    resolve d.reference s = d.resolveNamed (resolveWithin (s.depth - 1)) s := by
  have hwithin : resolve d.reference s = resolveWithin s.depth d.reference s := by
    unfold resolve
    exact bind_of_ok (get_apply s)
  obtain ⟨depth, hdepth⟩ : ∃ depth, s.depth = depth + 1 := ⟨s.depth - 1, by
    unfold Session.depth
    omega⟩
  rw [hwithin, hdepth, Nat.add_sub_cancel, ← resolveVia_reference _ hsplit hne]
  rfl

/-- The names of a directive are names. -/
theorem Spells.names {ahead : Nat → Token} {d : Directive} {n : Nat} (h : Spells ahead d n) :
    ∀ name ∈ d.names, ∃ i, (ahead i).kind = .name ∧ (ahead i).text = name := by
  cases h with
  | single _ hhead =>
    intro name hname
    rw [List.mem_singleton.mp hname]
    exact ⟨1, hhead, rfl⟩
  | pair _ hhead _ hmember =>
    intro name hname
    rcases List.mem_cons.mp hname with rfl | hname
    · exact ⟨1, hhead, rfl⟩
    · rw [List.mem_singleton.mp hname]
      exact ⟨3, hmember, rfl⟩

/-! ## The law -/

/-- A directive is parsed exactly when the tokens from the cursor on spell it, and then these are
taken; else the parser stands at the first token that fits no directive, with a fault there. Reading
the reference of a directive of a source gives its names back, and none is empty, so it is resolved
by its names and is never malformed. -/
theorem directives_are_parsed_whole_and_read_back (st : ParseState μ) :
    (∀ d st', parse st = .ok d st' ↔ ∃ n, Spells st.ahead d n ∧ st' = st.moved n) ∧
    (∀ e st', parse st = .error e st' ↔ ∃ n context, Breaks st.ahead n context ∧
      st' = st.moved n ∧ e = .grammar (Stream.faultAt st.stream.source context (st.ahead n))) ∧
    ∀ name text stream, Stream.ofSource name text = .ok stream →
      st.stream = { stream with cursor := st.stream.cursor } → ∀ d st', parse st = .ok d st' →
        Pieces.splitText separator d.reference = d.names ∧ "" ∉ d.names ∧
        (∀ resolve : String → Run μ (Definition μ),
          resolveVia resolve d.reference = d.resolveNamed resolve) ∧
        ∀ s : Session μ, resolve d.reference s =
          d.resolveNamed (resolveWithin (s.depth - 1)) s := by
  refine ⟨fun d st' => parse_eq_ok_iff, fun e st' => parse_eq_error_iff, ?_⟩
  intro name text stream hstream hcursor d st' hparse
  obtain ⟨tokens, htokens, hmem⟩ := Stream.tokenAt_of_ofSource hstream
  obtain ⟨n, hspells, -⟩ := parse_eq_ok_iff.mp hparse
  have hnames : ∀ name ∈ d.names, Lexeme.IsName name.toList := by
    intro name hname
    obtain ⟨i, hkind, rfl⟩ := hspells.names name hname
    have htoken : st.ahead i ∈ tokens := by
      rw [ParseState.ahead, hcursor]
      exact hmem _
    exact tokenize_isName htokens _ htoken hkind
  -- What divides the names stands in none of them.
  have hsplit := splitText_reference fun name hname => (hnames name hname).not_mem
  have hne : "" ∉ d.names := by
    intro hempty
    obtain ⟨c, rest, hnil, -⟩ := hnames "" hempty
    simp at hnil
  exact ⟨hsplit, hne, fun inner => resolveVia_reference inner hsplit hne,
    resolve_reference hsplit hne⟩

/-- A directive with a member, and one that ends behind its point. -/
def directiveText : String := "macro import größe.x1\nmacro import a.\n"

theorem the_directives_of_a_text_are_parsed_and_read_back :
    ∃ stream : Stream, Stream.ofSource "t" directiveText = .ok stream ∧
      (∃ d st', parse (⟨{ stream with cursor := 1 }, false, ()⟩ : ParseState Unit) = .ok d st' ∧
        st'.stream.cursor = 5 ∧ d.names = ["größe", "x1"] ∧
        Pieces.splitText separator d.reference = d.names ∧
        ∀ resolve : String → Run Unit (Definition Unit),
          resolveVia resolve d.reference = d.resolveNamed resolve) ∧
      ∃ n context, Breaks (ParseState.ahead
        (⟨{ stream with cursor := 7 }, false, ()⟩ : ParseState Unit)) n context := by
  have hlexes : (Stream.ofSource "t" directiveText).toOption.any (fun stream =>
      match parse (⟨{ stream with cursor := 1 }, false, ()⟩ : ParseState Unit),
        parse (⟨{ stream with cursor := 7 }, false, ()⟩ : ParseState Unit) with
      | .ok d st', .error _ _ => d.names == ["größe", "x1"] && st'.stream.cursor == 5
      | _, _ => false) = true := by decide +kernel
  obtain ⟨stream, hstream, hany⟩ := exists_ok_of_any hlexes
  refine ⟨stream, hstream, ?_⟩
  split at hany
  · next d st' e _ hparse hfails =>
    rw [Bool.and_eq_true, beq_iff_eq, beq_iff_eq] at hany
    have hlaw := directives_are_parsed_whole_and_read_back
      (⟨{ stream with cursor := 1 }, false, ()⟩ : ParseState Unit)
    obtain ⟨hsplit, -, hresolve, -⟩ := hlaw.2.2 "t" directiveText stream hstream rfl d st' hparse
    obtain ⟨n, context, hbreaks, -⟩ := ((directives_are_parsed_whole_and_read_back
      (⟨{ stream with cursor := 7 }, false, ()⟩ : ParseState Unit)).2.1 e _).mp hfails
    exact ⟨⟨d, st', hparse, hany.2, hany.1, hsplit, hresolve⟩, n, context, hbreaks⟩
  · cases hany

end Directive

end SourceMacros
