-- The accounts of passes one after another. What a text imports is its own: a pass takes nothing
-- over from the account of the pass before it. But a text that does not lex starts no pass, and so
-- the account of the last text that did stands behind it.
import SourceMacros.Proofs.PassLaws

namespace SourceMacros

variable {μ : Type}

/-! ## Texts one after another -/

/-- A text to expand, under the name it has in messages. -/
structure Draft where
  name : String
  text : String

/-- The text starts a pass. -/
def Draft.lexes (draft : Draft) : Bool := (Stream.ofSource draft.name draft.text).toOption.isSome

/-- What a caller has in hand after the expansion of a text. -/
structure Seen (μ : Type) where
  outcome : Except Error String
  session : Session μ
  keywords : List String

/-- What an expansion leaves in a caller's hand. -/
def Seen.ofResult : EStateM.Result Error (Session μ × Pass μ) String → Seen μ
  | .ok output (session, pass) => ⟨.ok output, session, pass.keywords⟩
  | .error error (session, pass) => ⟨.error error, session, pass.keywords⟩

/-- What is seen of texts in turn, each expanded with the account that the text before it left. -/
def seenInTurn : List Draft → Session μ × Pass μ → List (Seen μ)
  | [], _ => []
  | draft :: drafts, state =>
    .ofResult (expandText draft.name draft.text state) ::
      seenInTurn drafts (final (expandText draft.name draft.text state))

/-- What is seen of texts in turn, each expanded with a new account. -/
def seenAfresh : List Draft → Session μ → List (Seen μ)
  | [], _ => []
  | draft :: drafts, session =>
    .ofResult (expandText draft.name draft.text (session, {})) ::
      seenAfresh drafts (final (expandText draft.name draft.text (session, {}))).1

/-- The same, but behind a text that does not lex stand the keywords from before it. -/
def carried : List String → List Draft → List (Seen μ) → List (Seen μ)
  | before, draft :: drafts, seen :: rest =>
    if draft.lexes then seen :: carried seen.keywords drafts rest
    else { seen with keywords := before } :: carried before drafts rest
  | _, _, _ => []

/-! ## One text -/

theorem expandStream_forgets (resolve : String → Run μ (Definition μ)) (session : Session μ)
    (stream : Stream) (pass : Pass μ) :
    PassRun.expandStream resolve { session, stream, pass } =
      PassRun.expandStream resolve { session, stream, pass := {} } := by
  unfold PassRun.expandStream
  rw [bind_of_ok (PassRun.update_apply _ _), bind_of_ok (PassRun.update_apply _ _)]

/-- A pass takes nothing over from the account before it, however it ends. -/
theorem expandText_of_lexes {draft : Draft} (h : draft.lexes = true) (session : Session μ)
    (pass : Pass μ) :
    expandText draft.name draft.text (session, pass) =
      expandText draft.name draft.text (session, {}) := by
  obtain ⟨stream, hs⟩ := Option.isSome_iff_exists.mp h
  have hs : Stream.ofSource draft.name draft.text = .ok stream := by
    cases hsource : Stream.ofSource draft.name draft.text with
    | error fault => rw [hsource] at hs; cases hs
    | ok _ => rw [hsource] at hs; cases hs; rfl
  unfold expandText expandTextVia
  simp only [hs, expandStream_forgets _ session stream pass]

/-- A text that does not lex fails and leaves session and account as they were. -/
theorem expandText_of_not_lexes {draft : Draft} (h : draft.lexes = false) :
    ∃ fault, ∀ (session : Session μ) (pass : Pass μ),
      expandText draft.name draft.text (session, pass) = .error (.grammar fault) (session, pass) := by
  cases hs : Stream.ofSource draft.name draft.text with
  | ok stream =>
    rw [Draft.lexes, hs] at h
    cases h
  | error fault =>
    refine ⟨fault, ?_⟩
    intro session pass
    unfold expandText expandTextVia
    simp only [hs]

theorem keywords_ofResult (r : EStateM.Result Error (Session μ × Pass μ) String) :
    (Seen.ofResult r).keywords = (final r).2.keywords := by
  cases r with
  | ok output state => rfl
  | error error state => rfl

/-! ## The whole run -/

/-- Whatever account stands at the start, it shows only behind texts that do not lex. -/
theorem seenInTurn_eq_carried (drafts : List Draft) (session : Session μ) (pass : Pass μ) :
    seenInTurn drafts (session, pass) =
      carried pass.keywords drafts (seenAfresh drafts session) := by
  induction drafts generalizing session pass with
  | nil => rfl
  | cons draft drafts ih =>
    cases h : draft.lexes with
    | true =>
      have hrest := ih (final (expandText draft.name draft.text (session, {}))).1
        (final (expandText draft.name draft.text (session, {}))).2
      simp only [seenInTurn, seenAfresh, carried, h, if_true, expandText_of_lexes h session pass,
        keywords_ofResult, ← hrest]
    | false =>
      obtain ⟨fault, hfails⟩ := expandText_of_not_lexes (μ := μ) h
      simp only [seenInTurn, seenAfresh, carried, h, Bool.false_eq_true, if_false, hfails,
        final_error, Seen.ofResult, ih]

/-- With a new account, nothing is imported behind a text that does not lex. -/
theorem keywords_seenAfresh {drafts : List Draft} {session : Session μ} {draft : Draft}
    {seen : Seen μ} (hmem : (draft, seen) ∈ drafts.zip (seenAfresh drafts session))
    (h : draft.lexes = false) : seen.keywords = [] := by
  induction drafts generalizing session with
  | nil => cases hmem
  | cons first drafts ih =>
    unfold seenAfresh at hmem
    rw [List.zip_cons_cons, List.mem_cons] at hmem
    rcases hmem with heq | hmem
    · cases heq
      obtain ⟨fault, hfails⟩ := expandText_of_not_lexes (μ := μ) h
      rw [hfails]
      rfl
    · exact ih hmem

/-- Where nothing is imported behind the texts that do not lex, there is nothing to carry on. -/
theorem carried_eq_self {before : List String} {drafts : List Draft} {session : Session μ}
    (h : ∀ draft seen,
      (draft, seen) ∈ drafts.zip (carried before drafts (seenAfresh drafts session)) →
        draft.lexes = false → seen.keywords = []) :
    carried before drafts (seenAfresh drafts session) = seenAfresh drafts session := by
  induction drafts generalizing before session with
  | nil => rfl
  | cons draft drafts ih =>
    unfold seenAfresh carried at h ⊢
    cases hl : draft.lexes with
    | true =>
      simp only [hl, if_true, List.zip_cons_cons, List.mem_cons] at h ⊢
      rw [ih fun draft seen hmem => h draft seen (Or.inr hmem)]
    | false =>
      obtain ⟨fault, hfails⟩ := expandText_of_not_lexes (μ := μ) hl
      simp only [hl, Bool.false_eq_true, if_false, List.zip_cons_cons, List.mem_cons] at h ⊢
      have hnone : before = [] := h _ _ (Or.inl rfl) hl
      rw [ih fun draft seen hmem => h draft seen (Or.inr hmem), hnone, hfails]
      rfl

/-! ## The laws -/

/-- Texts that are expanded in turn by one expander give the same outcomes and the same sessions as
texts with a new expander each, and behind a text that lexes also the same keywords. Behind a text
that does not lex stand the keywords of the last text that did. So the two agree in everything
exactly when nothing is imported behind any text that does not lex. -/
theorem a_pass_takes_over_no_imports_but_a_text_that_does_not_lex_leaves_them
    (drafts : List Draft) (session : Session μ) :
    seenInTurn drafts (session, {}) = carried [] drafts (seenAfresh drafts session) ∧
      (seenInTurn drafts (session, {}) = seenAfresh drafts session ↔
        ∀ draft seen, (draft, seen) ∈ drafts.zip (seenInTurn drafts (session, {})) →
          draft.lexes = false → seen.keywords = []) := by
  have hcarried := seenInTurn_eq_carried drafts session {}
  refine ⟨hcarried, ?_, ?_⟩
  · intro hsame draft seen hmem hl
    rw [hsame] at hmem
    exact keywords_seenAfresh hmem hl
  · intro hnone
    rw [hcarried] at hnone ⊢
    exact carried_eq_self hnone

/-- A text that imports a macro, and one that does not lex. -/
def spoiltDrafts : List Draft := [⟨"t.mpy", "macro import hello\n"⟩, ⟨"t.mpy", ")"⟩]

/-- Behind the `)` that does not lex, the `hello` of the text before it is still available. -/
theorem imports_outlast_a_text_that_does_not_lex :
    (seenInTurn spoiltDrafts (plainSession, {})).map Seen.keywords = [["hello"], ["hello"]] ∧
      (seenAfresh spoiltDrafts plainSession).map Seen.keywords = [["hello"], []] ∧
      seenInTurn spoiltDrafts (plainSession, {}) ≠ seenAfresh spoiltDrafts plainSession := by
  have hseen : (seenInTurn spoiltDrafts (plainSession, {})).map Seen.keywords =
        [["hello"], ["hello"]] ∧
      (seenAfresh spoiltDrafts plainSession).map Seen.keywords = [["hello"], []] := by
    decide +kernel
  obtain ⟨hturn, hfresh⟩ := hseen
  refine ⟨hturn, hfresh, ?_⟩
  intro hsame
  rw [hsame, hfresh] at hturn
  cases hturn

end SourceMacros
