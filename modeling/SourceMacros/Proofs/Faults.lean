-- Faults point into their source. What a fault shows lies in the text, starts and ends between two
-- characters, and stands on the line that the fault names. Only a line that steps back to no open
-- block is named by its first token, which may stand on a later line than the blanks shown.
import SourceMacros.Proofs.Cursor
import SourceMacros.Proofs.FailingSteps
import SourceMacros.Proofs.LeadingBlanks
import SourceMacros.Proofs.Places

namespace SourceMacros

open Lexeme (Scanned)

/-! ## Gaps -/

theorem Gap.utf8Size {cs : List Char} (h : Gap cs) : ∀ c ∈ cs, c.utf8Size = 1 := by
  induction h with
  | nil => simp
  | blank hc _ ih =>
    refine List.forall_mem_cons.mpr ⟨?_, ih⟩
    rcases hc with rfl | rfl | rfl <;> decide
  | join _ ih =>
    exact List.forall_mem_cons.mpr ⟨by decide, List.forall_mem_cons.mpr ⟨by decide, ih⟩⟩
  | joinReturn _ ih =>
    exact List.forall_mem_cons.mpr ⟨by decide, List.forall_mem_cons.mpr
      ⟨by decide, List.forall_mem_cons.mpr ⟨by decide, ih⟩⟩⟩

/-- A gap may be cut before any number of its last bytes. -/
theorem Gap.cut {cs : List Char} (h : Gap cs) {n : Nat} (hn : n ≤ cs.length) :
    ∃ before last, cs = before ++ last ∧ byteLength last = n := by
  refine ⟨cs.take (cs.length - n), cs.drop (cs.length - n), by simp, ?_⟩
  rw [byteLength_of_single fun c hc => h.utf8Size c (List.mem_of_mem_drop hc), List.length_drop]
  omega

/-! ## Spans -/

variable {text part : List Char} {span : Span}

/-- The empty span behind a beginning. -/
theorem spans_point (before after : List Char) :
    Spans (before ++ after) [] (.point (byteLength before)) :=
  ⟨before, after, by simp, by simp [Span.point]⟩

theorem Spans.stop_eq (h : Spans text part span) : span.stop = span.start + byteLength part := by
  obtain ⟨before, after, -, rfl⟩ := h
  rfl

theorem Spans.stop_le (h : Spans text part span) : span.stop ≤ byteLength text := by
  obtain ⟨before, after, rfl, rfl⟩ := h
  simp

theorem isValid_front (before after : List Char) :
    String.Pos.Raw.IsValid (String.ofList (before ++ after)) ⟨byteLength before⟩ := by
  rw [String.Pos.Raw.isValid_iff_exists_append]
  refine ⟨String.ofList before, String.ofList after, String.ofList_append, ?_⟩
  rw [← size_toByteArray_ofList]
  rfl

/-- A span in a text, with both ends between two characters. -/
structure Inside (text : String) (span : Span) : Prop where
  whole : span.start ≤ span.stop
  within : span.start + span.length ≤ text.utf8ByteSize
  start : String.Pos.Raw.IsValid text ⟨span.start⟩
  stop : String.Pos.Raw.IsValid text ⟨span.start + span.length⟩

theorem Spans.inside {text : String} (h : Spans text.toList part span) : Inside text span := by
  have hstop := h.stop_eq
  have hle := h.stop_le
  have hlength : span.start + span.length = span.stop := by
    unfold Span.length
    omega
  rw [byteLength_toList] at hle
  obtain ⟨before, after, htext, rfl⟩ := h
  have hstart := isValid_front before (part ++ after)
  have hend := isValid_front (before ++ part) after
  rw [← List.append_assoc, ← htext, String.ofList_toList] at hstart
  rw [← htext, String.ofList_toList, byteLength_append] at hend
  exact ⟨by omega, by omega, hstart, by rwa [hlength]⟩

/-! ## Between lexemes -/

namespace Layout

/-- What holds between lexemes, with the text before them, the tokens so far, the lexemes to come
and the rest of the text: besides what is known of blocks and blanks, the open brackets stand in the
text, and at the start of a logical line no token of it has come. -/
structure Midway (text left : List Char) (s : Layout) (seen : List Char) (ts : List Token)
    (lexemes : List Lexeme) (rest : List Char) : Prop where
  split : text = seen ++ rest
  scanned : Scanned rest lexemes left
  between : s.Between seen ts lexemes rest
  opens : s.atLineStart = true → OpensLine ts
  brackets : ∀ b ∈ s.brackets, Spans text [b.1] b.2

variable {s s' : Layout} {left seen rest : List Char} {ts : List Token} {lexeme : Lexeme}
  {lexemes : List Lexeme} {marks : List Mark}

/-- The next lexeme stands behind the text before it. -/
theorem Midway.spans (h : Midway text left s seen ts (lexeme :: lexemes) rest) :
    Spans text lexeme.text ⟨byteLength seen, byteLength seen + byteLength lexeme.text⟩ := by
  obtain ⟨hsplit, hscanned, -⟩ := h
  cases hscanned with
  | @cons c cs _ _ n => exact ⟨seen, cs.drop n, by simp [hsplit], rfl⟩

theorem ne_lineBreak {kind : LexemeKind} (h : kind.significant?.isSome = true) :
    kind ≠ .lineBreak := by
  rintro rfl
  cases h

/-- Before the first token of a logical line stands a gap, and the indentation is taken from it. -/
theorem Midway.lead (h : Midway text left s seen ts (lexeme :: lexemes) rest)
    (hstart : s.atLineStart = true) (hkind : lexeme.kind.significant?.isSome = true) :
    ∃ head lead, seen = head ++ lead ∧ Gap lead ∧ s.lineIndent = lastBlanks lead := by
  obtain ⟨head, lead, hbegins, hindent, -⟩ := (h.between.fresh hstart).resolve_left
    fun hbreak => ne_lineBreak hkind (hbreak lexeme lexemes rfl)
  exact ⟨head, lead, hbegins.seen, hbegins.gap, hindent⟩

/-- The indentation of a logical line is blank. As many bytes stand before its first token, and the
text may be cut between any two of them. -/
theorem Midway.cut (h : Midway text left s seen ts (lexeme :: lexemes) rest)
    (hstart : s.atLineStart = true) (hkind : lexeme.kind.significant?.isSome = true) :
    Blank s.lineIndent ∧ ∀ n ≤ s.lineIndent.length,
      n ≤ byteLength seen ∧ ∃ part, Spans text part ⟨byteLength seen - n, byteLength seen⟩ := by
  obtain ⟨head, lead, rfl, hgap, hindent⟩ := h.lead hstart hkind
  rw [hindent]
  refine ⟨blank_lastBlanks lead, fun n hn => ?_⟩
  obtain ⟨before, last, rfl, hlast⟩ := hgap.cut (Nat.le_trans hn (length_lastBlanks_le lead))
  have hbytes : byteLength (head ++ (before ++ last)) = byteLength (head ++ before) + n := by
    rw [← List.append_assoc, byteLength_append, hlast]
  refine ⟨by omega, last, head ++ before, rest, ?_, ?_⟩
  · rw [h.split]
    simp
  · rw [hbytes, hlast, Nat.add_sub_cancel]

/-- A mark in a text. Unless it ends a block, its span has as many bytes as its text. -/
def MarkedIn (text : List Char) (m : Mark) : Prop :=
  (∃ part, Spans text part m.span) ∧
    (m.kind ≠ .dedent → m.span.stop = m.span.start + m.text.utf8ByteSize)

theorem markedIn_of_spans {kind : TokenKind} (h : Spans text part span) :
    MarkedIn text ⟨kind, String.ofList part, span⟩ := by
  refine ⟨⟨part, h⟩, fun _ => ?_⟩
  rw [← byteLength_toList, String.toList_ofList]
  exact h.stop_eq

theorem closeBlocks_markedIn (seen rest : List Char) (depth : Nat) (blocks : List (List Char)) :
    ∀ m ∈ (closeBlocks depth (byteLength seen) blocks).1, MarkedIn (seen ++ rest) m := by
  intro m hm
  obtain ⟨hkind, hspan⟩ := closeBlocks_marks _ _ _ m hm
  exact ⟨⟨[], hspan ▸ spans_point seen rest⟩, fun hnot => absurd hkind hnot⟩

theorem Indents.markedIn {blocks : List (List Char)}
    (h : s.Indents (byteLength seen) marks blocks)
    (hs : Midway text left s seen ts (lexeme :: lexemes) rest) (hstart : s.atLineStart = true)
    (hkind : lexeme.kind.significant?.isSome = true) : ∀ m ∈ marks, MarkedIn text m := by
  cases h with
  | stays => simp
  | opens hdeep =>
    obtain ⟨hblank, hcut⟩ := hs.cut hstart hkind
    have hwhole := (hcut _ (Nat.le_refl _)).1
    obtain ⟨-, part, hspans⟩ := hcut (s.lineIndent.length - s.current.length) (Nat.sub_le _ _)
    -- What the block adds are the last of the bytes before the token.
    have hfirst : byteLength seen - s.lineIndent.length + s.current.length =
        byteLength seen - (s.lineIndent.length - s.current.length) := by omega
    intro m hm
    rw [List.mem_singleton.mp hm]
    refine ⟨⟨part, by rwa [hfirst]⟩, fun _ => ?_⟩
    rw [← byteLength_toList, String.toList_ofList,
      byteLength_of_blank fun c hc => hblank c (List.mem_of_mem_drop hc), List.length_drop]
    dsimp only
    omega
  | closes =>
    rw [hs.split]
    exact closeBlocks_markedIn seen rest _ _

theorem Counts.brackets {kind : TokenKind} {before after : List (Char × Span)}
    (h : Counts kind part span before after) (hpart : Spans text part span)
    (hbefore : ∀ b ∈ before, Spans text [b.1] b.2) : ∀ b ∈ after, Spans text [b.1] b.2 := by
  unfold Counts at h
  split at h
  · cases h with
    | opens _ hc _ =>
      subst hc
      exact List.forall_mem_cons.mpr ⟨hpart, hbefore⟩
    | closes => exact (List.forall_mem_cons.mp hbefore).2
    | passes => exact hbefore
  · rw [h]
    exact hbefore

/-! ## Steps -/

/-- The end of a logical line opens the next one. -/
theorem opensLine_newline {t : Token} (h : t.kind = .newline) : OpensLine (ts ++ [t]) := by
  intro u hu
  have hlast : u = t := by simpa [h, TokenKind.isTrivia] using hu.symm
  rw [hlast, h]
  rfl

/-- A logical line that starts is not opened by what says something. -/
theorem Moves.opens (table : LineTable) (h : s.Moves lexeme span marks s')
    (hs : s.atLineStart = true → OpensLine ts) (hstart : s'.atLineStart = true) :
    OpensLine (ts ++ marks.map (Mark.token table)) := by
  cases h with
  | skips | indents => simpa using hs hstart
  | comments | wraps | blanks => exact (opensLine_append_trivia rfl).mpr (hs hstart)
  | ends => exact opensLine_newline rfl
  | starts | continues => cases hstart

/-- What a lexeme adds stands in the text. -/
theorem Midway.markedIn (h : Midway text left s seen ts (lexeme :: lexemes) rest)
    (hmoves : s.Moves lexeme ⟨byteLength seen, byteLength seen + byteLength lexeme.text⟩ marks s') :
    ∀ m ∈ marks, MarkedIn text m := by
  cases hmoves with
  | skips | indents => simp
  | comments | wraps | blanks | ends | continues =>
    intro m hm
    rw [List.mem_singleton.mp hm]
    exact markedIn_of_spans h.spans
  | starts hkind hstart _ hindents =>
    intro m hm
    rcases List.mem_append.mp hm with hm | hm
    · exact hindents.markedIn h hstart (by rw [hkind]; rfl) m hm
    · rw [List.mem_singleton.mp hm]
      exact markedIn_of_spans h.spans

theorem Moves.brackets (h : s.Moves lexeme span marks s') (hspan : Spans text lexeme.text span)
    (hs : ∀ b ∈ s.brackets, Spans text [b.1] b.2) : ∀ b ∈ s'.brackets, Spans text [b.1] b.2 := by
  cases h with
  | skips | indents | comments | wraps | blanks | ends => exact hs
  | starts _ _ _ _ hcounts => exact hcounts.brackets hspan (by simp)
  | continues _ _ hcounts => exact hcounts.brackets hspan hs

/-- A lexeme leaves those behind it midway, and what it adds stands in the text. -/
theorem Midway.next (table : LineTable)
    (h : Midway text left s seen ts (lexeme :: lexemes) rest)
    (hmoves : s.Moves lexeme ⟨byteLength seen, byteLength seen + byteLength lexeme.text⟩ marks s') :
    (∀ m ∈ marks, MarkedIn text m) ∧ ∃ rest', Midway text left s' (seen ++ lexeme.text)
      (ts ++ marks.map (Mark.token table)) lexemes rest' := by
  have hmarks := h.markedIn hmoves
  have hbrackets := hmoves.brackets h.spans h.brackets
  have hopens := hmoves.opens table h.opens
  obtain ⟨hsplit, hscanned, hbetween, -⟩ := h
  have hparted := hscanned.parted
  cases hscanned with
  | @cons c cs _ kind n _ hstarts hlater =>
    have hrest : c :: cs = (c :: cs.take n) ++ cs.drop n := by simp
    rw [hrest] at hsplit hbetween
    rw [← byteLength_append] at hmoves
    refine ⟨hmarks, cs.drop n, by rw [hsplit, List.append_assoc], hlater, ?_, hopens, hbrackets⟩
    exact hmoves.between table hbetween hstarts.edged hparted

/-- Steps that succeed leave the lexemes behind them midway, and all they add stands in the text. -/
theorem Passes.midway (table : LineTable) {offset : Nat} {front back : List Lexeme}
    (h : s.Passes offset front marks s') (hoffset : byteLength seen = offset)
    (hs : Midway text left s seen ts (front ++ back) rest) :
    (∀ m ∈ marks, MarkedIn text m) ∧ ∃ rest', Midway text left s'
      (seen ++ front.flatMap Lexeme.text) (ts ++ marks.map (Mark.token table)) back rest' := by
  induction h generalizing seen ts rest with
  | nil => exact ⟨by simp, rest, by simpa using hs⟩
  | cons hstep _ ih =>
    subst hoffset
    obtain ⟨hmarks, rest₁, hnext⟩ := hs.next table (step_moves hstep)
    obtain ⟨hlater, rest', hlast⟩ := ih (byteLength_append _ _) hnext
    refine ⟨fun m hm => (List.mem_append.mp hm).elim (hmarks m) (hlater m), rest', ?_⟩
    simpa using hlast

theorem midway_start {text left : List Char} {lexemes : List Lexeme}
    (h : Scanned text lexemes left) : Midway text left {} [] [] lexemes text :=
  ⟨rfl, h, between_start lexemes text, fun _ => by simp [OpensLine], by simp⟩

/-! ## Runs -/

/-- The first token of a logical line starts at an offset: behind the lexemes before it stands one
that says something, and the tokens found so far are of other lines. -/
def LineStartsAt (text : String) (offset : Nat) : Prop :=
  ∃ front lexeme back marks s, (Lexeme.scan text.toList).1.toList = front ++ lexeme :: back ∧
    ({} : Layout).Passes 0 front marks s ∧ OpensLine (marks.map (Mark.token (.ofText text))) ∧
    lexeme.kind.significant?.isSome = true ∧ byteLength (front.flatMap Lexeme.text) = offset

/-- What a fault says of a text: it shows characters of the text, on the line it names. Only a line
that steps back is named by its first token, which stands behind the blanks that are shown. -/
structure Shows (text : String) (f : LayoutFault) : Prop where
  spans : ∃ part, Spans text.toList part f.span
  bytes : f.span.stop = f.span.start + f.found.utf8ByteSize
  place : f.cause ≠ .unindentMismatch → f.place = f.span.start
  unindents : f.cause = .unindentMismatch → f.place = f.span.stop ∧ LineStartsAt text f.span.stop

theorem shows_of_spans {text : String} {part : List Char} {cause : SyntaxCause} {span : Span}
    (hcause : cause ≠ .unindentMismatch) (h : Spans text.toList part span) :
    Shows text ⟨cause, String.ofList part, span.start, span⟩ := by
  refine ⟨⟨part, h⟩, ?_, fun _ => rfl, fun hunindents => absurd hunindents hcause⟩
  rw [← byteLength_toList, String.toList_ofList]
  exact h.stop_eq

theorem scanFault_eq (offset : Nat) (f : ScanFault) :
    ∃ cause, cause ≠ .unindentMismatch ∧ scanFault offset f =
      ⟨cause, String.ofList f.text, offset, ⟨offset, offset + byteLength f.text⟩⟩ := by
  cases f with
  | unterminated opening => exact ⟨.unterminatedString, by simp, rfl⟩
  | unexpected c => exact ⟨.unexpectedCharacter, by simp, rfl⟩

/-- A fault of the pass shows characters of the text. -/
theorem marks_shows {text : String} {f : LayoutFault} (h : Layout.marks text = .error f) :
    Shows text f := by
  obtain ⟨left, hscanned, hstops⟩ := Lexeme.scan_scanned text.toList
  rw [marks_eq_run] at h
  obtain ⟨front, back, found, s, hlexemes, hpasses, hends⟩ := run_eq_error h
  have hstart := midway_start hscanned
  rw [hlexemes] at hstart
  obtain ⟨-, rest, hs⟩ := hpasses.midway (.ofText text) byteLength_nil hstart
  simp only [List.nil_append, Nat.zero_add] at hs hends
  generalize (Lexeme.scan text.toList).2 = scanned at hends hstops
  cases hends with
  | @step lexeme back _ _ hfails =>
    cases hfails with
    | unindents hkind hline =>
      -- The bytes right before the first token are shown, be they the blanks or a joined break.
      obtain ⟨hblank, hcut⟩ := hs.cut hline hkind
      obtain ⟨hback, part, hspans⟩ := hcut _ (Nat.le_refl _)
      refine ⟨⟨part, hspans⟩, ?_, fun hnot => absurd rfl hnot, fun _ => ⟨rfl, ?_⟩⟩
      · rw [← byteLength_toList, String.toList_ofList, byteLength_of_blank hblank]
        exact (Nat.sub_add_cancel hback).symm
      · exact ⟨front, lexeme, back, found, s, hlexemes, hpasses, hs.opens hline, hkind, rfl⟩
    | unmatched htext => exact shows_of_spans (by simp) (htext ▸ hs.spans)
  | finish hfinish =>
    -- The open bracket was seen long before, and its span was kept.
    obtain ⟨c, span, hmem, rfl⟩ := finish_eq_error hfinish
    have hspans : Spans text.toList [c] span := hs.brackets (c, span) hmem
    exact shows_of_spans (by simp) hspans
  | scan f =>
    -- No lexeme is to come, so what is left of the text is what the scanner stopped at.
    obtain ⟨cause, hcause, heq⟩ := scanFault_eq (byteLength (front.flatMap Lexeme.text)) f
    obtain ⟨after, rfl⟩ := hstops
    have hleft := hs.scanned
    cases hleft
    rw [heq]
    refine shows_of_spans hcause ⟨_, after, ?_, rfl⟩
    rw [hs.split, List.append_assoc]

/-- What the end of a source adds stands there. -/
theorem finish_markedIn {later : List Mark} (h : s.finish (byteLength seen) = .ok later)
    (rest : List Char) : ∀ m ∈ later, MarkedIn (seen ++ rest) m := by
  have hpoint (kind : TokenKind) : MarkedIn (seen ++ rest) ⟨kind, "", .point (byteLength seen)⟩ :=
    markedIn_of_spans (spans_point seen rest)
  intro m hm
  rw [(finish_eq_ok h).2, List.mem_append, List.mem_append, List.mem_singleton] at hm
  rcases hm with (hm | hm) | rfl
  · cases hline : s.atLineStart <;> simp [hline] at hm
    rw [hm]
    exact hpoint .newline
  · exact closeBlocks_markedIn seen rest 0 s.blocks m hm
  · exact hpoint .endMarker

/-- The marks of a text stand in it. -/
theorem marks_markedIn {text : String} {found : Array Mark} (h : Layout.marks text = .ok found) :
    ∀ m ∈ found.toList, MarkedIn text.toList m := by
  obtain ⟨left, hscanned, -⟩ := Lexeme.scan_scanned text.toList
  rw [marks_eq_run] at h
  obtain ⟨marks, s, later, hpasses, hfinish, hfound⟩ := run_eq_ok h
  have hstart := midway_start hscanned
  rw [← List.append_nil (Array.toList _)] at hstart
  obtain ⟨hmarks, rest, hs⟩ := hpasses.midway (.ofText text) byteLength_nil hstart
  simp only [List.nil_append, Nat.zero_add] at hs hfinish
  intro m hm
  rw [hfound] at hm
  rcases List.mem_append.mp hm with hm | hm
  · exact hmarks m hm
  · rw [hs.split]
    exact finish_markedIn hfinish rest m hm

end Layout

/-! ## Faults -/

theorem position_line (text : String) (offset : Nat) :
    ((LineTable.ofText text).position offset).line = feedsBefore text offset + 1 := by
  have hfound := LineTable.position_found text offset
  have hfeeds := hfound.feedsBefore_eq
  have hpos := hfound.pos
  rw [String.ofList_toList] at hfeeds
  omega

theorem tokenize_eq_error {name text : String} {f : SyntaxFault}
    (h : tokenize name text = .error f) :
    ∃ fault, Layout.marks text = .error fault ∧ f = fault.locate name (.ofText text) := by
  unfold tokenize at h
  dsimp only at h
  split at h
  · cases h
  · next fault hfault =>
    cases h
    exact ⟨fault, hfault, rfl⟩

/-- A token of a source stands in it, at its line. Unless it ends a block, it has as many bytes as
its text. -/
theorem tokenize_inside {name text : String} {tokens : List Token}
    (h : tokenize name text = .ok tokens) : ∀ t ∈ tokens, Inside text t.span ∧
      t.start.line = feedsBefore text t.span.start + 1 ∧
      (t.kind ≠ .dedent → t.span.stop = t.span.start + t.text.utf8ByteSize) := by
  obtain ⟨marks, hmarks, rfl⟩ := tokenize_eq_ok h
  intro t ht
  obtain ⟨m, hm, rfl⟩ := List.mem_map.mp ht
  obtain ⟨⟨part, hspans⟩, hbytes⟩ := Layout.marks_markedIn hmarks m hm
  exact ⟨hspans.inside, position_line text m.span.start, hbytes⟩

/-! ## The law -/

/-- The faults that a stream raises at its cursor. -/
def Stream.Raises (s : Stream) (f : SyntaxFault) : Prop :=
  ∃ context, f = s.faultHere context ∨ ∃ m, (s.consume m context).1 = .error f

theorem Stream.Raises.eq_faultAt {s : Stream} {f : SyntaxFault} (h : s.Raises f) :
    ∃ context, f = faultAt s.source context s.peek := by
  obtain ⟨context, rfl | ⟨m, hm⟩⟩ := h
  · exact ⟨context, rfl⟩
  · unfold consume at hm
    split at hm
    · cases hm
    · cases hm
      exact ⟨context, rfl⟩

/-- A fault of a source that has no tokens, or one raised at any token of a source that has, shows
characters of the source and names their line. Only a line that steps back to no open block is named
by its first token, which stands right behind the blanks shown. No length is cut off at zero: what a
fault shows has the bytes of the text found there, unless that text is the end of a block. -/
theorem faults_point_into_their_source (name text : String) :
    (∀ f, tokenize name text = .error f → f.source = name ∧ Inside text f.span ∧
      f.span.stop = f.span.start + f.found.utf8ByteSize ∧
      (f.cause ≠ .unindentMismatch → f.line = feedsBefore text f.span.start + 1) ∧
      (f.cause = .unindentMismatch → f.line = feedsBefore text f.span.stop + 1 ∧
        Layout.LineStartsAt text f.span.stop)) ∧
    ∀ stream cursor f, Stream.ofSource name text = .ok stream →
      Stream.Raises { stream with cursor } f → f.source = name ∧ Inside text f.span ∧
      f.line = feedsBefore text f.span.start + 1 ∧
      ((stream.tokenAt cursor).kind ≠ .dedent →
        f.span.stop = f.span.start + f.found.utf8ByteSize) := by
  constructor
  · intro f h
    obtain ⟨fault, hfault, rfl⟩ := tokenize_eq_error h
    obtain ⟨⟨part, hspans⟩, hbytes, hplace, hunindents⟩ := Layout.marks_shows hfault
    have hline : (fault.locate name (.ofText text)).line = feedsBefore text fault.place + 1 :=
      position_line text fault.place
    refine ⟨rfl, hspans.inside, hbytes, fun hcause => ?_, fun hcause => ?_⟩
    · rw [hline, hplace hcause]
      rfl
    · obtain ⟨hstop, hstarts⟩ := hunindents hcause
      rw [hline, hstop]
      exact ⟨rfl, hstarts⟩
  · intro stream cursor f hstream hraises
    obtain ⟨tokens, htokens, hmem⟩ := Stream.tokenAt_of_ofSource hstream
    obtain ⟨context, rfl⟩ := hraises.eq_faultAt
    obtain ⟨hinside, hline, hbytes⟩ := tokenize_inside htokens _ (hmem cursor)
    exact ⟨Stream.source_of_ofSource hstream, hinside, hline, hbytes⟩

/-- A line that steps back to no open block, with its first token behind a joined break. -/
def unsteadyText : String := "if ä:\n        b\n    \\\nü\n"

theorem the_faults_of_two_texts_point_into_them :
    (∃ f, tokenize "t" unsteadyText = .error f ∧ f.line = 4 ∧ f.span = ⟨19, 23⟩ ∧
      feedsBefore unsteadyText f.span.start + 1 = 3 ∧ Inside unsteadyText f.span ∧
      Layout.LineStartsAt unsteadyText f.span.stop) ∧
    ∃ stream f, Stream.ofSource "t" spreadText = .ok stream ∧
      (Stream.consume { stream with cursor := 5 } (.name "import") "Expected an import").1 =
        .error f ∧
      Inside spreadText f.span ∧ f.line = feedsBefore spreadText f.span.start + 1 := by
  constructor
  · have hfault : tokenize "t" unsteadyText =
        .error ⟨.unindentMismatch, "    ", 4, "t", ⟨19, 23⟩⟩ := by decide +kernel
    obtain ⟨-, hinside, -, -, hstarts⟩ :=
      (faults_point_into_their_source "t" unsteadyText).1 _ hfault
    exact ⟨_, hfault, rfl, rfl, by decide, hinside, (hstarts rfl).2⟩
  · have hlexes : (Stream.ofSource "t" spreadText).toOption.any (fun stream =>
        !Stream.check { stream with cursor := 5 } (.name "import")) = true := by decide +kernel
    obtain ⟨stream, hstream, hcheck⟩ := exists_ok_of_any hlexes
    rw [Bool.not_eq_true'] at hcheck
    have hrefuses : (Stream.consume { stream with cursor := 5 } (.name "import")
        "Expected an import").1 = .error (Stream.faultHere { stream with cursor := 5 }
          "Expected an import") := by
      simp [Stream.consume, hcheck]
    obtain ⟨-, hinside, hline, -⟩ := (faults_point_into_their_source "t" spreadText).2 stream 5 _
      hstream ⟨_, Or.inr ⟨_, hrefuses⟩⟩
    exact ⟨stream, _, hstream, hrefuses, hinside, hline⟩

end SourceMacros
