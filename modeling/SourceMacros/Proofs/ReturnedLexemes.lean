-- The lexemes of a text and of the same text with a carriage return before each line feed. They are
-- the same in both, unless a string that is not triple-quoted hides a line feed behind a backslash:
-- there the backslash hides the carriage return instead, and the line feed behind it leaves the
-- string open.
import SourceMacros.Proofs.CarriageReturns
import SourceMacros.Proofs.Lexemes

namespace SourceMacros

namespace Lexeme

variable {cs : List Char} {n : Nat}

/-! ## Strings -/

theorem opening?_returned (cs : List Char) : opening? (returned cs) = opening? cs := by
  match cs with
  | [] => rfl
  | a :: rest =>
    by_cases ha : a = '\n'
    · subst ha
      rfl
    rw [returned_cons ha]
    match rest with
    | [] => rfl
    | b :: rest =>
      by_cases hb : b = '\n'
      · subst hb
        simp [opening?, isQuote, isStringMark]
      rw [returned_cons hb]
      match rest with
      | [] => rfl
      | c :: rest =>
        by_cases hc : c = '\n'
        · subst hc
          simp [opening?, isQuote]
        · rw [returned_cons hc]
          rfl

theorem quote_plain {c : Char} (h : isQuote c = true) : c ≠ '\n' ∧ c ≠ '\r' ∧ c ≠ '\\' := by
  refine ⟨?_, ?_, ?_⟩ <;>
  · rintro rfl
    simp [isQuote] at h

theorem mark_ne {c : Char} (h : isStringMark c = true) : c ≠ '\n' := by
  rintro rfl
  simp [isStringMark] at h

/-- The opening quote stands behind its marks, on the same line. -/
theorem opening?_spec {marks : Nat} {quote : Char} (h : opening? cs = some (marks, quote)) :
    isQuote quote = true ∧ marks + 1 ≤ lineLength cs ∧
      ∀ k, marks + 1 ≤ k → opening? (cs.take k) = some (marks, quote) := by
  unfold opening? at h
  split at h
  · next a rest =>
    split at h
    · next ha =>
      cases h
      refine ⟨ha, by rw [lineLength_cons (quote_plain ha).1]; omega, ?_⟩
      rintro (_ | k) hk
      · omega
      · simp [opening?, ha]
    · next ha =>
      split at h
      · next hmark =>
        split at h
        · next b rest =>
          split at h
          · next hb =>
            cases h
            refine ⟨hb, ?_, ?_⟩
            · rw [lineLength_cons (mark_ne hmark), lineLength_cons (quote_plain hb).1]
              omega
            · rintro (_ | _ | k) hk
              · omega
              · omega
              · simp [opening?, ha, hmark, hb]
          · next hb =>
            split at h
            · next hmark' =>
              split at h
              · next c rest =>
                split at h
                · next hc =>
                  cases h
                  refine ⟨hc, ?_, ?_⟩
                  · rw [lineLength_cons (mark_ne hmark), lineLength_cons (mark_ne hmark'),
                      lineLength_cons (quote_plain hc).1]
                    omega
                  · rintro (_ | _ | _ | k) hk
                    · omega
                    · omega
                    · omega
                    · simp [opening?, ha, hmark, hb, hmark', hc]
                · cases h
              · cases h
            · cases h
        · cases h
      · cases h
  · cases h

theorem closing?_cons (quote : Char) {c : Char} (h : c ≠ '\\') (passed : Nat) (cs : List Char) :
    closing? quote passed (c :: cs) =
      if c = '\n' then none
      else if c = quote then some (passed + 1)
      else closing? quote (passed + 1) cs := by
  rw [closing?]
  · rintro rfl
    exact absurd rfl h
  · rintro _ _ rfl
    exact absurd rfl h

/-- A short string is closed in both texts, or it hides a line feed and is closed in one only. -/
theorem closing?_returned {quote : Char} (hq : isQuote quote = true) {passed n : Nat}
    (hr : '\r' ∉ cs) (h : closing? quote passed cs = some n) :
    ∃ m, n = passed + m ∧ 0 < m ∧ m ≤ cs.length ∧
      ∀ k, closing? quote k (returned cs) = if '\n' ∈ cs.take m then none else some (k + m) := by
  fun_induction closing? quote passed cs with
  | case1 => cases h
  | case2 => cases h
  | case3 passed d rest ih =>
    obtain ⟨m, rfl, hpos, hle, hsame⟩ := ih (by simp at hr; exact hr.2) h
    refine ⟨m + 2, by omega, by omega, by simpa using hle, ?_⟩
    intro k
    rw [returned_backslash]
    by_cases hd : d = '\n'
    · -- The backslash hides the carriage return, and the line feed stands in the open.
      subst hd
      rw [returned_lineFeed, closing?, closing?_cons _ (by decide)]
      simp
    · rw [returned_cons hd, closing?, hsame, List.take_succ_cons, List.take_succ_cons]
      simp only [List.mem_cons, Ne.symm hd, false_or, show ¬ '\n' = '\\' by decide]
      rw [show k + 2 + m = k + (m + 2) by omega]
  | case4 => cases h
  | case5 passed rest _ _ hfeed =>
    cases h
    refine ⟨1, rfl, Nat.one_pos, by simp, ?_⟩
    intro k
    rw [returned_cons hfeed, closing?_cons _ (quote_plain hq).2.2]
    simp [hfeed, Ne.symm hfeed]
  | case6 passed c rest hlast hback hfeed hquote ih =>
    obtain ⟨m, rfl, hpos, hle, hsame⟩ := ih (by simp at hr; exact hr.2) h
    refine ⟨m + 1, by omega, by omega, by simpa using hle, ?_⟩
    intro k
    have hc : c ≠ '\\' := by
      rintro rfl
      cases rest with
      | nil => exact hlast rfl rfl
      | cons d rest => exact hback d rest rfl rfl
    rw [returned_cons hfeed, closing?_cons _ hc, if_neg hfeed, if_neg hquote, hsame,
      List.take_succ_cons]
    simp only [List.mem_cons, Ne.symm hfeed, false_or]
    rw [show k + 1 + m = k + (m + 1) by omega]

theorem tripleClosing?_cons (quote : Char) {c : Char} (h : c ≠ '\\') (passed : Nat)
    (cs : List Char) :
    tripleClosing? quote passed (c :: cs) =
      if c = quote ∧ cs.take 2 = [quote, quote] then some (passed + 3)
      else tripleClosing? quote (passed + 1) cs := by
  rw [tripleClosing?]
  · rintro rfl
    exact absurd rfl h
  · rintro _ _ rfl
    exact absurd rfl h

theorem quotes_returned {quote : Char} (hq : isQuote quote = true) (cs : List Char) :
    (returned cs).take 2 = [quote, quote] ↔ cs.take 2 = [quote, quote] := by
  obtain ⟨hfeed, hreturn, -⟩ := quote_plain hq
  exact take_returned_eq_iff (by simp [Ne.symm hfeed]) (by simp [Ne.symm hreturn])

/-- A triple-quoted string is closed in both texts. -/
theorem tripleClosing?_returned {quote : Char} (hq : isQuote quote = true) {passed n : Nat}
    (hr : '\r' ∉ cs) (h : tripleClosing? quote passed cs = some n) :
    ∃ m, n = passed + m ∧ 0 < m ∧
      ∀ k, tripleClosing? quote k (returned cs) = some (k + (returned (cs.take m)).length) := by
  obtain ⟨hqfeed, hqreturn, hqback⟩ := quote_plain hq
  fun_induction tripleClosing? quote passed cs with
  | case1 => cases h
  | case2 => cases h
  | case3 passed d rest ih =>
    obtain ⟨m, rfl, hpos, hsame⟩ := ih (by simp at hr; exact hr.2) h
    refine ⟨m + 2, by omega, by omega, ?_⟩
    intro k
    rw [List.take_succ_cons, List.take_succ_cons, returned_backslash, returned_backslash]
    by_cases hd : d = '\n'
    · subst hd
      rw [returned_lineFeed, returned_lineFeed, tripleClosing?, tripleClosing?_cons _ (by decide),
        if_neg (fun hfirst => hqfeed hfirst.1.symm), hsame]
      simp only [List.length_cons, Option.some.injEq]
      omega
    · rw [returned_cons hd, returned_cons hd, tripleClosing?, hsame]
      simp only [List.length_cons, Option.some.injEq]
      omega
  | case4 passed c rest _ _ hquotes =>
    cases h
    refine ⟨3, rfl, by omega, ?_⟩
    intro k
    obtain ⟨rfl, hrest⟩ := hquotes
    rw [returned_cons hqfeed, tripleClosing?_cons _ hqback,
      if_pos ⟨rfl, (quotes_returned hq rest).mpr hrest⟩, List.take_succ_cons, hrest,
      returned_of_not_mem (by simp [Ne.symm hqfeed])]
    rfl
  | case5 passed c rest hlast hback hquotes ih =>
    obtain ⟨m, rfl, hpos, hsame⟩ := ih (by simp at hr; exact hr.2) h
    refine ⟨m + 1, by omega, by omega, ?_⟩
    intro k
    have hc : c ≠ '\\' := by
      rintro rfl
      cases rest with
      | nil => exact hlast rfl rfl
      | cons d rest => exact hback d rest rfl rfl
    rw [List.take_succ_cons]
    by_cases hfeed : c = '\n'
    · subst hfeed
      rw [returned_lineFeed, returned_lineFeed, tripleClosing?_cons _ (by decide),
        if_neg (fun hfirst => hqreturn hfirst.1.symm), tripleClosing?_cons _ hc,
        if_neg (fun hfirst => hqfeed hfirst.1.symm), hsame]
      simp only [List.length_cons, Option.some.injEq]
      omega
    · have hopen : ¬ (c = quote ∧ (returned rest).take 2 = [quote, quote]) := by
        rw [quotes_returned hq]
        exact hquotes
      rw [returned_cons hfeed, returned_cons hfeed, tripleClosing?_cons _ hc, if_neg hopen, hsame]
      simp only [List.length_cons, Option.some.injEq]
      omega

/-- Three quotes open the string literal. -/
def isTripleQuoted (cs : List Char) : Bool :=
  match opening? cs with
  | some (marks, quote) => (cs.drop (marks + 1)).take 2 = [quote, quote]
  | none => false

/-- A string literal that is not triple-quoted has a line feed in it. -/
def hidesBreak (cs : List Char) : Bool := cs.contains '\n' && !isTripleQuoted cs

theorem length_returned_take (h : '\n' ∉ cs.take n) (hn : n ≤ cs.length) :
    (returned (cs.take n)).length = n := by
  rw [returned_of_not_mem h, List.length_take, Nat.min_eq_left hn]

theorem isTripleQuoted_take {marks : Nat} {quote : Char} (hopen : opening? cs = some (marks, quote))
    (m : Nat) :
    isTripleQuoted (cs.take (marks + 1 + m)) =
      decide (((cs.drop (marks + 1)).take m).take 2 = [quote, quote]) := by
  unfold isTripleQuoted
  rw [(opening?_spec hopen).2.2 _ (by omega)]
  simp only [List.drop_take, Nat.add_sub_cancel_left]

/-- A string is as long in both texts, carriage returns apart. One that hides a line feed has no end
in the second. -/
theorem stringLength_returned {marks : Nat} {quote : Char} (hr : '\r' ∉ cs)
    (hopen : opening? cs = some (marks, quote)) (h : stringLength marks quote cs = .ok n) :
    0 < n ∧
      if hidesBreak (cs.take n) then ∃ fault, stringLength marks quote (returned cs) = .error fault
      else stringLength marks quote (returned cs) = .ok (returned (cs.take n)).length := by
  obtain ⟨hq, hmarks, -⟩ := opening?_spec hopen
  have htriple := isTripleQuoted_take hopen
  have hfeed := not_mem_take_of_le hmarks
  have hfront := length_returned_take hfeed (hmarks.trans (lineLength_le cs))
  have hrbody : '\r' ∉ cs.drop (marks + 1) := fun hmem => hr (List.mem_of_mem_drop hmem)
  simp only [stringLength] at h ⊢
  rw [drop_returned hmarks]
  generalize hbody : cs.drop (marks + 1) = body at h htriple hrbody ⊢
  by_cases hquotes : body.take 2 = [quote, quote]
  · rw [if_pos hquotes] at h
    rw [if_pos ((quotes_returned hq body).mpr hquotes)]
    have hinner : '\n' ∉ body.take 2 := by
      rw [hquotes]
      simp [Ne.symm (quote_plain hq).1]
    have htwo : 2 ≤ body.length := by
      have := congrArg List.length hquotes
      rw [List.length_take] at this
      simp at this
      omega
    rw [drop_returned (le_lineLength hinner htwo)]
    split at h
    · next found hfound =>
      cases h
      obtain ⟨m, rfl, hpos, hsame⟩ := tripleClosing?_returned hq
        (fun hmem => hrbody (List.mem_of_mem_drop hmem)) hfound
      have hwhole : marks + 3 + m = marks + 1 + (2 + m) := by omega
      have hyes : isTripleQuoted (cs.take (marks + 1 + (2 + m))) = true := by
        rw [htriple, List.take_take, Nat.min_eq_left (by omega)]
        exact decide_eq_true hquotes
      rw [hwhole, hsame]
      refine ⟨by omega, ?_⟩
      simp only [hidesBreak, hyes, Bool.not_true, Bool.and_false, Bool.false_eq_true, if_false]
      rw [List.take_add (i := marks + 1), hbody, List.take_add (i := 2), returned_append,
        returned_append, List.length_append, List.length_append, hfront,
        length_returned_take hinner htwo]
      congr 1
      omega
    · cases h
  · rw [if_neg hquotes] at h
    rw [if_neg (fun hboth => hquotes ((quotes_returned hq body).mp hboth))]
    split at h
    · next found hfound =>
      cases h
      obtain ⟨m, rfl, hpos, hle, hsame⟩ := closing?_returned hq hrbody hfound
      have hno : isTripleQuoted (cs.take (marks + 1 + m)) = false := by
        rw [htriple, decide_eq_false_iff_not, List.take_take]
        rcases Nat.lt_or_ge m 2 with hm | hm
        · intro heq
          have hlength := congrArg List.length heq
          rw [List.length_take, List.length_cons, List.length_singleton] at hlength
          omega
        · rw [Nat.min_eq_left hm]
          exact hquotes
      have hmem : '\n' ∈ cs.take (marks + 1 + m) ↔ '\n' ∈ body.take m := by
        rw [List.take_add (i := marks + 1), hbody, List.mem_append]
        exact ⟨fun hor => hor.resolve_left hfeed, Or.inr⟩
      rw [hsame]
      refine ⟨by omega, ?_⟩
      by_cases hhides : '\n' ∈ body.take m
      · rw [if_pos hhides, if_pos (by simp [hidesBreak, hno, hmem.mpr hhides])]
        exact ⟨_, rfl⟩
      · rw [if_neg hhides, if_neg (by simp [hidesBreak, hmem, hhides])]
        have hlength : marks + 1 + m ≤ cs.length := by
          have := congrArg List.length hbody
          rw [List.length_drop] at this
          have := hmarks.trans (lineLength_le cs)
          omega
        rw [length_returned_take (fun hfound => hhides (hmem.mp hfound)) hlength]
    · cases h

/-! ## The scanner -/

/-- A text starts with a lexeme, and `rest` is what follows it. -/
def Leads (text : List Char) (lexeme : Lexeme) (rest : List Char) : Prop :=
  ∃ c cs n, text = c :: cs ∧ head c cs = .ok (lexeme.kind, n) ∧ lexeme.text = c :: cs.take n ∧
    rest = cs.drop n

theorem scan_of_leads {text rest : List Char} {lexeme : Lexeme} (h : Leads text lexeme rest) :
    scan text = (#[lexeme] ++ (scan rest).1, (scan rest).2) := by
  obtain ⟨c, cs, n, rfl, hhead, htext, rfl⟩ := h
  rw [scan_cons hhead, ← htext]

/-- A lexeme with a carriage return before each of its line feeds. -/
def withReturns (lexeme : Lexeme) : Lexeme := ⟨lexeme.kind, returned lexeme.text⟩

/-- A string, not triple-quoted, in which a backslash hides a line feed. -/
def breaksOpen (lexeme : Lexeme) : Bool := lexeme.kind = .string && hidesBreak lexeme.text

/-- What follows the first character, and is as long as it should be, makes the lexeme. -/
theorem leads_returned {c : Char} {kind : LexemeKind} (hc : c ≠ '\n')
    (h : head c (returned cs) = .ok (kind, (returned (cs.take n)).length)) :
    Leads (returned (c :: cs)) (withReturns ⟨kind, c :: cs.take n⟩) (returned (cs.drop n)) := by
  have hsplit : returned cs = returned (cs.take n) ++ returned (cs.drop n) := by
    rw [← returned_append, List.take_append_drop]
  refine ⟨c, returned cs, (returned (cs.take n)).length, returned_cons hc cs, h, ?_, ?_⟩
  · rw [withReturns, returned_cons hc]
    dsimp only
    rw [hsplit, List.take_left]
  · rw [hsplit, List.drop_left]

/-- A lexeme on one line, other than a string, stands in both texts. -/
theorem leads_inline {c : Char} {kind : LexemeKind} (hkind : kind ≠ .string) (hc : c ≠ '\n')
    (hn : n ≤ lineLength cs) (h : head c (returned cs) = .ok (kind, n)) :
    if breaksOpen ⟨kind, c :: cs.take n⟩ then
      ∃ fault, scan (returned (c :: cs)) = (#[], some fault)
    else
      Leads (returned (c :: cs)) (withReturns ⟨kind, c :: cs.take n⟩) (returned (cs.drop n)) := by
  rw [if_neg (by simp [breaksOpen, hkind])]
  apply leads_returned hc
  rw [length_returned_take (not_mem_take_of_le hn) (hn.trans (lineLength_le cs))]
  exact h

theorem isContinue_ends :
    NameChar.isContinue '\n' = false ∧ NameChar.isContinue '\r' = false := by decide

/-- A backslash starts a join of two lines or nothing. -/
theorem Starts.of_backslash {kind : LexemeKind} (hr : '\r' ∉ cs) (h : Starts '\\' cs kind n) :
    kind = .joinedBreak ∧ n = 1 ∧ ∃ rest, cs = '\n' :: rest := by
  have hstart : NameChar.isStart '\\' = false := by decide
  cases h with
  | joined _ htake =>
    cases cs with
    | nil => simp at htake
    | cons d rest =>
      rw [List.take_succ_cons, List.take_zero, List.cons.injEq] at htake
      exact ⟨rfl, rfl, rest, by rw [htake.1]⟩
  | joinedReturn _ htake => exact absurd (List.mem_of_mem_take (by rw [htake]; simp)) hr
  | blank hc => simp [isBlank] at hc
  | string hc _ => simp [opening?, isQuote, isStringMark] at hc
  | name hc => simp [hstart] at hc
  | number hc => simp [numberLength?] at hc
  | operator hc => simp [operatorLength?, longOperators, shortOperators, isOperatorChar] at hc
  | lineBreak hc | returned hc | comment hc => simp at hc

/-- A string is closed in both texts, or it hides a line feed and the other text is at fault. -/
theorem leads_string {c : Char} {marks : Nat} {quote : Char} (hr : '\r' ∉ c :: cs) (hc : c ≠ '\n')
    (hopen : opening? (c :: cs) = some (marks, quote))
    (hlength : stringLength marks quote (c :: cs) = .ok n)
    (hhead : head c (returned cs) =
      (stringLength marks quote (returned (c :: cs))).map fun n => (.string, n - 1)) :
    if breaksOpen ⟨.string, c :: cs.take (n - 1)⟩ then
      ∃ fault, scan (returned (c :: cs)) = (#[], some fault)
    else Leads (returned (c :: cs)) (withReturns ⟨.string, c :: cs.take (n - 1)⟩)
      (returned (cs.drop (n - 1))) := by
  obtain ⟨hpos, hother⟩ := stringLength_returned hr hopen hlength
  obtain ⟨n, rfl⟩ := Nat.exists_eq_add_of_lt hpos
  simp only [Nat.zero_add, Nat.add_sub_cancel, List.take_succ_cons] at hother ⊢
  by_cases hhides : hidesBreak (c :: cs.take n) = true
  · rw [if_pos hhides] at hother
    rw [if_pos (by simpa [breaksOpen] using hhides)]
    obtain ⟨fault, hfault⟩ := hother
    refine ⟨fault, ?_⟩
    rw [returned_cons hc, scan, scanFrom, hhead, hfault]
    rfl
  · rw [if_neg hhides] at hother
    rw [if_neg (by simpa [breaksOpen] using hhides)]
    apply leads_returned hc
    rw [hhead, hother, returned_cons hc, List.length_cons]
    rfl

/-- The first lexeme of a text stands at the front of the other one too, unless it is a string that
hides a line feed: then no lexeme can start there. -/
theorem Leads.withReturns {text rest : List Char} {lexeme : Lexeme} (hr : '\r' ∉ text)
    (h : Leads text lexeme rest) :
    if lexeme.breaksOpen then ∃ fault, scan (returned text) = (#[], some fault)
    else Leads (returned text) lexeme.withReturns (returned rest) := by
  obtain ⟨c, cs, n, rfl, hhead, htext, rfl⟩ := h
  obtain ⟨kind, _⟩ := lexeme
  dsimp only at hhead htext
  subst htext
  obtain ⟨hcr, hcsr⟩ := List.ne_and_not_mem_of_not_mem_cons hr
  by_cases hfeed : c = '\n'
  · subst hfeed
    simp [head, isBlank] at hhead
    obtain ⟨rfl, rfl⟩ := hhead
    rw [if_neg (by simp [breaksOpen])]
    exact ⟨'\r', '\n' :: returned cs, 1, rfl, by simp [head, isBlank, Lexeme.withReturns], rfl, rfl⟩
  by_cases hback : c = '\\'
  · subst hback
    obtain ⟨rfl, rfl, rest, rfl⟩ := (head_starts hhead).of_backslash hcsr
    rw [if_neg (by simp [breaksOpen])]
    apply leads_returned (by decide)
    simp [head, isBlank]
  have hopening := opening?_returned (c :: cs)
  have hnumber := inline_number (c :: cs)
  have hoperator := inline_operator (c :: cs)
  rw [lineLength_cons hfeed] at hnumber hoperator
  -- Neither text starts with a line break or a join, so both are read by the same tests.
  have hplain : c ≠ '\r' := Ne.symm hcr
  unfold head at hhead
  split at hhead
  · next hblank =>
    cases hhead
    obtain ⟨hsame, hle⟩ := inline_takeWhile (p := isBlank) rfl rfl cs
    exact leads_inline (by decide) hfeed hle (by simp [head, hblank, hsame])
  next hblank =>
  rw [if_neg (fun hboth => hplain hboth.1), if_neg (fun hboth => hback hboth.1),
    if_neg (fun hboth => hback hboth.1)] at hhead
  split at hhead
  · next hhash =>
    cases hhead
    subst hhash
    obtain ⟨hsame, hle⟩ := inline_takeWhile (p := isCommentChar) rfl rfl cs
    exact leads_inline (by decide) hfeed hle (by simp [head, isBlank, hsame])
  next hhash =>
  split at hhead
  · next marks quote hopen =>
    cases hlength : stringLength marks quote (c :: cs) with
    | error fault => rw [hlength] at hhead; cases hhead
    | ok m =>
      rw [hlength] at hhead
      cases hhead
      apply leads_string hr hfeed hopen hlength
      rw [hopen, returned_cons hfeed] at hopening
      simp [head, hblank, hfeed, hplain, hback, hhash, hopening, returned_cons hfeed]
  next hopen =>
  rw [hopen, returned_cons hfeed] at hopening
  split at hhead
  · next hname =>
    cases hhead
    obtain ⟨hsame, hle⟩ := inline_takeWhile isContinue_ends.1 isContinue_ends.2 cs
    exact leads_inline (by decide) hfeed hle
      (by simp [head, hblank, hfeed, hplain, hback, hhash, hopening, hname, hsame])
  next hname =>
  rw [returned_cons hfeed] at hnumber hoperator
  split at hhead
  · next m hfound =>
    cases hhead
    rw [hfound] at hnumber
    have hle := hnumber.2 m rfl
    exact leads_inline (by decide) hfeed (by omega)
      (by simp [head, hblank, hfeed, hplain, hback, hhash, hopening, hname, hnumber.1])
  next hnone =>
  rw [hnone] at hnumber
  split at hhead
  · next m hfound =>
    cases hhead
    rw [hfound] at hoperator
    have hle := hoperator.2 m rfl
    exact leads_inline (by decide) hfeed (by omega)
      (by simp [head, hblank, hfeed, hplain, hback, hhash, hopening, hname, hnumber.1, hoperator.1])
  · cases hhead

/-- The lexemes of both texts are the same, if none hides a line feed. Where one does, the scanner
is at fault in the second text. -/
theorem scan_returned {cs : List Char} (hr : '\r' ∉ cs) (h : (scan cs).2 = none) :
    ((∀ l ∈ (scan cs).1.toList, l.breaksOpen = false) →
      (scan (returned cs)).1.toList = (scan cs).1.toList.map withReturns ∧
        (scan (returned cs)).2 = none) ∧
    ((∃ l ∈ (scan cs).1.toList, l.breaksOpen = true) → (scan (returned cs)).2 ≠ none) := by
  induction hn : cs.length using Nat.strong_induction_on generalizing cs with
  | _ k ih =>
  cases cs with
  | nil => simp [scan, scanFrom]
  | cons c cs =>
    cases hhead : head c cs with
    | error fault => simp [scan, scanFrom, hhead] at h
    | ok found =>
      obtain ⟨kind, n⟩ := found
      have hleads : Leads (c :: cs) ⟨kind, c :: cs.take n⟩ (cs.drop n) :=
        ⟨c, cs, n, rfl, hhead, rfl, rfl⟩
      have hother := hleads.withReturns hr
      have hrest : '\r' ∉ cs.drop n := fun hmem =>
        hr (List.mem_cons_of_mem _ (List.mem_of_mem_drop hmem))
      have hshort : (cs.drop n).length < k := by
        rw [← hn, List.length_drop, List.length_cons]
        omega
      rw [scan_of_leads hleads] at h ⊢
      obtain ⟨hsame, hfault⟩ := ih _ hshort hrest h rfl
      by_cases hopen : breaksOpen ⟨kind, c :: cs.take n⟩ = true
      · rw [if_pos hopen] at hother
        obtain ⟨fault, hscan⟩ := hother
        rw [hscan]
        refine ⟨fun hall => ?_, fun _ => by simp⟩
        have hclosed := hall ⟨kind, c :: cs.take n⟩ (by simp)
        rw [hopen] at hclosed
        cases hclosed
      · rw [if_neg hopen] at hother
        rw [scan_of_leads hother]
        refine ⟨fun hall => ?_, ?_⟩
        · obtain ⟨hlexemes, hnone⟩ := hsame fun l hl => hall l (by simp [hl])
          exact ⟨by simp [hlexemes], hnone⟩
        · rintro ⟨l, hl, hbreaks⟩
          simp only [Array.toList_append, List.mem_append, List.mem_singleton] at hl
          rcases hl with rfl | hl
          · exact absurd hbreaks hopen
          · exact hfault ⟨l, hl, hbreaks⟩

/-- Blanks and operators stand on one line. -/
theorem Scans.on_one_line {lexemes : List Lexeme} (h : Scans cs lexemes) :
    ∀ l ∈ lexemes, l.kind = .blank ∨ l.kind = .operator → '\n' ∉ l.text := by
  induction h with
  | nil => simp
  | @cons c cs kind n lexemes hstarts _ ih =>
    intro l hl hkind
    rcases List.mem_cons.mp hl with rfl | hl
    · rcases hkind with rfl | rfl
      · intro hmem
        have hblank := hstarts.blanks _ hmem
        simp [isBlank] at hblank
      · cases hstarts with
        | @operator m hlength =>
          have hle := (inline_operator (c :: cs)).2 m hlength
          have hpos : 0 < m := by
            simp only [operatorLength?] at hlength
            grind
          rw [← List.take_succ_cons, Nat.sub_add_cancel hpos]
          exact not_mem_take_of_le hle
    · exact ih l hl hkind

end Lexeme

end SourceMacros
