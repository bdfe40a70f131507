-- String literals by their bytes. A body is made of escape pairs, a backslash with whatever byte
-- comes next, and of single bytes. The scanners go by characters, and yet they end a literal where
-- this grammar does: an escape may part the bytes of a character, but those left of it are too
-- large to be a quote, a backslash or a line feed.
import SourceMacros.Proofs.Faults
import SourceMacros.Proofs.ReturnedLexemes

namespace SourceMacros

/-! ## Characters and their bytes -/

/-- The byte of a character that has only one. -/
def byteOf (c : Char) : UInt8 := UInt8.ofNat c.toNat

theorem byteOf_inj {c d : Char} (hc : c.toNat < 128) (hd : d.toNat < 128) :
    byteOf c = byteOf d ↔ c = d := by
  have hsize : 128 < UInt8.size := by decide
  rw [byteOf, byteOf, ← UInt8.toNat_inj, UInt8.toNat_ofNat_of_lt' (hc.trans hsize),
    UInt8.toNat_ofNat_of_lt' (hd.trans hsize), Char.toNat_inj]

/-- A byte that belongs to a character of several bytes. -/
def IsPart (b : UInt8) : Prop := 128 ≤ b.toNat

theorem byteOf_not_isPart {c : Char} (hc : c.toNat < 128) : ¬ IsPart (byteOf c) := by
  rw [IsPart, byteOf, UInt8.toNat_ofNat_of_lt' (hc.trans (by decide))]
  omega

/-- A character has one byte of its own, or nothing but parts. -/
theorem utf8EncodeChar_cases (c : Char) :
    (c.toNat < 128 ∧ String.utf8EncodeChar c = [byteOf c]) ∨
      128 ≤ c.toNat ∧ ∀ b ∈ String.utf8EncodeChar c, IsPart b := by
  have hc : c.val.toNat = c.toNat := rfl
  have hpart {n : Nat} (hlow : 128 ≤ n) (hhigh : n < 256) : IsPart (UInt8.ofNat n) := by
    rw [IsPart, UInt8.toNat_ofNat_of_lt' hhigh]
    exact hlow
  rw [String.utf8EncodeChar.eq_1]
  by_cases hone : c.val.toNat ≤ 127
  · exact Or.inl ⟨by omega, by rw [if_pos hone]; rfl⟩
  refine Or.inr ⟨by omega, ?_⟩
  rw [if_neg hone]
  split
  · simp only [List.forall_mem_cons]
    exact ⟨hpart (by omega) (by omega), hpart (by omega) (by omega), by simp⟩
  split
  · simp only [List.forall_mem_cons]
    exact ⟨hpart (by omega) (by omega), hpart (by omega) (by omega), hpart (by omega) (by omega),
      by simp⟩
  · simp only [List.forall_mem_cons]
    exact ⟨hpart (by omega) (by omega), hpart (by omega) (by omega), hpart (by omega) (by omega),
      hpart (by omega) (by omega), by simp⟩

theorem utf8EncodeChar_ne_nil (c : Char) : String.utf8EncodeChar c ≠ [] := by
  rw [← List.length_pos_iff, String.length_utf8EncodeChar]
  exact c.utf8Size_pos

theorem utf8Size_of_small {c : Char} (hc : c.toNat < 128) : c.utf8Size = 1 := by
  rw [Char.utf8Size_eq_one_iff, UInt32.le_iff_toNat_le]
  exact Nat.le_of_lt_succ hc

theorem bytes_cons (c : Char) (cs : List Char) :
    bytes (String.ofList (c :: cs)) = String.utf8EncodeChar c ++ bytes (String.ofList cs) := by
  simp only [bytes_ofList, List.flatMap_cons]

/-! ## The grammar -/

/-- The byte that hides the one after it. -/
def backslash : UInt8 := 92

/-- Bytes that split into escape pairs and single bytes that are neither a backslash nor barred. -/
inductive Splits (barred : UInt8 → Prop) : List UInt8 → Prop
  | nil : Splits barred []
  | pair {b : UInt8} {bs : List UInt8} : Splits barred bs → Splits barred (backslash :: b :: bs)
  | single {b : UInt8} {bs : List UInt8} : b ≠ backslash → ¬ barred b → Splits barred bs →
      Splits barred (b :: bs)

/-- The closing bytes of a literal stand at an offset, behind bytes that split. -/
structure EndsAt (barred : UInt8 → Prop) (closing bs : List UInt8) (i : Nat) : Prop where
  body : Splits barred (bs.take i)
  closing : closing <+: bs.drop i

/-- A literal on one line ends at an offset. Its body has no quote and no line feed in the open. -/
def QuotedTo (quote : UInt8) : List UInt8 → Nat → Prop :=
  EndsAt (fun b => b = quote ∨ b = lineFeed) [quote]

/-- Three quotes stand at an offset that is not escaped. -/
def TripleQuotedTo (quote : UInt8) : List UInt8 → Nat → Prop :=
  EndsAt (fun _ => False) [quote, quote, quote]

variable {barred : UInt8 → Prop} {quote b : UInt8} {closing bs run : List UInt8} {i j : Nat}

theorem splits_single (hb : b ≠ backslash) :
    Splits barred (b :: bs) ↔ ¬ barred b ∧ Splits barred bs := by
  constructor
  · intro h
    generalize hlist : b :: bs = list at h
    cases h with
    | nil => cases hlist
    | pair _ => exact absurd (List.cons.inj hlist).1 hb
    | single _ hbarred h =>
      obtain ⟨rfl, rfl⟩ := List.cons.inj hlist
      exact ⟨hbarred, h⟩
  · exact fun ⟨hbarred, h⟩ => .single hb hbarred h

/-- A backslash always goes with the byte behind it. -/
theorem splits_backslash : Splits barred (backslash :: bs) ↔ ∃ b rest, bs = b :: rest ∧
    Splits barred rest := by
  constructor
  · intro h
    cases h with
    | pair h => exact ⟨_, _, rfl, h⟩
    | single hne _ _ => exact absurd rfl hne
  · rintro ⟨b, rest, rfl, h⟩
    exact .pair h

/-- What stands behind bytes that split goes on as a split of its own. -/
theorem Splits.behind {other : UInt8 → Prop} {front : List UInt8} (hfront : Splits other front)
    (h : Splits barred (front ++ bs)) : Splits barred bs := by
  induction hfront with
  | nil => exact h
  | pair _ ih =>
    obtain ⟨b, rest, heq, h⟩ := splits_backslash.mp h
    obtain ⟨rfl, rfl⟩ := List.cons.inj heq
    exact ih h
  | single hne _ _ ih => exact ih ((splits_single hne).mp h).2

/-- A literal on one line ends once. -/
theorem QuotedTo.unique (hquote : quote ≠ backslash) (hi : QuotedTo quote bs i)
    (hj : QuotedTo quote bs j) : j = i := by
  -- The earlier of two ends would stand as a quote in the open, in the body of the later one.
  have hle {i j : Nat} (hi : QuotedTo quote bs i) (hj : QuotedTo quote bs j) : j ≤ i := by
    by_contra hlt
    rw [not_le] at hlt
    obtain ⟨rest, hrest⟩ := hi.closing
    have hbody := hj.body
    rw [← List.take_append_drop i (bs.take j), List.take_take, min_eq_left hlt.le, List.drop_take,
      ← hrest, List.singleton_append] at hbody
    obtain ⟨n, hn⟩ : ∃ n, j - i = n + 1 := ⟨j - i - 1, by omega⟩
    rw [hn, List.take_succ_cons] at hbody
    exact ((splits_single hquote).mp (hi.body.behind hbody)).1 (Or.inl rfl)
  exact le_antisymm (hle hi hj) (hle hj hi)

/-! ## One step -/

theorem endsAt_pair (hquote : quote ≠ backslash) :
    EndsAt barred (quote :: closing) (backslash :: b :: bs) i ↔
      ∃ j, i = j + 2 ∧ EndsAt barred (quote :: closing) bs j := by
  constructor
  · rintro ⟨hbody, hclosing⟩
    match i with
    | 0 => exact absurd (List.cons_prefix_cons.mp hclosing).1 hquote
    | 1 =>
      obtain ⟨_, _, heq, -⟩ := splits_backslash.mp hbody
      cases heq
    | j + 2 =>
      obtain ⟨_, _, heq, hbody⟩ := splits_backslash.mp hbody
      obtain ⟨-, rfl⟩ := List.cons.inj heq
      exact ⟨j, rfl, hbody, hclosing⟩
  · rintro ⟨j, rfl, hbody, hclosing⟩
    exact ⟨.pair hbody, hclosing⟩

theorem endsAt_single (hb : b ≠ backslash) (hbarred : ¬ barred b)
    (hclosing : ¬ closing <+: b :: bs) :
    EndsAt barred closing (b :: bs) i ↔ ∃ j, i = j + 1 ∧ EndsAt barred closing bs j := by
  constructor
  · rintro ⟨hbody, hends⟩
    match i with
    | 0 => exact absurd hends hclosing
    | j + 1 => exact ⟨j, rfl, ((splits_single hb).mp hbody).2, hends⟩
  · rintro ⟨j, rfl, hbody, hends⟩
    exact ⟨.single hb hbarred hbody, hends⟩

/-- No literal ends among the parts of characters. -/
theorem endsAt_parts (hquote : ¬ IsPart quote) (hbarred : ∀ b, barred b → ¬ IsPart b)
    (hrun : ∀ b ∈ run, IsPart b) :
    EndsAt barred (quote :: closing) (run ++ bs) i ↔
      ∃ j, i = j + run.length ∧ EndsAt barred (quote :: closing) bs j := by
  induction run generalizing i with
  | nil => simp
  | cons b run ih =>
    obtain ⟨hb, hrun⟩ := List.forall_mem_cons.mp hrun
    have hback : b ≠ backslash := by
      rintro rfl
      unfold IsPart at hb
      exact absurd hb (by decide)
    have hclosing : ¬ quote :: closing <+: b :: (run ++ bs) := by
      intro hprefix
      rw [(List.cons_prefix_cons.mp hprefix).1] at hquote
      exact hquote hb
    rw [List.cons_append, endsAt_single hback (fun h => hbarred b h hb) hclosing]
    constructor
    · rintro ⟨j, rfl, hends⟩
      obtain ⟨k, hk, hrest⟩ := (ih hrun).mp hends
      exact ⟨k, by rw [List.length_cons]; omega, hrest⟩
    · rintro ⟨k, rfl, hends⟩
      exact ⟨k + run.length, by rw [List.length_cons]; omega, (ih hrun).mpr ⟨k, rfl, hends⟩⟩

/-- A byte that is barred ends the literal or stands in its way. -/
theorem endsAt_barred (hb : b ≠ backslash) (hbarred : barred b)
    (hends : EndsAt barred closing (b :: bs) i) : i = 0 ∧ closing <+: b :: bs := by
  match i with
  | 0 => exact ⟨rfl, hends.closing⟩
  | j + 1 => exact absurd hbarred ((splits_single hb).mp hends.body).1

/-! ## What a scanner finds -/

/-- What a scanner detects that has passed so many characters of a text: nothing where no literal
ends, or the characters up to the end of the literal, `width` bytes behind the first offset. -/
def Detects (passed : Nat) (cs : List Char) (width : Nat) (ends : Nat → Prop) : Option Nat → Prop
  | none => ∀ i, ¬ ends i
  | some n => ∃ m i, n = passed + m ∧ m ≤ cs.length ∧ byteLength (cs.take m) = i + width ∧
      ends i ∧ ∀ j, ends j → i ≤ j

variable {passed width : Nat} {ends ends' : Nat → Prop} {cs : List Char}

/-- What is detected in a text, from what is left behind some characters. -/
theorem Detects.behind {found : Option Nat} (front : List Char)
    (h : Detects (passed + front.length) cs width ends' found)
    (hends : ∀ i, ends i ↔ ∃ j, i = j + byteLength front ∧ ends' j) :
    Detects passed (front ++ cs) width ends found := by
  cases found with
  | none =>
    intro i hi
    obtain ⟨j, -, hj⟩ := (hends i).mp hi
    exact h j hj
  | some n =>
    obtain ⟨m, i, rfl, hm, hlength, hi, hleast⟩ := h
    refine ⟨front.length + m, i + byteLength front, by omega, by simpa using hm, ?_,
      (hends _).mpr ⟨i, rfl, hi⟩, ?_⟩
    · rw [List.take_append, List.take_of_length_le (by omega), Nat.add_sub_cancel_left,
        byteLength_append, hlength]
      omega
    · intro k hk
      obtain ⟨j, rfl, hj⟩ := (hends k).mp hk
      have := hleast j hj
      omega

theorem Detects.found {m : Nat} (hm : m ≤ cs.length) (hlength : byteLength (cs.take m) = width)
    (hends : ends 0) : Detects passed cs width ends (some (passed + m)) :=
  ⟨m, 0, rfl, hm, by rw [hlength, Nat.zero_add], hends, fun _ _ => Nat.zero_le _⟩

namespace Lexeme

variable {quote : Char}

theorem quote_small (hq : isQuote quote = true) : quote.toNat < 128 ∧ byteOf quote ≠ backslash := by
  rw [isQuote, Bool.or_eq_true, beq_iff_eq, beq_iff_eq] at hq
  rcases hq with rfl | rfl <;> decide

/-- Quotes at the front of a text are those at the front of its bytes. -/
theorem quotes_prefix_iff (hq : quote.toNat < 128) (n : Nat) (cs : List Char) :
    List.replicate n (byteOf quote) <+: bytes (String.ofList cs) ↔
      List.replicate n quote <+: cs := by
  induction n generalizing cs with
  | zero => simp
  | succ n ih =>
    cases cs with
    | nil =>
      have hbytes : bytes (String.ofList []) = [] := rfl
      simp [hbytes]
    | cons c cs =>
      rw [bytes_cons, List.replicate_succ, List.replicate_succ, List.cons_prefix_cons]
      rcases utf8EncodeChar_cases c with ⟨hsmall, hbytes⟩ | ⟨hlarge, hparts⟩
      · rw [hbytes, List.singleton_append, List.cons_prefix_cons, byteOf_inj hq hsmall, ih]
      · constructor
        · intro hprefix
          obtain ⟨b, more, hbytes⟩ := List.exists_cons_of_ne_nil (utf8EncodeChar_ne_nil c)
          rw [hbytes, List.cons_append, List.cons_prefix_cons] at hprefix
          rw [hbytes, ← hprefix.1] at hparts
          exact absurd (hparts _ List.mem_cons_self) (byteOf_not_isPart hq)
        · rintro ⟨rfl, -⟩
          omega

theorem not_endsAt_nil (i : Nat) :
    ¬ EndsAt barred (byteOf quote :: closing) (bytes (String.ofList [])) i := by
  have hbytes : bytes (String.ofList []) = [] := rfl
  rintro ⟨-, hclosing⟩
  rw [hbytes] at hclosing
  simp at hclosing

/-- A backslash at the very end hides nothing and closes nothing. -/
theorem not_endsAt_backslash (hq : isQuote quote = true) (i : Nat) :
    ¬ EndsAt barred (byteOf quote :: closing) (bytes (String.ofList ['\\'])) i := by
  have hbytes : bytes (String.ofList ['\\']) = [backslash] := by decide
  rintro ⟨-, hclosing⟩
  rw [hbytes] at hclosing
  match i with
  | 0 => exact (quote_small hq).2 (List.cons_prefix_cons.mp hclosing).1
  | i + 1 => simp at hclosing

/-- A backslash with the character behind it is an escape pair, and the rest of that character. -/
theorem endsAt_escape (hq : isQuote quote = true) (hbarred : ∀ b, barred b → ¬ IsPart b)
    (d : Char) (i : Nat) :
    EndsAt barred (byteOf quote :: closing) (bytes (String.ofList ('\\' :: d :: cs))) i ↔
      ∃ j, i = j + byteLength ['\\', d] ∧
        EndsAt barred (byteOf quote :: closing) (bytes (String.ofList cs)) j := by
  obtain ⟨hsmall, hback⟩ := quote_small hq
  obtain ⟨b, more, hbytes⟩ := List.exists_cons_of_ne_nil (utf8EncodeChar_ne_nil d)
  have hlength : d.utf8Size = more.length + 1 := by
    rw [← String.length_utf8EncodeChar, hbytes, List.length_cons]
  have hmore : ∀ b ∈ more, IsPart b := by
    rcases utf8EncodeChar_cases d with ⟨-, hone⟩ | ⟨-, hparts⟩
    · rw [hbytes, List.cons.injEq] at hone
      simp [hone.2]
    · rw [hbytes] at hparts
      exact fun b hb => hparts b (List.mem_cons_of_mem _ hb)
  have hfirst : String.utf8EncodeChar '\\' = [backslash] := by decide
  have hsize : byteLength ['\\', d] = more.length + 2 := by
    rw [byteLength, List.foldr_cons, List.foldr_cons, List.foldr_nil, hlength]
    simp only [show '\\'.utf8Size = 1 from rfl]
    omega
  rw [bytes_cons, bytes_cons, hfirst, hbytes, List.singleton_append, List.cons_append,
    endsAt_pair hback, hsize]
  constructor
  · rintro ⟨k, rfl, hends⟩
    obtain ⟨j, hj, hrest⟩ := (endsAt_parts (byteOf_not_isPart hsmall) hbarred hmore).mp hends
    exact ⟨j, by omega, hrest⟩
  · rintro ⟨j, rfl, hends⟩
    exact ⟨j + more.length, by omega,
      (endsAt_parts (byteOf_not_isPart hsmall) hbarred hmore).mpr ⟨j, rfl, hends⟩⟩

/-- A character that closes nothing is passed over with all its bytes. -/
theorem endsAt_cons (hq : isQuote quote = true) (hbarred : ∀ b, barred b → ¬ IsPart b) {c : Char}
    (hc : c ≠ '\\') (hnot : c.toNat < 128 → ¬ barred (byteOf c))
    (hclosing : ¬ byteOf quote :: closing <+: bytes (String.ofList (c :: cs))) (i : Nat) :
    EndsAt barred (byteOf quote :: closing) (bytes (String.ofList (c :: cs))) i ↔
      ∃ j, i = j + byteLength [c] ∧
        EndsAt barred (byteOf quote :: closing) (bytes (String.ofList cs)) j := by
  obtain ⟨hsmall, -⟩ := quote_small hq
  have hsize : byteLength [c] = (String.utf8EncodeChar c).length := by
    rw [String.length_utf8EncodeChar]
    rfl
  rw [bytes_cons] at hclosing ⊢
  rw [hsize]
  rcases utf8EncodeChar_cases c with ⟨hone, hbytes⟩ | ⟨-, hparts⟩
  · have hback : byteOf c ≠ backslash := by
      rw [show backslash = byteOf '\\' by decide, Ne, byteOf_inj hone (by decide)]
      exact hc
    rw [hbytes, List.singleton_append] at hclosing ⊢
    exact endsAt_single hback (hnot hone) hclosing
  · exact endsAt_parts (byteOf_not_isPart hsmall) hbarred hparts

theorem ne_backslash {c : Char} {rest : List Char} (hlast : c = '\\' → rest = [] → False)
    (hmore : ∀ d more, c = '\\' → rest = d :: more → False) : c ≠ '\\' := by
  intro hc
  cases rest with
  | nil => exact hlast hc rfl
  | cons d more => exact hmore d more hc rfl

/-- The scanner for literals on one line goes by the grammar. -/
theorem closing?_detects (hq : isQuote quote = true) (passed : Nat) (cs : List Char) :
    Detects passed cs 1 (QuotedTo (byteOf quote) (bytes (String.ofList cs)))
      (closing? quote passed cs) := by
  obtain ⟨hsmall, -⟩ := quote_small hq
  obtain ⟨hfeed, -, -⟩ := quote_plain hq
  have hbarred : ∀ b, b = byteOf quote ∨ b = lineFeed → ¬ IsPart b := by
    rintro b (rfl | rfl)
    · exact byteOf_not_isPart hsmall
    · unfold IsPart
      decide
  fun_induction closing? quote passed cs with
  | case1 passed => exact not_endsAt_nil
  | case2 passed => exact not_endsAt_backslash hq
  | case3 passed d rest ih => exact ih.behind ['\\', d] (endsAt_escape hq hbarred d)
  | case4 passed rest =>
    intro i hi
    have hbytes : String.utf8EncodeChar '\n' = [lineFeed] := by decide
    rw [bytes_cons, hbytes, List.singleton_append] at hi
    obtain ⟨-, hclosing⟩ := endsAt_barred (by decide) (Or.inr rfl) hi
    have hquote := (List.cons_prefix_cons.mp hclosing).1
    rw [show lineFeed = byteOf '\n' by decide, byteOf_inj hsmall (by decide)] at hquote
    exact hfeed hquote
  | case5 passed rest =>
    refine .found (m := 1) (by simp) ?_ ⟨.nil, ?_⟩
    · exact utf8Size_of_small hsmall
    · rw [List.drop_zero]
      exact (quotes_prefix_iff hsmall 1 _).mpr ⟨rest, rfl⟩
  | case6 passed c rest hlast hmore hc hcq ih =>
    refine ih.behind [c] (endsAt_cons hq hbarred (ne_backslash hlast hmore) ?_ ?_)
    · rintro hone (heq | heq)
      · exact hcq ((byteOf_inj hone hsmall).mp heq)
      · rw [show lineFeed = byteOf '\n' by decide, byteOf_inj hone (by decide)] at heq
        exact hc heq
    · intro hclosing
      obtain ⟨more, hprefix⟩ := (quotes_prefix_iff hsmall 1 _).mp hclosing
      exact hcq (List.cons.inj hprefix).1.symm

/-- The scanner for literals that may span lines goes by the grammar. -/
theorem tripleClosing?_detects (hq : isQuote quote = true) (passed : Nat) (cs : List Char) :
    Detects passed cs 3 (TripleQuotedTo (byteOf quote) (bytes (String.ofList cs)))
      (tripleClosing? quote passed cs) := by
  obtain ⟨hsmall, -⟩ := quote_small hq
  have htriple (cs : List Char) :
      [byteOf quote, byteOf quote, byteOf quote] <+: bytes (String.ofList cs) ↔
        [quote, quote, quote] <+: cs := quotes_prefix_iff hsmall 3 cs
  fun_induction tripleClosing? quote passed cs with
  | case1 passed => exact not_endsAt_nil
  | case2 passed => exact not_endsAt_backslash hq
  | case3 passed d rest ih => exact ih.behind ['\\', d] (endsAt_escape hq (by simp) d)
  | case4 passed c rest hlast hmore hquotes =>
    obtain ⟨rfl, hrest⟩ := hquotes
    have hprefix : [c, c, c] <+: c :: rest :=
      ⟨rest.drop 2, by rw [List.cons_append, ← hrest, List.take_append_drop]⟩
    refine .found (m := 3) ?_ ?_ ⟨.nil, (htriple _).mpr hprefix⟩
    · simpa using hprefix.length_le
    · rw [List.take_succ_cons, hrest]
      simp [byteLength, utf8Size_of_small hsmall]
  | case5 passed c rest hlast hmore hquotes ih =>
    refine ih.behind [c]
      (endsAt_cons hq (by simp) (ne_backslash hlast hmore) (by simp) ?_)
    intro hclosing
    obtain ⟨more, hprefix⟩ := (htriple _).mp hclosing
    obtain ⟨rfl, rfl⟩ := List.cons.inj hprefix
    exact hquotes ⟨rfl, rfl⟩

/-! ## The law -/

/-- A scanner that has passed so many characters goes on to `n`, by so many bytes of the text ahead,
and is between two characters then, whatever the text before it is. -/
structure Bumps (passed : Nat) (cs : List Char) (n width : Nat) : Prop where
  ahead : ∃ m ≤ cs.length, n = passed + m ∧ byteLength (cs.take m) = width
  boundary : ∀ before : List Char,
    String.Pos.Raw.IsValid (String.ofList (before ++ cs)) ⟨byteLength before + width⟩

theorem bumps_of_take {m n width : Nat} (hm : m ≤ cs.length) (hn : n = passed + m)
    (hwidth : byteLength (cs.take m) = width) : Bumps passed cs n width := by
  refine ⟨⟨m, hm, hn, hwidth⟩, fun before => ?_⟩
  have hfront := isValid_front (before ++ cs.take m) (cs.drop m)
  rwa [List.append_assoc, List.take_append_drop, byteLength_append, hwidth] at hfront

/-- A scanner succeeds exactly when a literal ends somewhere in the bytes ahead. One on a single
line ends only once, and one with three quotes where they first stand unescaped. The scanner goes on
just behind that end, which is between two characters. -/
theorem literals_end_where_their_grammar_does (hq : isQuote quote = true) (passed : Nat)
    (cs : List Char) :
    ((∃ n, closing? quote passed cs = some n) ↔
      ∃ i, QuotedTo (byteOf quote) (bytes (String.ofList cs)) i) ∧
    (∀ n, closing? quote passed cs = some n →
      ∃ i, QuotedTo (byteOf quote) (bytes (String.ofList cs)) i ∧
        (∀ j, QuotedTo (byteOf quote) (bytes (String.ofList cs)) j → j = i) ∧
        Bumps passed cs n (i + 1)) ∧
    ((∃ n, tripleClosing? quote passed cs = some n) ↔
      ∃ i, TripleQuotedTo (byteOf quote) (bytes (String.ofList cs)) i) ∧
    ∀ n, tripleClosing? quote passed cs = some n →
      ∃ i, TripleQuotedTo (byteOf quote) (bytes (String.ofList cs)) i ∧
        (∀ j, TripleQuotedTo (byteOf quote) (bytes (String.ofList cs)) j → i ≤ j) ∧
        Bumps passed cs n (i + 3) := by
  have hsingle := closing?_detects hq passed cs
  have htriple := tripleClosing?_detects hq passed cs
  refine ⟨?_, ?_, ?_, ?_⟩
  · cases hscan : closing? quote passed cs with
    | none =>
      rw [hscan] at hsingle
      exact iff_of_false (by simp) (not_exists.mpr hsingle)
    | some n =>
      rw [hscan] at hsingle
      obtain ⟨m, i, -, -, -, hi, -⟩ := hsingle
      exact iff_of_true ⟨n, rfl⟩ ⟨i, hi⟩
  · intro n hscan
    rw [hscan] at hsingle
    obtain ⟨m, i, hn, hm, hwidth, hi, -⟩ := hsingle
    exact ⟨i, hi, fun j hj => hi.unique (quote_small hq).2 hj, bumps_of_take hm hn hwidth⟩
  · cases hscan : tripleClosing? quote passed cs with
    | none =>
      rw [hscan] at htriple
      exact iff_of_false (by simp) (not_exists.mpr htriple)
    | some n =>
      rw [hscan] at htriple
      obtain ⟨m, i, -, -, -, hi, -⟩ := htriple
      exact iff_of_true ⟨n, rfl⟩ ⟨i, hi⟩
  · intro n hscan
    rw [hscan] at htriple
    obtain ⟨m, i, hn, hm, hwidth, hi, hleast⟩ := htriple
    exact ⟨i, hi, hleast, bumps_of_take hm hn hwidth⟩

/-- A backslash before a character of two bytes, and a quote that closes. -/
def partedBody : List Char := "\\é'x".toList

/-- A hidden quote with two in the open behind it, and three that close. -/
def hiddenBody : List Char := "\\\"\"\"é\"\"\"".toList

theorem the_parted_and_the_hidden_body_end :
    isQuote '\'' = true ∧ isQuote '"' = true ∧
      closing? '\'' 1 partedBody = some 4 ∧
      (∃ i, QuotedTo (byteOf '\'') (bytes (String.ofList partedBody)) i ∧
        Bumps 1 partedBody 4 (i + 1)) ∧
      tripleClosing? '"' 3 hiddenBody = some 11 ∧
      ∃ i, TripleQuotedTo (byteOf '"') (bytes (String.ofList hiddenBody)) i ∧
        (∀ j, TripleQuotedTo (byteOf '"') (bytes (String.ofList hiddenBody)) j → i ≤ j) ∧
        Bumps 3 hiddenBody 11 (i + 3) := by
  have hsingle : closing? '\'' 1 partedBody = some 4 := by decide
  have htriple : tripleClosing? '"' 3 hiddenBody = some 11 := by decide
  have hq : isQuote '\'' = true ∧ isQuote '"' = true := by decide
  obtain ⟨-, hends, -, -⟩ := literals_end_where_their_grammar_does hq.1 1 partedBody
  obtain ⟨-, -, -, hends'⟩ := literals_end_where_their_grammar_does hq.2 3 hiddenBody
  obtain ⟨i, hi, -, hbumps⟩ := hends 4 hsingle
  exact ⟨hq.1, hq.2, hsingle, ⟨i, hi, hbumps⟩, htriple, hends' 11 htriple⟩

end Lexeme

end SourceMacros
