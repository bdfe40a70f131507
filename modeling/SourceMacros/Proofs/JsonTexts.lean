-- The grammar of JSON, and how much of it the readers take. A value that nobody wants is skipped to
-- its last character however deep it nests, and of the members of an object only those that are
-- known by name are read, each wherever it stands.
import SourceMacros.Proofs.RecordText
import Mathlib.Data.List.DropRight

namespace SourceMacros

namespace Json

/-! ## The grammar -/

inductive Value where
  | null
  | bool (b : Bool)
  | number
  /-- A string, and its text unless that is left open. -/
  | string (text : Option String)
  | array (items : List Value)
  /-- The members in the order of the text, each with its name unless that is left open. -/
  | object (members : List (Option String × Value))

def Blanks (b : List Char) : Prop := ∀ c ∈ b, isBlank c = true

-- Half of a pair of surrogates is no character, and still it may stand in a string that is skipped.
-- So four digits may always be passed over without a word on the text.
/-- What stands between the quotes of a string, and the text it spells. -/
inductive Spells : List Char → Option (List Char) → Prop
  | nil : Spells [] (some [])
  | plain {c : Char} {cs : List Char} {text : Option (List Char)} : c ≠ '"' → c ≠ '\\' →
      ¬ c.toNat < 0x20 → Spells cs text → Spells (c :: cs) (text.map (c :: ·))
  | short {letter c : Char} {cs : List Char} {text : Option (List Char)} :
      escaped? letter = some c → Spells cs text →
      Spells ('\\' :: letter :: cs) (text.map (c :: ·))
  | unit {a b c d : Char} {n : Nat} {cs : List Char} {text : Option (List Char)} :
      hexUnit? a b c d = some n → isHighSurrogate n = false → isLowSurrogate n = false →
      Spells cs text →
      Spells ('\\' :: 'u' :: a :: b :: c :: d :: cs) (text.map (Char.ofNat n :: ·))
  | pair {a b c d a' b' c' d' : Char} {high low : Nat} {cs : List Char}
      {text : Option (List Char)} :
      hexUnit? a b c d = some high → isHighSurrogate high = true →
      hexUnit? a' b' c' d' = some low → isLowSurrogate low = true → Spells cs text →
      Spells ('\\' :: 'u' :: a :: b :: c :: d :: '\\' :: 'u' :: a' :: b' :: c' :: d' :: cs)
        (text.map (Char.ofNat ((high - 0xd800) * 0x400 + (low - 0xdc00) + 0x10000) :: ·))
  | skipped {a b c d : Char} {n : Nat} {cs : List Char} {text : Option (List Char)} :
      hexUnit? a b c d = some n → Spells cs text →
      Spells ('\\' :: 'u' :: a :: b :: c :: d :: cs) none

def Digits (ds : List Char) : Prop := ds ≠ [] ∧ ∀ d ∈ ds, isDigit d = true

inductive Whole : List Char → Prop
  | zero : Whole ['0']
  | digits {d : Char} {ds : List Char} : d ≠ '0' → Digits (d :: ds) → Whole (d :: ds)

inductive Fraction : List Char → Prop
  | none : Fraction []
  | some {ds : List Char} : Digits ds → Fraction ('.' :: ds)

inductive Exponent : List Char → Prop
  | none : Exponent []
  | some {e : Char} {sign ds : List Char} : e = 'e' ∨ e = 'E' →
      sign = [] ∨ sign = ['+'] ∨ sign = ['-'] → Digits ds → Exponent (e :: (sign ++ ds))

/-- A number without its minus sign. -/
inductive Unsigned : List Char → Prop
  | parts {whole fraction exponent : List Char} : Whole whole → Fraction fraction →
      Exponent exponent → Unsigned (whole ++ (fraction ++ exponent))

/-- A value, values with commas between them, or members with commas between them. -/
inductive Part where
  | value (v : Value)
  | items (vs : List Value)
  | members (ms : List (Option String × Value))

/-- The texts of a part. Blanks may stand before every piece of it. -/
inductive Writes : Part → List Char → Prop
  | null {b : List Char} : Blanks b → Writes (.value .null) (b ++ "null".toList)
  | yes {b : List Char} : Blanks b → Writes (.value (.bool true)) (b ++ "true".toList)
  | no {b : List Char} : Blanks b → Writes (.value (.bool false)) (b ++ "false".toList)
  | positive {b cs : List Char} : Blanks b → Unsigned cs → Writes (.value .number) (b ++ cs)
  | negative {b cs : List Char} : Blanks b → Unsigned cs →
      Writes (.value .number) (b ++ '-' :: cs)
  | string {b cs : List Char} {text : Option (List Char)} : Blanks b → Spells cs text →
      Writes (.value (.string (text.map String.ofList))) (b ++ '"' :: (cs ++ ['"']))
  | emptyArray {b b' : List Char} : Blanks b → Blanks b' →
      Writes (.value (.array [])) (b ++ '[' :: (b' ++ [']']))
  | array {b b' cs : List Char} {vs : List Value} : Blanks b → Writes (.items vs) cs →
      Blanks b' → Writes (.value (.array vs)) (b ++ '[' :: (cs ++ (b' ++ [']'])))
  | emptyObject {b b' : List Char} : Blanks b → Blanks b' →
      Writes (.value (.object [])) (b ++ '{' :: (b' ++ ['}']))
  | object {b b' cs : List Char} {ms : List (Option String × Value)} : Blanks b →
      Writes (.members ms) cs → Blanks b' →
      Writes (.value (.object ms)) (b ++ '{' :: (cs ++ (b' ++ ['}'])))
  | lastItem {v : Value} {cs : List Char} : Writes (.value v) cs → Writes (.items [v]) cs
  | item {v : Value} {vs : List Value} {b cs cs' : List Char} : Writes (.value v) cs →
      Blanks b → Writes (.items vs) cs' → Writes (.items (v :: vs)) (cs ++ (b ++ ',' :: cs'))
  | lastMember {name : Option (List Char)} {v : Value} {b b' key cs : List Char} : Blanks b →
      Spells key name → Blanks b' → Writes (.value v) cs →
      Writes (.members [(name.map String.ofList, v)])
        (b ++ '"' :: (key ++ '"' :: (b' ++ ':' :: cs)))
  | member {name : Option (List Char)} {v : Value} {ms : List (Option String × Value)}
      {b b' b'' key cs cs' : List Char} : Blanks b → Spells key name → Blanks b' →
      Writes (.value v) cs → Blanks b'' → Writes (.members ms) cs' →
      Writes (.members ((name.map String.ofList, v) :: ms))
        (b ++ '"' :: (key ++ '"' :: (b' ++ ':' :: (cs ++ (b'' ++ ',' :: cs')))))

/-! ## Strings -/

theorem stringTail_short {letter c : Char} (h : escaped? letter = some c) (rest : List Char) :
    stringTail ('\\' :: letter :: rest) = prepend c (stringTail rest) := by
  unfold escaped? at h
  split at h
  all_goals
    cases h
  all_goals rfl

theorem isLowSurrogate_of_high {n : Nat} (h : isHighSurrogate n = true) :
    isLowSurrogate n = false := by
  simp only [isHighSurrogate, isLowSurrogate, Bool.and_eq_true, decide_eq_true_eq,
    Bool.and_eq_false_iff, decide_eq_false_iff_not] at h ⊢
  omega

/-- A string that spells a text is read to its closing quote. -/
theorem stringTail_of_spells {cs : List Char} {spelled : Option (List Char)}
    (h : Spells cs spelled) {text : List Char} (htext : spelled = some text) (rest : List Char) :
    stringTail (cs ++ '"' :: rest) = .ok (text, rest) := by
  induction h generalizing text with
  | nil =>
    cases htext
    rfl
  | plain hquote hslash hplain _ ih =>
    obtain ⟨text, rfl, rfl⟩ := Option.map_eq_some_iff.mp htext
    rw [List.cons_append, stringTail_plain hquote hslash hplain, ih rfl]
    rfl
  | short hescaped _ ih =>
    obtain ⟨text, rfl, rfl⟩ := Option.map_eq_some_iff.mp htext
    rw [List.cons_append, List.cons_append, stringTail_short hescaped, ih rfl]
    rfl
  | unit hunit hhigh hlow _ ih =>
    obtain ⟨text, rfl, rfl⟩ := Option.map_eq_some_iff.mp htext
    simp only [List.cons_append]
    rw [stringTail.eq_def]
    simp only [hunit, hhigh, hlow, Bool.false_eq_true, if_false, ih rfl]
    rfl
  | pair hunit hhigh hunit' hlow _ ih =>
    obtain ⟨text, rfl, rfl⟩ := Option.map_eq_some_iff.mp htext
    simp only [List.cons_append]
    rw [stringTail.eq_def]
    simp only [hunit, hhigh, hunit', hlow, isLowSurrogate_of_high hhigh, Bool.false_eq_true,
      if_false, if_true, ih rfl]
    rfl
  | skipped => cases htext

theorem skipString_unit {a b c d : Char} {n : Nat} (h : hexUnit? a b c d = some n)
    (rest : List Char) :
    skipString ('\\' :: 'u' :: a :: b :: c :: d :: rest) = skipString rest := by
  rw [skipString.eq_def]
  simp only [h, Option.isSome_some, if_true]

/-- Every string is skipped to its closing quote. -/
theorem skipString_of_spells {cs : List Char} {spelled : Option (List Char)}
    (h : Spells cs spelled) (rest : List Char) : skipString (cs ++ '"' :: rest) = .ok rest := by
  induction h with
  | nil => rfl
  | @plain c cs _ hquote hslash hplain _ ih =>
    rw [List.cons_append, skipString.eq_def]
    split
    · next heq => cases heq
    · next heq => exact absurd (List.cons.inj heq).1 hquote
    · next heq => exact absurd (List.cons.inj heq).1 hslash
    · next heq => exact absurd (List.cons.inj heq).1 hslash
    · next heq => exact absurd (List.cons.inj heq).1 hslash
    · next heq => exact absurd (List.cons.inj heq).1 hslash
    · next heq =>
      cases heq
      rw [if_neg hplain, ih]
  | short hescaped _ ih =>
    unfold escaped? at hescaped
    split at hescaped
    all_goals
      cases hescaped
    all_goals exact ih
  | unit hunit _ _ _ ih =>
    simp only [List.cons_append]
    rw [skipString_unit hunit, ih]
  | pair hunit _ hunit' _ _ ih =>
    simp only [List.cons_append]
    rw [skipString_unit hunit, skipString_unit hunit', ih]
  | skipped hunit _ ih =>
    simp only [List.cons_append]
    rw [skipString_unit hunit, ih]

/-! ## Numbers -/

/-- A text that goes on with no digit. -/
def NoDigit (rest : List Char) : Prop := ∀ c ∈ rest.head?, isDigit c = false

theorem someDigits_append {ds rest : List Char} {f : Fault} (h : Digits ds)
    (hrest : NoDigit rest) : someDigits (ds ++ rest) f = .ok (ds, rest) := by
  have htake : (ds ++ rest).takeWhile isDigit = ds := by
    rw [List.takeWhile_append_of_pos h.2]
    cases rest with
    | nil => simp
    | cons c rest => simp [hrest c rfl]
  have hdrop : (ds ++ rest).dropWhile isDigit = rest := by
    rw [List.dropWhile_append_of_pos h.2]
    cases rest with
    | nil => rfl
    | cons c rest => simp [hrest c rfl]
  obtain ⟨d, ds, rfl⟩ := List.exists_cons_of_ne_nil h.1
  unfold someDigits
  rw [htake, hdrop]

theorem wholePart_append {whole rest : List Char} {f : Fault} (h : Whole whole)
    (hrest : NoDigit rest) : wholePart (whole ++ rest) f = .ok (whole, rest) := by
  cases h with
  | zero =>
    unfold wholePart
    cases rest with
    | nil => rfl
    | cons c rest => simp [hrest c rfl]
  | digits hzero hdigits =>
    unfold wholePart
    rw [List.cons_append]
    split
    · next heq => exact absurd (List.cons.inj heq).1 hzero
    · rw [← List.cons_append]
      exact someDigits_append hdigits hrest

/-- A text that goes on with nothing that could belong to a number: it is at its end, or a blank, a
comma or a closing bracket comes next. -/
def Stops (rest : List Char) : Prop :=
  ∀ c ∈ rest.head?, isBlank c = true ∨ c = ',' ∨ c = ']' ∨ c = '}'

theorem Stops.cases {rest : List Char} (h : Stops rest) :
    rest = [] ∨ ∃ c more, rest = c :: more ∧ isDigit c = false ∧ c ≠ '.' ∧ c ≠ 'e' ∧ c ≠ 'E' := by
  cases rest with
  | nil => exact Or.inl rfl
  | cons c more =>
    refine Or.inr ⟨c, more, rfl, ?_⟩
    have hc := h c rfl
    simp only [isBlank, Bool.or_eq_true, beq_iff_eq] at hc
    rcases hc with (((rfl | rfl) | rfl) | rfl) | rfl | rfl | rfl <;> decide

theorem exponentPart_append {exponent rest : List Char} {f : Fault} (h : Exponent exponent)
    (hrest : Stops rest) :
    ∃ negative ds, exponentPart (exponent ++ rest) f = .ok (negative, ds, rest) := by
  have hdigit : NoDigit rest := by
    rcases hrest.cases with rfl | ⟨c, more, rfl, hc, -⟩
    · simp [NoDigit]
    · simpa [NoDigit] using hc
  cases h with
  | none =>
    refine ⟨false, [], ?_⟩
    rcases hrest.cases with rfl | ⟨c, more, rfl, -, -, he, hE⟩
    · rfl
    · simp [exponentPart, he, hE]
  | @some e sign ds he hsign hdigits =>
    have hmark : e = 'e' ∨ e = 'E' := he
    have hread := someDigits_append (f := f) hdigits hdigit
    obtain ⟨d, ds, rfl⟩ := List.exists_cons_of_ne_nil hdigits.1
    have hd := hdigits.2 d List.mem_cons_self
    have hminus : d ≠ '-' := by
      rintro rfl
      cases hd
    have hplus : d ≠ '+' := by
      rintro rfl
      cases hd
    rw [List.cons_append] at hread
    rcases hsign with rfl | rfl | rfl
    · refine ⟨false, d :: ds, ?_⟩
      simp [exponentPart, hmark, hminus, hplus, hread, Except.map]
    · refine ⟨false, d :: ds, ?_⟩
      simp [exponentPart, hmark, hread, Except.map]
    · refine ⟨true, d :: ds, ?_⟩
      simp [exponentPart, hmark, hread, Except.map]

/-- What follows the digits of a number does not go on with a digit. -/
theorem noDigit_exponent {exponent rest : List Char} (h : Exponent exponent) (hrest : Stops rest) :
    NoDigit (exponent ++ rest) ∧ (exponent ++ rest).head? ≠ some '.' := by
  cases h with
  | none =>
    rcases hrest.cases with rfl | ⟨c, more, rfl, hc, hpoint, -⟩
    · simp [NoDigit]
    · simpa [NoDigit] using ⟨hc, hpoint⟩
  | some he _ _ => rcases he with rfl | rfl <;> simp [NoDigit] <;> decide

theorem fractionPart_append {fraction rest : List Char} {f : Fault} (h : Fraction fraction)
    (hrest : NoDigit rest) (hpoint : rest.head? ≠ some '.') :
    ∃ ds, fractionPart (fraction ++ rest) f = .ok (ds, rest) := by
  cases h with
  | none =>
    refine ⟨[], ?_⟩
    unfold fractionPart
    split
    · next heq =>
      rw [List.nil_append] at heq
      simp [heq] at hpoint
    · rfl
  | some hdigits => exact ⟨_, someDigits_append hdigits hrest⟩

theorem noDigit_fraction {fraction rest : List Char} (h : Fraction fraction)
    (hrest : NoDigit rest) : NoDigit (fraction ++ rest) := by
  cases h with
  | none => exact hrest
  | some _ =>
    intro c hc
    cases hc
    decide

theorem skipNumber_append {cs rest : List Char} (h : Unsigned cs) (hrest : Stops rest) :
    skipNumber (cs ++ rest) = .ok rest := by
  obtain ⟨hwhole, hfraction, hexponent⟩ := h
  obtain ⟨hdigit, hpoint⟩ := noDigit_exponent hexponent hrest
  have hwhole := wholePart_append (f := .malformed) hwhole (noDigit_fraction hfraction hdigit)
  obtain ⟨ds, hfraction⟩ := fractionPart_append (f := .malformed) hfraction hdigit hpoint
  obtain ⟨negative, ds', hexponent⟩ := exponentPart_append (f := .malformed) hexponent hrest
  unfold skipNumber
  simp only [List.append_assoc, hwhole, hfraction, hexponent, bind, Except.bind, pure, Except.pure]

/-! ## Values that nobody wants -/

theorem skipBlanks_blanks {b : List Char} (hb : Blanks b) (cs : List Char) :
    skipBlanks (b ++ cs) = skipBlanks cs := List.dropWhile_append_of_pos hb

theorem skipBlanks_cons {c : Char} (hc : isBlank c = false) (cs : List Char) :
    skipBlanks (c :: cs) = c :: cs := by
  simp [skipBlanks, hc]

/-- Blanks are skipped up to what comes after them. -/
theorem skipBlanks_to {b : List Char} {c : Char} (hb : Blanks b) (hc : isBlank c = false)
    (cs : List Char) : skipBlanks (b ++ c :: cs) = c :: cs := by
  rw [skipBlanks_blanks hb, skipBlanks_cons hc]

theorem skipBlanks_skipBlanks (cs : List Char) : skipBlanks (skipBlanks cs) = skipBlanks cs :=
  List.dropWhile_idempotent ..

/-- What a piece of text starts with, behind its blanks. -/
structure StartsWith (cs : List Char) (c : Char) (core : List Char) : Prop where
  blanks : ∃ b, Blanks b ∧ cs = b ++ c :: core
  dark : isBlank c = false

theorem StartsWith.skipBlanks_append {cs core : List Char} {c : Char} (h : StartsWith cs c core)
    (rest : List Char) : skipBlanks (cs ++ rest) = c :: (core ++ rest) := by
  obtain ⟨⟨b, hb, rfl⟩, hc⟩ := h
  rw [List.append_assoc, List.cons_append, skipBlanks_to hb hc]

theorem Unsigned.start {cs : List Char} (h : Unsigned cs) :
    ∃ d ds, cs = d :: ds ∧ isDigit d = true := by
  obtain ⟨hwhole, -, -⟩ := h
  cases hwhole with
  | zero => exact ⟨'0', _, rfl, by decide⟩
  | digits _ hdigits => exact ⟨_, _, rfl, hdigits.2 _ List.mem_cons_self⟩

theorem ne_of_isDigit {c d : Char} (hd : isDigit d = true) (hc : isDigit c = false) : d ≠ c := by
  rintro rfl
  rw [hd] at hc
  cases hc

theorem isBlank_of_isDigit {d : Char} (hd : isDigit d = true) : isBlank d = false := by
  have hne : ∀ c, isDigit c = false → d ≠ c := fun c => ne_of_isDigit hd
  simp [isBlank, hne ' ' (by decide), hne '\n' (by decide), hne '\t' (by decide),
    hne '\r' (by decide)]

/-- A value starts with no bracket that closes, and with the first letter of `null` only if it is
that. The blanks before it do not belong to it. -/
theorem Writes.start {v : Value} {cs : List Char} (h : Writes (.value v) cs) :
    ∃ c core, StartsWith cs c core ∧ c ≠ ']' ∧ (c = 'n' → v = .null) ∧
      Writes (.value v) (c :: core) := by
  have hnil : Blanks [] := by simp [Blanks]
  have hother {c : Char} (hc : c ≠ 'n') : c = 'n' → v = .null := fun hn => absurd hn hc
  cases h with
  | null hb => exact ⟨'n', _, ⟨⟨_, hb, rfl⟩, by decide⟩, by decide, fun _ => rfl, .null hnil⟩
  | yes hb => exact ⟨'t', _, ⟨⟨_, hb, rfl⟩, by decide⟩, by decide, hother (by decide), .yes hnil⟩
  | no hb => exact ⟨'f', _, ⟨⟨_, hb, rfl⟩, by decide⟩, by decide, hother (by decide), .no hnil⟩
  | positive hb hnumber =>
    obtain ⟨d, ds, rfl, hd⟩ := hnumber.start
    exact ⟨d, ds, ⟨⟨_, hb, rfl⟩, isBlank_of_isDigit hd⟩, ne_of_isDigit hd (by decide),
      hother (ne_of_isDigit hd (by decide)), .positive hnil hnumber⟩
  | negative hb hnumber =>
    exact ⟨'-', _, ⟨⟨_, hb, rfl⟩, by decide⟩, by decide, hother (by decide),
      .negative hnil hnumber⟩
  | string hb hspells =>
    exact ⟨'"', _, ⟨⟨_, hb, rfl⟩, by decide⟩, by decide, hother (by decide),
      .string hnil hspells⟩
  | emptyArray hb hb' =>
    exact ⟨'[', _, ⟨⟨_, hb, rfl⟩, by decide⟩, by decide, hother (by decide),
      .emptyArray hnil hb'⟩
  | array hb hitems hb' =>
    exact ⟨'[', _, ⟨⟨_, hb, rfl⟩, by decide⟩, by decide, hother (by decide),
      .array hnil hitems hb'⟩
  | emptyObject hb hb' =>
    exact ⟨'{', _, ⟨⟨_, hb, rfl⟩, by decide⟩, by decide, hother (by decide),
      .emptyObject hnil hb'⟩
  | object hb hmembers hb' =>
    exact ⟨'{', _, ⟨⟨_, hb, rfl⟩, by decide⟩, by decide, hother (by decide),
      .object hnil hmembers hb'⟩

theorem Writes.items_start {vs : List Value} {cs : List Char} (h : Writes (.items vs) cs) :
    ∃ c core, StartsWith cs c core ∧ c ≠ ']' := by
  cases h with
  | lastItem hvalue =>
    obtain ⟨c, core, hstart, hc, -⟩ := hvalue.start
    exact ⟨c, core, hstart, hc⟩
  | item hvalue _ _ =>
    obtain ⟨c, core, ⟨⟨b, hb, rfl⟩, hdark⟩, hc, -⟩ := hvalue.start
    exact ⟨c, _, ⟨⟨b, hb, List.append_assoc _ _ _⟩, hdark⟩, hc⟩

theorem Writes.members_start {ms : List (Option String × Value)} {cs : List Char}
    (h : Writes (.members ms) cs) : ∃ core, StartsWith cs '"' core := by
  cases h with
  | lastMember hb _ _ _ => exact ⟨_, ⟨_, hb, rfl⟩, by decide⟩
  | member hb _ _ _ _ _ => exact ⟨_, ⟨_, hb, rfl⟩, by decide⟩

theorem Stops.of_blanks {b : List Char} {c : Char} (hb : Blanks b)
    (hc : c = ',' ∨ c = ']' ∨ c = '}') (rest : List Char) : Stops (b ++ c :: rest) := by
  cases b with
  | nil =>
    intro d hd
    cases hd
    exact Or.inr hc
  | cons e b =>
    intro d hd
    cases hd
    exact Or.inl (hb e List.mem_cons_self)

theorem skipKey_of_spells {b key b' : List Char} {name : Option (List Char)} (hb : Blanks b)
    (hkey : Spells key name) (hb' : Blanks b') (rest : List Char) :
    skipKey (b ++ '"' :: (key ++ '"' :: (b' ++ ':' :: rest))) = .ok rest := by
  unfold skipKey
  rw [skipBlanks_to hb (by decide)]
  simp only [skipString_of_spells hkey, bind, Except.bind]
  rw [skipBlanks_to hb' (by decide)]
  rfl

/-- Where a value is wanted, it is opened or skipped. -/
theorem skipFrom_wanted (fuel : Nat) (frames : List Enclosure) (cs : List Char) :
    skipFrom (fuel + 1) true frames cs =
      match skipBlanks cs with
      | '[' :: rest =>
        match skipBlanks rest with
        | ']' :: rest => skipFrom fuel false frames rest
        | rest => skipFrom fuel true (false :: frames) rest
      | '{' :: rest =>
        match skipBlanks rest with
        | '}' :: rest => skipFrom fuel false frames rest
        | rest => (skipKey rest).bind (skipFrom fuel true (true :: frames))
      | cs => (skipScalar cs).bind (skipFrom fuel false frames) := rfl

/-- Where a value has just ended, another follows or the bracket around it is closed. -/
theorem skipFrom_ended (fuel : Nat) (enclosure : Enclosure) (outer : List Enclosure)
    (cs : List Char) :
    skipFrom (fuel + 1) false (enclosure :: outer) cs =
      match skipBlanks cs with
      | [] => .error .truncated
      | ',' :: rest =>
        if enclosure then (skipKey rest).bind (skipFrom fuel true (enclosure :: outer))
        else skipFrom fuel true (enclosure :: outer) rest
      | c :: rest =>
        if c = (if enclosure then '}' else ']') then skipFrom fuel false outer rest
        else .error .malformed := rfl

/-- Blanks before a value that is wanted make no difference. -/
theorem skipFrom_skipBlanks (fuel : Nat) (frames : List Enclosure) (cs : List Char) :
    skipFrom fuel true frames (skipBlanks cs) = skipFrom fuel true frames cs := by
  cases fuel with
  | zero => rfl
  | succ fuel => rw [skipFrom_wanted, skipFrom_wanted, skipBlanks_skipBlanks]

theorem skipFrom_scalar {cs core rest : List Char} {c : Char} (hstart : StartsWith cs c core)
    (hbracket : c ≠ '[') (hbrace : c ≠ '{') (hskip : skipScalar (c :: (core ++ rest)) = .ok rest)
    (fuel : Nat) (frames : List Enclosure) :
    skipFrom (fuel + 1) true frames (cs ++ rest) = skipFrom fuel false frames rest := by
  rw [skipFrom_wanted, hstart.skipBlanks_append]
  split
  · next heq => exact absurd (List.cons.inj heq).1 hbracket
  · next heq => exact absurd (List.cons.inj heq).1 hbrace
  · simp only [hskip, Except.bind]

theorem skipScalar_number {d : Char} (hd : isDigit d = true) (cs : List Char) :
    skipScalar (d :: cs) = skipNumber (d :: cs) := by
  have hne : ∀ c, isDigit c = false → d ≠ c := fun c => ne_of_isDigit hd
  rw [skipScalar.eq_def]
  split
  · next heq => cases heq
  · next heq => exact absurd (List.cons.inj heq).1 (hne _ (by decide))
  · next heq => exact absurd (List.cons.inj heq).1 (hne _ (by decide))
  · next heq => exact absurd (List.cons.inj heq).1 (hne _ (by decide))
  · next heq => exact absurd (List.cons.inj heq).1 (hne _ (by decide))
  · next heq => exact absurd (List.cons.inj heq).1 (hne _ (by decide))
  · next heq =>
    cases heq
    rw [if_pos hd]

/-- A bracket that closes ends what it belongs to. -/
theorem skipFrom_close {b : List Char} (hb : Blanks b) (enclosure : Enclosure) (fuel : Nat)
    (frames : List Enclosure) (rest : List Char) :
    skipFrom (fuel + 1) false (enclosure :: frames)
      (b ++ (if enclosure then '}' else ']') :: rest) = skipFrom fuel false frames rest := by
  cases enclosure with
  | true =>
    rw [skipFrom_ended, if_pos rfl, skipBlanks_to hb (by decide)]
    rfl
  | false =>
    rw [skipFrom_ended, if_neg (by decide), skipBlanks_to hb (by decide)]
    rfl

theorem skipFrom_comma_item {b : List Char} (hb : Blanks b) (fuel : Nat)
    (frames : List Enclosure) (rest : List Char) :
    skipFrom (fuel + 1) false (false :: frames) (b ++ ',' :: rest) =
      skipFrom fuel true (false :: frames) rest := by
  rw [skipFrom_ended, skipBlanks_to hb (by decide)]
  rfl

theorem skipFrom_comma_member {b rest more : List Char} (hb : Blanks b)
    (hkey : skipKey rest = .ok more) (fuel : Nat) (frames : List Enclosure) :
    skipFrom (fuel + 1) false (true :: frames) (b ++ ',' :: rest) =
      skipFrom fuel true (true :: frames) more := by
  rw [skipFrom_ended, skipBlanks_to hb (by decide)]
  simp only [if_true, hkey, Except.bind]

theorem skipFrom_bracket {b : List Char} (hb : Blanks b) (fuel : Nat) (frames : List Enclosure)
    (cs : List Char) : skipFrom (fuel + 1) true frames (b ++ '[' :: cs) =
      match skipBlanks cs with
      | ']' :: rest => skipFrom fuel false frames rest
      | rest => skipFrom fuel true (false :: frames) rest := by
  rw [skipFrom_wanted, skipBlanks_to hb (by decide)]
  rfl

theorem skipFrom_brace {b : List Char} (hb : Blanks b) (fuel : Nat) (frames : List Enclosure)
    (cs : List Char) : skipFrom (fuel + 1) true frames (b ++ '{' :: cs) =
      match skipBlanks cs with
      | '}' :: rest => skipFrom fuel false frames rest
      | rest => (skipKey rest).bind (skipFrom fuel true (true :: frames)) := by
  rw [skipFrom_wanted, skipBlanks_to hb (by decide)]
  rfl

/-- An array that is not empty goes on with the first of its items. -/
theorem skipFrom_open_items {b cs core : List Char} {c : Char} (hb : Blanks b)
    (hstart : StartsWith cs c core) (hc : c ≠ ']') (fuel : Nat) (frames : List Enclosure)
    (rest : List Char) :
    skipFrom (fuel + 1) true frames (b ++ '[' :: (cs ++ rest)) =
      skipFrom fuel true (false :: frames) (cs ++ rest) := by
  rw [skipFrom_bracket hb, ← skipFrom_skipBlanks fuel (false :: frames) (cs ++ rest),
    hstart.skipBlanks_append]
  split
  · next heq => exact absurd (List.cons.inj heq).1 hc
  · rfl

/-- An object that is not empty goes on behind the first of its names. -/
theorem skipFrom_open_members {b cs core rest more : List Char} (hb : Blanks b)
    (hstart : StartsWith cs '"' core) (hkey : skipKey (cs ++ rest) = .ok more) (fuel : Nat)
    (frames : List Enclosure) :
    skipFrom (fuel + 1) true frames (b ++ '{' :: (cs ++ rest)) =
      skipFrom fuel true (true :: frames) more := by
  have hblank : skipKey (skipBlanks (cs ++ rest)) = .ok more := by
    rw [← hkey, skipKey, skipKey, skipBlanks_skipBlanks]
  rw [hstart.skipBlanks_append] at hblank
  rw [skipFrom_brace hb, hstart.skipBlanks_append]
  change (skipKey ('"' :: (core ++ rest))).bind _ = _
  rw [hblank]
  rfl

/-- The text of a part is passed over in no more steps than it has characters. Items and members
stand inside what they belong to. -/
def Skips : Part → List Char → Prop
  | .value _, cs => ∀ rest frames, Stops rest → ∃ k ≤ cs.length, ∀ fuel,
      skipFrom (fuel + k) true frames (cs ++ rest) = skipFrom fuel false frames rest
  | .items _, cs => ∀ rest frames, Stops rest → ∃ k ≤ cs.length, ∀ fuel,
      skipFrom (fuel + k) true (false :: frames) (cs ++ rest) =
        skipFrom fuel false (false :: frames) rest
  | .members _, cs => ∀ rest frames, Stops rest → ∃ more, skipKey (cs ++ rest) = .ok more ∧
      ∃ k ≤ cs.length, ∀ fuel, skipFrom (fuel + k) true (true :: frames) more =
        skipFrom fuel false (true :: frames) rest

theorem skips_of_scalar {v : Value} {cs core : List Char} {c : Char}
    (hstart : StartsWith cs c core) (hbracket : c ≠ '[') (hbrace : c ≠ '{')
    (hskip : ∀ rest, Stops rest → skipScalar (c :: (core ++ rest)) = .ok rest) :
    Skips (.value v) cs := by
  intro rest frames hrest
  refine ⟨1, ?_, fun fuel => skipFrom_scalar hstart hbracket hbrace (hskip rest hrest) fuel frames⟩
  obtain ⟨⟨b, -, rfl⟩, -⟩ := hstart
  rw [List.length_append, List.length_cons]
  omega

theorem skips_of_writes {p : Part} {cs : List Char} (h : Writes p cs) : Skips p cs := by
  induction h with
  | null hb =>
    exact skips_of_scalar ⟨⟨_, hb, rfl⟩, by decide⟩ (by decide) (by decide) fun _ _ => rfl
  | yes hb =>
    exact skips_of_scalar ⟨⟨_, hb, rfl⟩, by decide⟩ (by decide) (by decide) fun _ _ => rfl
  | no hb =>
    exact skips_of_scalar ⟨⟨_, hb, rfl⟩, by decide⟩ (by decide) (by decide) fun _ _ => rfl
  | positive hb hnumber =>
    obtain ⟨d, ds, rfl, hd⟩ := hnumber.start
    refine skips_of_scalar ⟨⟨_, hb, rfl⟩, isBlank_of_isDigit hd⟩ (ne_of_isDigit hd (by decide))
      (ne_of_isDigit hd (by decide)) fun rest hrest => ?_
    rw [skipScalar_number hd]
    exact skipNumber_append hnumber hrest
  | negative hb hnumber =>
    exact skips_of_scalar ⟨⟨_, hb, rfl⟩, by decide⟩ (by decide) (by decide)
      fun rest hrest => skipNumber_append hnumber hrest
  | string hb hspells =>
    refine skips_of_scalar ⟨⟨_, hb, rfl⟩, by decide⟩ (by decide) (by decide) fun rest _ => ?_
    rw [List.append_assoc]
    exact skipString_of_spells hspells rest
  | emptyArray hb hb' =>
    intro rest frames _
    refine ⟨1, by simp; omega, fun fuel => ?_⟩
    simp only [List.append_assoc, List.cons_append, List.nil_append]
    rw [skipFrom_bracket hb, skipBlanks_to hb' (by decide)]
    rfl
  | emptyObject hb hb' =>
    intro rest frames _
    refine ⟨1, by simp; omega, fun fuel => ?_⟩
    simp only [List.append_assoc, List.cons_append, List.nil_append]
    rw [skipFrom_brace hb, skipBlanks_to hb' (by decide)]
    rfl
  | @array b b' cs vs hb hitems hb' ih =>
    intro rest frames _
    obtain ⟨c, core, hstart, hc⟩ := hitems.items_start
    obtain ⟨k, hk, hrun⟩ := ih (b' ++ ']' :: rest) frames (.of_blanks hb' (by simp) rest)
    refine ⟨1 + k + 1, by simp; omega, fun fuel => ?_⟩
    simp only [List.append_assoc, List.cons_append, List.nil_append]
    rw [← Nat.add_assoc, skipFrom_open_items hb hstart hc, ← Nat.add_assoc, hrun]
    exact skipFrom_close hb' false fuel frames rest
  | @object b b' cs ms hb hmembers hb' ih =>
    intro rest frames _
    obtain ⟨core, hstart⟩ := hmembers.members_start
    obtain ⟨more, hkey, k, hk, hrun⟩ :=
      ih (b' ++ '}' :: rest) frames (.of_blanks hb' (by simp) rest)
    refine ⟨1 + k + 1, by simp; omega, fun fuel => ?_⟩
    simp only [List.append_assoc, List.cons_append, List.nil_append]
    rw [← Nat.add_assoc, skipFrom_open_members hb hstart hkey, ← Nat.add_assoc, hrun]
    exact skipFrom_close hb' true fuel frames rest
  | lastItem _ ih => exact fun rest frames hrest => ih rest (false :: frames) hrest
  | @item v vs b cs cs' _ hb _ ih ih' =>
    intro rest frames hrest
    obtain ⟨k, hk, hrun⟩ :=
      ih (b ++ ',' :: (cs' ++ rest)) (false :: frames) (.of_blanks hb (by simp) _)
    obtain ⟨k', hk', hrun'⟩ := ih' rest frames hrest
    refine ⟨k' + 1 + k, by simp; omega, fun fuel => ?_⟩
    simp only [List.append_assoc, List.cons_append]
    rw [← Nat.add_assoc, hrun, ← Nat.add_assoc, skipFrom_comma_item hb, hrun']
  | @lastMember name v b b' key cs hb hkey hb' _ ih =>
    intro rest frames hrest
    obtain ⟨k, hk, hrun⟩ := ih rest (true :: frames) hrest
    refine ⟨cs ++ rest, ?_, k, by simp; omega, hrun⟩
    simp only [List.append_assoc, List.cons_append]
    exact skipKey_of_spells hb hkey hb' _
  | @member name v ms b b' b'' key cs cs' hb hkey hb' _ hb'' _ ih ih' =>
    intro rest frames hrest
    obtain ⟨more, hmore, k', hk', hrun'⟩ := ih' rest frames hrest
    obtain ⟨k, hk, hrun⟩ :=
      ih (b'' ++ ',' :: (cs' ++ rest)) (true :: frames) (.of_blanks hb'' (by simp) _)
    refine ⟨cs ++ (b'' ++ ',' :: (cs' ++ rest)), ?_, k' + 1 + k, by simp; omega, fun fuel => ?_⟩
    · simp only [List.append_assoc, List.cons_append]
      exact skipKey_of_spells hb hkey hb' _
    · rw [← Nat.add_assoc, hrun, ← Nat.add_assoc, skipFrom_comma_member hb'' hmore, hrun']

/-- A value is skipped as a whole, and nothing behind it. -/
theorem skipValue_of_writes {v : Value} {cs rest : List Char} (h : Writes (.value v) cs)
    (hrest : Stops rest) : skipValue (cs ++ rest) = .ok rest := by
  obtain ⟨k, hk, hrun⟩ := skips_of_writes h rest [] hrest
  obtain ⟨fuel, hfuel⟩ : ∃ fuel, (cs ++ rest).length + 1 = fuel + 1 + k :=
    ⟨(cs ++ rest).length - k, by rw [List.length_append]; omega⟩
  rw [skipValue, hfuel, hrun]
  rfl

end Json

end SourceMacros
