-- Carriage returns: a text whose lines end in a line feed, and the same text with a carriage return
-- before each line feed. What is measured on one line alone is as long in both.
import Mathlib.Data.List.TakeWhile
import SourceMacros.Lexeme

namespace SourceMacros

/-! ## Carriage returns -/

/-- The characters with a carriage return before each line feed. -/
def returned (cs : List Char) : List Char :=
  cs.flatMap fun c => if c = '\n' then ['\r', '\n'] else [c]

/-- The characters without the carriage returns that stand before line feeds. -/
def unreturned : List Char → List Char
  | [] => []
  | '\r' :: '\n' :: cs => '\n' :: unreturned cs
  | c :: cs => c :: unreturned cs

/-- The text with a carriage return before each line feed. -/
def withReturns (text : String) : String := String.ofList (returned text.toList)

/-- The text without the carriage returns that stand before line feeds. -/
def withoutReturns (text : String) : String := String.ofList (unreturned text.toList)

@[simp]
theorem returned_nil : returned [] = [] := rfl

@[simp]
theorem returned_lineFeed (cs : List Char) : returned ('\n' :: cs) = '\r' :: '\n' :: returned cs :=
  rfl

theorem returned_backslash (cs : List Char) : returned ('\\' :: cs) = '\\' :: returned cs := rfl

theorem returned_cons {c : Char} (h : c ≠ '\n') (cs : List Char) :
    returned (c :: cs) = c :: returned cs := by
  simp [returned, h]

theorem returned_append (cs ds : List Char) : returned (cs ++ ds) = returned cs ++ returned ds :=
  List.flatMap_append

/-- Without a line feed nothing changes. -/
theorem returned_of_not_mem {cs : List Char} (h : '\n' ∉ cs) : returned cs = cs := by
  induction cs with
  | nil => rfl
  | cons c cs ih =>
    obtain ⟨hc, hcs⟩ := List.ne_and_not_mem_of_not_mem_cons h
    rw [returned_cons (Ne.symm hc), ih hcs]

theorem unreturned_lineBreak (cs : List Char) :
    unreturned ('\r' :: '\n' :: cs) = '\n' :: unreturned cs := rfl

theorem unreturned_cons {c : Char} (h : c ≠ '\r') (cs : List Char) :
    unreturned (c :: cs) = c :: unreturned cs := by
  rw [unreturned]
  rintro _ rfl
  exact absurd rfl h

/-- The carriage returns that were added can be taken away again. -/
theorem unreturned_returned {cs : List Char} (h : '\r' ∉ cs) : unreturned (returned cs) = cs := by
  induction cs with
  | nil => rfl
  | cons c cs ih =>
    obtain ⟨hc, hcs⟩ := List.ne_and_not_mem_of_not_mem_cons h
    by_cases hfeed : c = '\n'
    · subst hfeed
      rw [returned_lineFeed, unreturned_lineBreak, ih hcs]
    · rw [returned_cons hfeed, unreturned_cons (Ne.symm hc), ih hcs]

theorem unreturned_of_not_mem {cs : List Char} (h : '\r' ∉ cs) : unreturned cs = cs := by
  induction cs with
  | nil => rfl
  | cons c cs ih =>
    obtain ⟨hc, hcs⟩ := List.ne_and_not_mem_of_not_mem_cons h
    rw [unreturned_cons (Ne.symm hc), ih hcs]

/-! ## The first line -/

/-- How many characters stand before the first line feed. -/
def lineLength (cs : List Char) : Nat := (cs.takeWhile (· ≠ '\n')).length

@[simp]
theorem lineLength_lineFeed (cs : List Char) : lineLength ('\n' :: cs) = 0 := rfl

theorem lineLength_cons {c : Char} (h : c ≠ '\n') (cs : List Char) :
    lineLength (c :: cs) = lineLength cs + 1 := by
  simp [lineLength, h]

variable {cs : List Char} {n : Nat}

theorem not_mem_take_of_le (h : n ≤ lineLength cs) : '\n' ∉ cs.take n := by
  intro hmem
  have htake : cs.take n <+: cs.takeWhile (· ≠ '\n') := by
    apply List.prefix_of_prefix_length_le (List.take_prefix _ _) (List.takeWhile_prefix _)
    rw [List.length_take]
    exact (Nat.min_le_left _ _).trans h
  have := List.mem_takeWhile_imp (htake.subset hmem)
  simp at this

theorem take_returned (h : '\n' ∉ cs.take n) : (returned cs).take n = cs.take n := by
  induction cs generalizing n with
  | nil => rfl
  | cons c cs ih =>
    cases n with
    | zero => rfl
    | succ n =>
      obtain ⟨hc, hcs⟩ := List.ne_and_not_mem_of_not_mem_cons h
      rw [returned_cons (Ne.symm hc), List.take_succ_cons, List.take_succ_cons, ih hcs]

/-- Where a line feed comes into view, a carriage return comes into view in its place. -/
theorem mem_take_returned (h : '\n' ∈ cs.take n) : '\r' ∈ (returned cs).take n := by
  induction cs generalizing n with
  | nil => simp at h
  | cons c cs ih =>
    cases n with
    | zero => simp at h
    | succ n =>
      by_cases hc : c = '\n'
      · subst hc
        simp
      · rw [returned_cons hc, List.take_succ_cons, List.mem_cons]
        rcases List.mem_cons.mp h with heq | hmem
        · exact absurd heq.symm hc
        · exact Or.inr (ih hmem)

/-- What holds neither character stands at the front of both texts or of none. -/
theorem take_returned_eq_iff {ds : List Char} (hfeed : '\n' ∉ ds) (hreturn : '\r' ∉ ds) :
    (returned cs).take n = ds ↔ cs.take n = ds := by
  by_cases hmem : '\n' ∈ cs.take n
  · constructor
    · rintro rfl
      exact absurd (mem_take_returned hmem) hreturn
    · rintro rfl
      exact absurd hmem hfeed
  · rw [take_returned hmem]

theorem le_lineLength (hfeed : '\n' ∉ cs.take n) (h : n ≤ cs.length) : n ≤ lineLength cs := by
  induction cs generalizing n with
  | nil => exact h
  | cons c cs ih =>
    cases n with
    | zero => exact Nat.zero_le _
    | succ n =>
      obtain ⟨hc, hcs⟩ := List.ne_and_not_mem_of_not_mem_cons hfeed
      rw [lineLength_cons (Ne.symm hc)]
      exact Nat.succ_le_succ (ih hcs (Nat.le_of_succ_le_succ h))

theorem lineLength_le (cs : List Char) : lineLength cs ≤ cs.length :=
  (List.takeWhile_prefix _).length_le

theorem drop_returned (h : n ≤ lineLength cs) : (returned cs).drop n = returned (cs.drop n) := by
  induction cs generalizing n with
  | nil => simp
  | cons c cs ih =>
    cases n with
    | zero => rfl
    | succ n =>
      have hc : c ≠ '\n' := by
        rintro rfl
        simp at h
      rw [lineLength_cons hc, Nat.add_le_add_iff_right] at h
      rw [returned_cons hc, List.drop_succ_cons, List.drop_succ_cons, ih h]

theorem lineLength_drop (h : n ≤ lineLength cs) : lineLength (cs.drop n) + n = lineLength cs := by
  induction cs generalizing n with
  | nil =>
    have hn : n = 0 := Nat.le_zero.mp h
    subst hn
    rfl
  | cons c cs ih =>
    cases n with
    | zero => rfl
    | succ n =>
      have hc : c ≠ '\n' := by
        rintro rfl
        simp at h
      rw [lineLength_cons hc, Nat.add_le_add_iff_right] at h
      rw [List.drop_succ_cons, lineLength_cons hc, ← ih h]
      omega

/-! ## Lexemes on one line -/

namespace Lexeme

/-- A length that is measured on the first line alone, and that carriage returns do not change. -/
def Inline (measure : List Char → Nat) : Prop :=
  ∀ cs, measure (returned cs) = measure cs ∧ measure cs ≤ lineLength cs

theorem inline_takeWhile {p : Char → Bool} (hfeed : p '\n' = false) (hreturn : p '\r' = false) :
    Inline fun cs => (cs.takeWhile p).length := by
  intro cs
  induction cs with
  | nil => exact ⟨rfl, Nat.le_refl _⟩
  | cons c cs ih =>
    by_cases hc : c = '\n'
    · subst hc
      simp [hfeed, hreturn]
    · rw [returned_cons hc, lineLength_cons hc]
      cases hp : p c with
      | true => simp [hp, ih]
      | false => simp [hp]

theorem isDigitChar_ends : isDigitChar '\n' = false ∧ isDigitChar '\r' = false := by decide

theorem inline_digits : Inline fun cs => (cs.takeWhile isDigitChar).length :=
  inline_takeWhile isDigitChar_ends.1 isDigitChar_ends.2

theorem inline_imaginary : Inline imaginaryLength := by
  intro cs
  cases cs with
  | nil => exact ⟨rfl, Nat.le_refl _⟩
  | cons c cs =>
    by_cases hc : c = '\n'
    · subst hc
      simp [imaginaryLength]
    · rw [returned_cons hc, lineLength_cons hc]
      refine ⟨rfl, ?_⟩
      simp only [imaginaryLength]
      split <;> omega

theorem inline_fraction : Inline fractionLength := by
  intro cs
  cases cs with
  | nil => exact ⟨rfl, Nat.le_refl _⟩
  | cons c cs =>
    by_cases hc : c = '\n'
    · subst hc
      simp [fractionLength]
    · obtain ⟨hsame, hle⟩ := inline_digits cs
      rw [returned_cons hc, lineLength_cons hc]
      by_cases hpoint : c = '.'
      · subst hpoint
        dsimp only at hsame hle
        simp only [fractionLength]
        omega
      · simp [fractionLength, hpoint]

/-- A sign before the digits of an exponent. -/
def signLength : List Char → Nat
  | c :: _ => if c = '+' ∨ c = '-' then 1 else 0
  | [] => 0

theorem inline_sign : Inline signLength := by
  intro cs
  cases cs with
  | nil => exact ⟨rfl, Nat.le_refl _⟩
  | cons c cs =>
    by_cases hc : c = '\n'
    · subst hc
      simp [signLength]
    · rw [returned_cons hc, lineLength_cons hc]
      refine ⟨rfl, ?_⟩
      simp only [signLength]
      split <;> omega

theorem exponentLength_cons (c : Char) (cs : List Char) :
    exponentLength (c :: cs) =
      if c = 'e' ∨ c = 'E' then
        if ((cs.drop (signLength cs)).takeWhile isDigitChar).length = 0 then 0
        else 1 + signLength cs + ((cs.drop (signLength cs)).takeWhile isDigitChar).length
      else 0 := by
  cases cs <;> rfl

theorem inline_exponent : Inline exponentLength := by
  intro cs
  cases cs with
  | nil => exact ⟨rfl, Nat.le_refl _⟩
  | cons c cs =>
    by_cases hc : c = '\n'
    · subst hc
      simp [exponentLength]
    · obtain ⟨hsign, hsignLe⟩ := inline_sign cs
      obtain ⟨hdigits, hdigitsLe⟩ := inline_digits (cs.drop (signLength cs))
      have hdrop := lineLength_drop hsignLe
      rw [returned_cons hc, lineLength_cons hc, exponentLength_cons, exponentLength_cons, hsign,
        drop_returned hsignLe]
      dsimp only at hdigits hdigitsLe
      rw [hdigits]
      refine ⟨rfl, ?_⟩
      split
      · split <;> omega
      · exact Nat.zero_le _

theorem withExponent_returned (h : n ≤ lineLength cs) :
    withExponent n (returned cs) = withExponent n cs ∧ withExponent n cs ≤ lineLength cs := by
  obtain ⟨hexponent, hle⟩ := inline_exponent (cs.drop n)
  have hdrop := lineLength_drop h
  have hboth : n + exponentLength (cs.drop n) ≤ lineLength cs := by omega
  obtain ⟨himaginary, hle'⟩ := inline_imaginary (cs.drop (n + exponentLength (cs.drop n)))
  have hdrop' := lineLength_drop hboth
  simp only [withExponent]
  rw [drop_returned h, hexponent, drop_returned hboth, himaginary]
  exact ⟨rfl, by omega⟩

/-- A length that may be missing, measured on the first line alone. -/
def Inline? (measure : List Char → Option Nat) : Prop :=
  ∀ cs, measure (returned cs) = measure cs ∧ ∀ n, measure cs = some n → n ≤ lineLength cs

theorem radixDigit_ends {letter : Char} {isDigit : Char → Bool}
    (h : radixDigit? letter = some isDigit) : isDigit '\n' = false ∧ isDigit '\r' = false := by
  unfold radixDigit? at h
  split at h <;> cases h <;> decide

theorem inline_radix : Inline? radixLength? := by
  intro cs
  match cs with
  | [] => exact ⟨rfl, by simp [radixLength?]⟩
  | [c] =>
    by_cases hc : c = '\n'
    · subst hc
      simp [radixLength?]
    · simp [returned_cons hc, radixLength?]
  | c :: letter :: rest =>
    by_cases hzero : c = '0'
    · subst hzero
      rw [returned_cons (by decide)]
      by_cases hletter : letter = '\n'
      · subst hletter
        simp [radixLength?, radixDigit?]
      · rw [returned_cons hletter, lineLength_cons (by decide), lineLength_cons hletter]
        simp only [radixLength?]
        cases hdigit : radixDigit? letter with
        | none => simp
        | some isDigit =>
          obtain ⟨hfeed, hreturn⟩ := radixDigit_ends hdigit
          obtain ⟨hsame, hle⟩ := inline_takeWhile hfeed hreturn rest
          dsimp only at hsame hle
          simp only [Option.bind_some, hsame, true_and]
          intro n hn
          split at hn
          · cases hn
          · cases hn
            omega
    · have hnone : ∀ ds, radixLength? (c :: ds) = none := by
        intro ds
        cases ds <;> simp [radixLength?, hzero]
      by_cases hc : c = '\n'
      · subst hc
        rw [hnone]
        simp [radixLength?]
      · rw [returned_cons hc, hnone, hnone]
        simp

/-- The length of a number that starts with a digit and is of no other radix. -/
def decimalLength (cs : List Char) : Nat :=
  let whole := 1 + ((cs.drop 1).takeWhile isDigitChar).length
  withExponent (whole + fractionLength (cs.drop whole)) cs

theorem numberLength?_of_ne {c : Char} (h : c ≠ '.') (cs : List Char) :
    numberLength? (c :: cs) =
      if c.isDigit then (radixLength? (c :: cs)).or (some (decimalLength (c :: cs))) else none := by
  rw [numberLength?]
  · split
    · cases radixLength? (c :: cs) <;> rfl
    · rfl
  · rintro _ _ rfl
    exact absurd rfl h

theorem decimalLength_returned {c : Char} (hc : c ≠ '\n') (cs : List Char) :
    decimalLength (c :: returned cs) = decimalLength (c :: cs) ∧
      decimalLength (c :: cs) ≤ lineLength (c :: cs) := by
  obtain ⟨hdigits, hle⟩ := inline_digits cs
  dsimp only at hdigits hle
  have hwhole : 1 + (cs.takeWhile isDigitChar).length ≤ lineLength (c :: cs) := by
    rw [lineLength_cons hc]
    omega
  have hdrop := lineLength_drop hwhole
  obtain ⟨hfraction, hle'⟩ :=
    inline_fraction ((c :: cs).drop (1 + (cs.takeWhile isDigitChar).length))
  have hboth : 1 + (cs.takeWhile isDigitChar).length +
      fractionLength ((c :: cs).drop (1 + (cs.takeWhile isDigitChar).length)) ≤
        lineLength (c :: cs) := by omega
  obtain ⟨hsame, hfits⟩ := withExponent_returned hboth
  simp only [decimalLength, List.drop_one, List.tail_cons]
  rw [hdigits, ← returned_cons hc, drop_returned hwhole, hfraction]
  exact ⟨hsame, hfits⟩

theorem inline_number : Inline? numberLength? := by
  intro cs
  match cs with
  | [] => exact ⟨rfl, by simp [numberLength?]⟩
  | c :: rest =>
    by_cases hc : c = '\n'
    · subst hc
      simp [numberLength?]
    by_cases hpoint : c = '.'
    · subst hpoint
      cases rest with
      | nil => simp [returned_cons hc, numberLength?]
      | cons d rest =>
        by_cases hd : d = '\n'
        · subst hd
          simp [returned_cons hc, numberLength?]
        · obtain ⟨hdigits, hle⟩ := inline_digits rest
          dsimp only at hdigits hle
          have hwhole : 2 + (rest.takeWhile isDigitChar).length ≤ lineLength ('.' :: d :: rest) := by
            rw [lineLength_cons hc, lineLength_cons hd]
            omega
          obtain ⟨hsame, hfits⟩ := withExponent_returned hwhole
          rw [returned_cons hc, returned_cons hd] at hsame ⊢
          simp only [numberLength?, hdigits, hsame, true_and]
          intro n hn
          split at hn
          · cases hn
            exact hfits
          · cases hn
    · obtain ⟨hradix, hradixLe⟩ := inline_radix (c :: rest)
      obtain ⟨hsame, hfits⟩ := decimalLength_returned hc rest
      rw [returned_cons hc] at hradix ⊢
      rw [numberLength?_of_ne hpoint, numberLength?_of_ne hpoint, hradix, hsame]
      refine ⟨rfl, ?_⟩
      intro n hn
      split at hn
      · rcases Option.or_eq_some_iff.mp hn with hn | ⟨-, hn⟩
        · exact hradixLe n hn
        · cases hn
          exact hfits
      · cases hn

theorem operators_plain : (∀ op ∈ longOperators, op.length = 3 ∧ '\n' ∉ op ∧ '\r' ∉ op) ∧
    ∀ op ∈ shortOperators, op.length = 2 ∧ '\n' ∉ op ∧ '\r' ∉ op := by
  decide

theorem contains_returned {k : Nat} {ops : List (List Char)}
    (hops : ∀ op ∈ ops, op.length = k ∧ '\n' ∉ op ∧ '\r' ∉ op) (cs : List Char) :
    ops.contains ((returned cs).take k) = ops.contains (cs.take k) ∧
      (ops.contains (cs.take k) = true → k ≤ lineLength cs) := by
  constructor
  · rw [Bool.eq_iff_iff, List.contains_iff_mem, List.contains_iff_mem]
    constructor
    · intro hmem
      obtain ⟨-, hfeed, hreturn⟩ := hops _ hmem
      rw [← (take_returned_eq_iff hfeed hreturn).mp rfl] at hmem
      exact hmem
    · intro hmem
      obtain ⟨-, hfeed, hreturn⟩ := hops _ hmem
      rw [take_returned hfeed]
      exact hmem
  · intro hmem
    obtain ⟨hlength, hfeed, -⟩ := hops _ (List.contains_iff_mem.mp hmem)
    rw [List.length_take] at hlength
    exact le_lineLength hfeed (by omega)

theorem inline_operator : Inline? operatorLength? := by
  intro cs
  obtain ⟨hlong, hlongLe⟩ := contains_returned operators_plain.1 cs
  obtain ⟨hshort, hshortLe⟩ := contains_returned operators_plain.2 cs
  have hhead : (returned cs).head?.any isOperatorChar = cs.head?.any isOperatorChar ∧
      (cs.head?.any isOperatorChar = true → 1 ≤ lineLength cs) := by
    cases cs with
    | nil => simp
    | cons c cs =>
      by_cases hc : c = '\n'
      · subst hc
        simp [isOperatorChar]
      · simp [returned_cons hc, lineLength_cons hc]
  simp only [operatorLength?]
  rw [hlong, hshort, hhead.1]
  refine ⟨rfl, ?_⟩
  intro n hn
  split at hn
  · next h => cases hn; exact hlongLe h
  split at hn
  · next h => cases hn; exact hshortLe h
  split at hn
  · next h => cases hn; exact hhead.2 h
  · cases hn

end Lexeme

end SourceMacros
