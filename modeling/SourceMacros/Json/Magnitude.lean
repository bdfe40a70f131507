-- The magnitude of a written number, worked out in double precision: the leading digits that fit
-- a word of 64 bits, rounded, times a rounded power of ten. Near the largest double-precision
-- number this differs a little from the number as it is written.
namespace SourceMacros

namespace Json

/-- The value of decimal digits. -/
def digitsValue (cs : List Char) : Nat := cs.foldl (fun n c => n * 10 + (c.toNat - 48)) 0

/-- The double-precision number nearest to a whole number. Of two that are equally near, the one
with the even significand is taken. -/
def rounded (n : Nat) : Nat :=
  let unit := Nat.pow 2 (n.log2 - 52)
  let low := n / unit
  let half := 2 * (n % unit)
  if unit < half ∨ (half = unit ∧ low % 2 = 1) then (low + 1) * unit else low * unit

/-- Puts digits behind a number for as long as it fits a word of 64 bits. Gives the number and the
digits left over. -/
def absorb (n : Nat) : List Char → Nat × List Char
  | [] => (n, [])
  | c :: cs =>
    let next := n * 10 + (c.toNat - 48)
    if next < 2 ^ 64 then absorb next cs else (n, c :: cs)

/-- The least product that no double-precision number comes near. -/
def overflowLimit : Nat := Nat.pow 2 1024 - Nat.pow 2 970

/-- The largest power of ten in double precision. -/
def maxPower : Nat := 308

/-- `significand · 10 ^ (up - down)` is too large for double precision. -/
def overflows (significand up down : Nat) : Bool :=
  significand != 0 && down ≤ up &&
    (maxPower < up - down ||
      overflowLimit ≤ rounded significand * rounded (Nat.pow 10 (up - down)))

/-- The number with these digits before and after its point, and this exponent, is too large for
double precision. Digits that are left over before the point still count as powers of ten; those
after it do not count at all. -/
def isHuge (whole fraction : List Char) (negative : Bool) (exponent : List Char) : Bool :=
  let (significand, uncounted) := absorb 0 whole
  let (significand, dropped) := absorb significand fraction
  let power := digitsValue exponent
  let up := uncounted.length
  let down := fraction.length - dropped.length
  if negative then overflows significand up (down + power)
  else overflows significand (up + power) down

/-- Whole numbers of up to 53 bits are double-precision numbers themselves. -/
theorem rounded_of_lt {n : Nat} (h : n < Nat.pow 2 53) : rounded n = n := by
  have hlog : n.log2 - 52 = 0 := by
    by_cases hn : n = 0
    · subst hn; rfl
    · have := (Nat.log2_lt hn).mpr h
      omega
  simp [rounded, hlog, Nat.mod_one]

end Json

end SourceMacros
