import MonthlyJournal.Text

/-!
# Binary floating point

Double precision: a number is a mantissa below `2 ^ 53` times a power of two.
A ratio of natural numbers is rounded to the nearest of them, a tie to the even
mantissa, in exact arithmetic.
-/

set_option autoImplicit false

namespace MonthlyJournal

/-- A double precision number; a finite one is `mantissa * 2 ^ exponent`. -/
inductive Binary where
  | finite (negative : Bool) (mantissa : Nat) (exponent : Int)
  | infinite (negative : Bool)
  | nan
  deriving DecidableEq

namespace Binary

def minExponent : Int := -1074

def maxExponent : Int := 971

def mantissas : Nat := Nat.pow 2 53

def zero (negative : Bool) : Binary := finite negative 0 minExponent

/-- Numbers are equal by value: the zeros are equal, and so are two that are no number. -/
def same : Binary → Binary → Bool
  | finite _ 0 _, finite _ 0 _ => true
  | x, y => x == y

def isFinite : Binary → Bool
  | finite .. => true
  | _ => false

/-- The whole number nearest to `num / den`; a tie goes to the even neighbour. -/
def roundDiv (num den : Nat) : Nat :=
  let q := num / den
  let r := num % den
  if 2 * r < den then q
  else if den < 2 * r then q + 1
  else q + q % 2

def scaled (num den : Nat) (e : Int) : Nat × Nat :=
  if e < 0 then (num * Nat.pow 2 (-e).toNat, den) else (num, den * Nat.pow 2 e.toNat)

/-- The exponent at which a positive ratio has a mantissa of full length, or the
least exponent when the ratio is too small for that. -/
def exponentOf (num den : Nat) : Int :=
  let low : Int := (num.log2 : Int) - den.log2 - 53
  let (n, d) := scaled num den low
  max (if n / d < mantissas then low else low + 1) minExponent

def ofRatio (negative : Bool) (num den : Nat) : Binary :=
  if num = 0 then zero negative
  else
    let e := exponentOf num den
    let (n, d) := scaled num den e
    let m := roundDiv n d
    let (m, e) := if m = mantissas then (mantissas / 2, e + 1) else (m, e)
    if maxExponent < e then infinite negative else finite negative m e

/-- Decimal exponents whose numbers are all beyond the greatest double or all
below half the smallest one. -/
def farExponent : Nat := 400

/-- The double precision number nearest to `digits * 10 ^ exponent`, where
`digits` is written with `length` digits. -/
def ofDecimal (negative : Bool) (digits length : Nat) (exponent : Int) : Binary :=
  if digits = 0 then zero negative
  else if exponent < 0 then
    if (length : Int) + exponent < -(farExponent : Int) then zero negative
    else ofRatio negative digits (Nat.pow 10 (-exponent).toNat)
  else if (farExponent : Int) < exponent then infinite negative
  else ofRatio negative (digits * Nat.pow 10 exponent.toNat) 1

end Binary
end MonthlyJournal

/-!
## The shortest decimal that reads back

Around a double lies the interval of the reals that round to it. Among the
decimals inside that interval the one with the fewest digits is chosen, and of
those the nearest. On each decimal grid only the two neighbours of the number
have to be looked at.
-/

namespace MonthlyJournal.Decimal

inductive Tie where
  | toEven
  | up
  deriving DecidableEq

structure Digits where
  digits : Nat
  exponent : Int
  deriving DecidableEq

def power (b n : Nat) (e : Int) : Nat × Nat :=
  if e < 0 then (n, b.pow (-e).toNat) else (n * b.pow e.toNat, 1)

def compareRatios (a b : Nat × Nat) : Ordering := compare (a.1 * b.2) (b.1 * a.2)

/-- The number of digits before the decimal point of a ratio above `10 ^ (-400)`;
it is zero or negative when zeros follow the point. -/
def pointPosition (a : Nat × Nat) : Int :=
  ((Nat.toDigits 10 (a.1 * Nat.pow 10 400 / a.2)).length : Int) - 400

structure Rounding where
  mantissa : Nat
  exponent : Int

namespace Rounding

def value (r : Rounding) : Nat × Nat := power 2 r.mantissa r.exponent

/-- The lower end: half way to the next smaller double, which is only half as far
away when the mantissa is the least one of full length. -/
def low (r : Rounding) : Nat × Nat :=
  if r.mantissa = Binary.mantissas / 2 ∧ Binary.minExponent < r.exponent
  then power 2 (4 * r.mantissa - 1) (r.exponent - 2)
  else power 2 (2 * r.mantissa - 1) (r.exponent - 1)

def high (r : Rounding) : Nat × Nat := power 2 (2 * r.mantissa + 1) (r.exponent - 1)

/-- Does a decimal round to the number? The ends do when the mantissa is even. -/
def contains (r : Rounding) (d : Digits) : Bool :=
  let x := power 10 d.digits d.exponent
  let even := r.mantissa % 2 == 0
  (match compareRatios r.low x with
   | .lt => true
   | .eq => even
   | .gt => false) &&
  (match compareRatios x r.high with
   | .lt => true
   | .eq => even
   | .gt => false)

def onGrid? (r : Rounding) (tie : Tie) (e : Int) : Option Digits :=
  let v := r.value
  let (unit, divisor) := power 10 1 e
  let below := v.1 * divisor / (v.2 * unit)
  let down : Digits := ⟨below, e⟩
  let up : Digits := ⟨below + 1, e⟩
  let half := power 10 (2 * below + 1) e
  let nearer :=
    match compareRatios (2 * v.1, v.2) half with
    | .lt => down
    | .gt => up
    | .eq => if tie = .toEven ∧ below % 2 = 0 then down else up
  match r.contains down && 0 < below, r.contains up with
  | true, true => some nearer
  | true, false => some down
  | false, true => some up
  | false, false => none

def onGrids (r : Rounding) (tie : Tie) : Nat → Int → Digits
  | 0, _ => ⟨0, 0⟩
  | n + 1, e => match r.onGrid? tie e with
    | some d => d
    | none => onGrids r tie n (e - 1)

/-- The shortest decimal that reads back; seventeen digits always do. -/
def shortest (r : Rounding) (tie : Tie) : Digits :=
  r.onGrids tie 18 (pointPosition r.value)

end Rounding

def stripZeros : Nat → Digits → Digits
  | 0, d => d
  | n + 1, d =>
    if d.digits ≠ 0 ∧ d.digits % 10 = 0 then stripZeros n ⟨d.digits / 10, d.exponent + 1⟩ else d

end MonthlyJournal.Decimal

/-!
## Notations of floating point numbers

A notation says where plain digits end and exponents begin, which way a tie
goes, and how the values that are no finite number are spelled. Digits are the
fewest that read back, and a number in plain digits always shows a point.
-/

namespace MonthlyJournal.Decimal

structure FloatNotation where
  /-- Plain digits are used while the point stands after more digits than this
  (negative for zeros behind the point), -/
  pointAbove : Int
  /-- and after no more digits than this. -/
  pointUpTo : Int
  tie : Tie
  infinity : Text
  negativeInfinity : Text
  notANumber : Text

namespace FloatNotation

def plain (digits : Text) (exponent : Int) : Text :=
  let point : Int := digits.length + exponent
  if 0 ≤ exponent then digits ++ List.replicate exponent.toNat '0' ++ ['.', '0']
  else if 0 < point then digits.take point.toNat ++ '.' :: digits.drop point.toNat
  else ['0', '.'] ++ List.replicate (-point).toNat '0' ++ digits

def scientific (digits : Text) (exponent : Int) : Text :=
  let e : Int := digits.length + exponent - 1
  let sign := if e < 0 then ['-'] else []
  let fraction := match digits.drop 1 with
    | [] => []
    | more => '.' :: more
  digits.take 1 ++ fraction ++ 'e' :: sign ++ Text.ofNat e.natAbs

def decimal (f : FloatNotation) (d : Digits) : Text :=
  let digits := Text.ofNat d.digits
  let point : Int := digits.length + d.exponent
  if f.pointAbove < point ∧ point ≤ f.pointUpTo then plain digits d.exponent
  else scientific digits d.exponent

def text (f : FloatNotation) : Binary → Text
  | .nan => f.notANumber
  | .infinite false => f.infinity
  | .infinite true => f.negativeInfinity
  | .finite negative mantissa exponent =>
    let sign := if negative then ['-'] else []
    if mantissa = 0 then sign ++ ['0', '.', '0']
    else sign ++ f.decimal (stripZeros 20 (Rounding.shortest ⟨mantissa, exponent⟩ f.tie))

end FloatNotation

/-- Reads digits, perhaps with a point among them, and perhaps an exponent. There
is at least one digit; the sign is read elsewhere. -/
def read? (negative : Bool) (t : Text) : Option Binary :=
  let whole := t.takeWhile Char.isDigit
  let afterWhole := t.dropWhile Char.isDigit
  let (fraction, rest) := match afterWhole with
    | '.' :: more => (more.takeWhile Char.isDigit, more.dropWhile Char.isDigit)
    | _ => ([], afterWhole)
  let digits := whole ++ fraction
  if digits.isEmpty then none
  else
    let value (exponent : Int) : Binary :=
      let significant := digits.dropWhile (· == '0')
      Binary.ofDecimal negative (Text.digitsValue significant) significant.length
        (exponent - fraction.length)
    match rest with
    | [] => some (value 0)
    | e :: more =>
      if e = 'e' ∨ e = 'E' then
        let (minus, power) := match more with
          | '-' :: p => (true, p)
          | '+' :: p => (false, p)
          | p => (false, p)
        if power.isEmpty || !power.all Char.isDigit then none
        else
          let n : Int := Text.digitsValue power
          some (value (if minus then -n else n))
      else none

end MonthlyJournal.Decimal
