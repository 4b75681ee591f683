import MonthlyJournal.Decimal

/-!
# TOML values

Tables have their keys in order, so that equal tables are equal as lists. Merging
lays one value over another: tables are merged key by key, and anything else of
the overlay replaces what is below.
-/

set_option autoImplicit false

namespace MonthlyJournal.Toml

inductive Value where
  | string (t : Text)
  | integer (n : Int)
  | float (x : Binary)
  | boolean (b : Bool)
  | datetime (t : Text)
  | array (items : List Value)
  | table (entries : List (Text × Value))
  deriving Inhabited

abbrev Table := Dictionary Value

mutual

def Value.merge : (base overlay : Value) → Value
  | .table base, .table overlay => .table (Table.merge base overlay)
  | _, overlay => overlay

def Table.merge (base : Table) : (overlay : List (Text × Value)) → Table
  | [] => base
  | (key, v) :: rest =>
    let merged := match Dictionary.get? key base with
      | some below => Value.merge below v
      | none => v
    Table.merge (Dictionary.insert key merged base) rest

end

end MonthlyJournal.Toml

/-!
## TOML dates and times

A date, a time, or both with an offset or without. They are kept in one
spelling: a capital T between date and time, no zeros at the end of the
fraction, and at most nine digits in it.
-/

namespace MonthlyJournal.Toml.Moments

def number? (n low high : Nat) (t : Text) : Option (Nat × Text) :=
  let digits := t.take n
  if digits.length = n ∧ digits.all Char.isDigit then
    let value := Text.digitsValue digits
    if low ≤ value ∧ value ≤ high then some (value, t.drop n) else none
  else none

def isLeapYear (year : Nat) : Bool := year % 4 == 0 && (year % 100 != 0 || year % 400 == 0)

def daysIn (year month : Nat) : Nat :=
  if month = 2 then (if isLeapYear year then 29 else 28)
  else if [4, 6, 9, 11].contains month then 30
  else 31

def twoDigits (n : Nat) : Text := Text.padZeros 2 (Text.ofNat n)

def date? (t : Text) : Option (Text × Text) := do
  let (year, t) ← number? 4 0 9999 t
  let t ← Text.after? ['-'] t
  let (month, t) ← number? 2 1 12 t
  let t ← Text.after? ['-'] t
  let (day, t) ← number? 2 1 (daysIn year month) t
  return (Text.padZeros 4 (Text.ofNat year) ++ '-' :: twoDigits month ++ '-' :: twoDigits day, t)

def fraction (digits : Text) : Text :=
  let kept := ((digits.take 9).reverse.dropWhile (· == '0')).reverse
  if kept.isEmpty then [] else '.' :: kept

def time? (t : Text) : Option (Text × Text) := do
  let (hour, t) ← number? 2 0 23 t
  let t ← Text.after? [':'] t
  let (minute, t) ← number? 2 0 59 t
  let t ← Text.after? [':'] t
  let (second, t) ← number? 2 0 60 t
  let whole := twoDigits hour ++ ':' :: twoDigits minute ++ ':' :: twoDigits second
  match t with
  | '.' :: more =>
    let digits := more.takeWhile Char.isDigit
    if digits.isEmpty then none
    else return (whole ++ fraction digits, more.dropWhile Char.isDigit)
  | _ => return (whole, t)

def offset (t : Text) : Option (Text × Text) :=
  match t with
  | [] => some ([], [])
  | c :: more =>
    if c = 'Z' ∨ c = 'z' then some (['Z'], more)
    else if c = '+' ∨ c = '-' then do
      let (hours, more) ← number? 2 0 23 more
      let more ← Text.after? [':'] more
      let (minutes, more) ← number? 2 0 59 more
      let sign := if c = '-' ∧ hours + minutes ≠ 0 then '-' else '+'
      return (sign :: twoDigits hours ++ ':' :: twoDigits minutes, more)
    else some ([], t)

def timeAfterDate? (t : Text) : Option (Text × Text) :=
  match t with
  | [] => none
  | c :: more =>
    if c = 'T' ∨ c = 't' ∨ c = ' ' then do
      let (time, more) ← time? more
      let (offset, more) ← offset more
      return ('T' :: time ++ offset, more)
    else none

def read? (t : Text) : Option (Text × Text) :=
  match date? t with
  | some (date, rest) => match timeAfterDate? rest with
    | some (time, rest) => some (date ++ time, rest)
    | none => some (date, rest)
  | none => time? t

def ofText? (t : Text) : Option Text := do
  let (moment, rest) ← read? t
  if rest.isEmpty then return moment else none

end MonthlyJournal.Toml.Moments

/-!
## TOML numbers

Underscores may stand between digits. Decimal numbers do not begin with a
needless zero. Whole numbers have sixty-four bits, and a floating point number
may not be too great, while one that is too small for the least of them counts
as negative infinity.
-/

namespace MonthlyJournal.Toml.Numbers

/-- Digits with single underscores between them: the digits, and the text after.
A digit has to come next when `must` holds. -/
def digitsOf? (isDigit : Char → Bool) : (must : Bool) → Text → Option (Text × Text)
  | must, [] => if must then none else some ([], [])
  | must, c :: t =>
    if isDigit c then (digitsOf? isDigit false t).map fun (ds, rest) => (c :: ds, rest)
    else if must then none
    else if c = '_' then digitsOf? isDigit true t
    else some ([], c :: t)

def digitRun? (isDigit : Char → Bool) (t : Text) : Option (Text × Text) := digitsOf? isDigit true t

/-- A sign, when there is one; `true` stands for minus. -/
def sign : Text → Option Bool × Text
  | '+' :: t => (some false, t)
  | '-' :: t => (some true, t)
  | t => (none, t)

def decimal? (t : Text) : Option (Text × Text) :=
  match t with
  | '0' :: rest => some (['0'], rest)
  | _ => digitRun? Char.isDigit t

def isBase (base : Nat) (c : Char) : Bool := (Text.digitValue? base c).isSome

def fits? (negative : Bool) (n : Nat) : Option Int :=
  if negative then (if n ≤ Nat.pow 2 63 then some (-n) else none)
  else if n < Nat.pow 2 63 then some n else none

def integer? (t : Text) : Option (Int × Text) :=
  let marked (base : Nat) (t : Text) : Option (Int × Text) := do
    let (ds, rest) ← digitRun? (isBase base) t
    let n ← (Text.ofDigits? base ds).bind (fits? false)
    return (n, rest)
  match t with
  | '0' :: 'x' :: t => marked 16 t
  | '0' :: 'o' :: t => marked 8 t
  | '0' :: 'b' :: t => marked 2 t
  | _ => do
    let (s, t) := sign t
    let (ds, rest) ← decimal? t
    let n ← fits? (s = some true) (Text.digitsValue ds)
    return (n, rest)

def exponent? : Text → Option (Text × Text)
  | [] => none
  | e :: t =>
    if e = 'e' ∨ e = 'E' then do
      let (s, t) := sign t
      let (ds, rest) ← digitRun? Char.isDigit t
      return ('e' :: (if s = some true then ['-'] else []) ++ ds, rest)
    else none

def fraction? : Text → Option (Text × Text)
  | '.' :: t => (digitRun? Char.isDigit t).map fun (ds, rest) => ('.' :: ds, rest)
  | _ => none

def tail? (t : Text) : Option (Text × Text) :=
  match fraction? t with
  | none => if Text.startsWith ['.'] t then none else exponent? t
  | some (fraction, rest) =>
    if Text.startsWith ['e'] rest || Text.startsWith ['E'] rest then
      (exponent? rest).map fun (power, rest) => (fraction ++ power, rest)
    else some (fraction, rest)

def finite? (t : Text) : Option (Binary × Text) := do
  let (s, t) := sign t
  let (whole, rest) ← decimal? t
  let (more, rest) ← tail? rest
  let x ← Decimal.read? (s = some true) (whole ++ more)
  if x = .infinite false then none else some (x, rest)

def special? (t : Text) : Option (Binary × Text) :=
  let (s, t) := sign t
  match Text.after? "inf".toList t with
  | some rest => some (.infinite (s = some true), rest)
  | none => (Text.after? "nan".toList t).map fun rest => (.nan, rest)

def float? (t : Text) : Option (Binary × Text) := (finite? t).orElse fun _ => special? t

end Numbers

def floatNotation : Decimal.FloatNotation where
  pointAbove := -4
  pointUpTo := 16
  tie := .up
  infinity := "inf".toList
  negativeInfinity := "-inf".toList
  notANumber := "NaN".toList

end MonthlyJournal.Toml
