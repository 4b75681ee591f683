import MonthlyJournal.Decimal
import MonthlyJournal.Yaml.Node

/-!
# From nodes to values

The tree of a stream and what it means.
-/

set_option autoImplicit false

namespace MonthlyJournal.Yaml

/-!
## Numbers in YAML

Whole numbers may carry a sign and a radix mark. A row of digits that begins
with a zero is no number. Whole numbers have sixty-four bits, and one that would
need more, up to twice as many, is an error; beyond that it is read as a
floating point number.
-/

inductive Whole where
  | fits (n : Int)
  | outOfRange
  deriving DecidableEq

namespace Whole

def unsigned (t : Text) : Option Bool × Text :=
  match t with
  | '+' :: t => (some false, t)
  | '-' :: t => (some true, t)
  | t => (none, t)

def radix? : Text → Option (Nat × Text)
  | '0' :: 'x' :: t => some (16, t)
  | '0' :: 'o' :: t => some (8, t)
  | '0' :: 'b' :: t => some (2, t)
  | _ => none

def hasLeadingZero (t : Text) : Bool :=
  let digits := (unsigned t).2
  1 < digits.length && digits.head? == some '0' && digits.all Char.isDigit

def sized (negative : Bool) (n : Nat) : Option Whole :=
  if negative then
    if n ≤ Nat.pow 2 63 then some (.fits (-n))
    else if n ≤ Nat.pow 2 127 then some .outOfRange
    else none
  else
    if n < Nat.pow 2 64 then some (.fits n)
    else if n < Nat.pow 2 128 then some .outOfRange
    else none

def read? (t : Text) : Option Whole :=
  let (sign, digits) := unsigned t
  let negative := sign = some true
  let marked := (radix? digits).bind fun (base, digits) =>
    (Text.ofDigits? base digits).bind (sized negative)
  marked.orElse fun _ =>
    if hasLeadingZero t then none else (Text.ofDigits? 10 digits).bind (sized negative)

end Whole

def floatNotation : Decimal.FloatNotation where
  pointAbove := -5
  pointUpTo := 16
  tie := .toEven
  infinity := ".inf".toList
  negativeInfinity := "-.inf".toList
  notANumber := ".nan".toList

def readFloat? (t : Text) : Option Binary :=
  let (sign, digits) := Whole.unsigned t
  if [".inf", ".Inf", ".INF"].any (·.toList = digits) then
    some (.infinite (sign = some true))
  else if [".nan", ".NaN", ".NAN"].any (·.toList = t) then some .nan
  else (Decimal.read? (sign = some true) digits).filter Binary.isFinite

/-!
## Values

What a stream means once aliases are followed and plain scalars are told apart
into nothing, truth values, numbers and texts. The keys of a mapping are
different values.
-/

inductive Value where
  | null
  | bool (b : Bool)
  | int (n : Int)
  | float (x : Binary)
  | string (t : Text)
  | sequence (items : List Value)
  | mapping (pairs : List (Value × Value))
  | tagged (tag : Tag) (v : Value)

namespace Value

mutual

/-- Are two values equal as keys? The order of pairs in a mapping does not matter. -/
def same : Value → Value → Bool
  | null, null => true
  | bool a, bool b => a == b
  | int a, int b => a == b
  | float a, float b => a.same b
  | string a, string b => a == b
  | sequence xs, sequence ys => sameItems xs ys
  | mapping xs, mapping ys => xs.length == ys.length && samePairs xs ys
  | tagged s a, tagged t b => s == t && same a b
  | _, _ => false

def sameItems : List Value → List Value → Bool
  | [], [] => true
  | a :: xs, b :: ys => same a b && sameItems xs ys
  | _, _ => false

def samePairs : List (Value × Value) → List (Value × Value) → Bool
  | [], _ => true
  | (k, v) :: xs, ys => ys.any (fun y => same k y.1 && same v y.2) && samePairs xs ys

end

def isNull (t : Text) : Bool := ["null", "Null", "NULL", "~"].any (·.toList = t)

def readBool? (t : Text) : Option Bool :=
  if ["true", "True", "TRUE"].any (·.toList = t) then some true
  else if ["false", "False", "FALSE"].any (·.toList = t) then some false
  else none

def ofWhole : Whole → Except Fault Value
  | .fits n => .ok (int n)
  | .outOfRange => .error .numberOutOfRange

def ofPlain (t : Text) : Except Fault Value :=
  if t.isEmpty || isNull t then .ok null
  else match readBool? t with
    | some b => .ok (bool b)
    | none => match Whole.read? t with
      | some w => ofWhole w
      | none =>
        if Whole.hasLeadingZero t then .ok (string t)
        else match readFloat? t with
          | some x => .ok (float x)
          | none => .ok (string t)

def ofUntagged (plain : Bool) (t : Text) : Except Fault Value :=
  if plain then ofPlain t else .ok (string t)

/-- The value of a scalar with a tag that is not local. The tags of the core kinds
ask for a scalar that fits, and all others give a text. -/
def ofCore (tag : Tag) (t : Text) : Except Fault Value :=
  let fit (v : Option Value) : Except Fault Value :=
    match v with
    | some v => .ok v
    | none => .error .badTaggedScalar
  if tag = Tag.core "bool" then fit ((readBool? t).map bool)
  else if tag = Tag.core "int" then
    match Whole.read? t with
    | some w => ofWhole w
    | none => fit none
  else if tag = Tag.core "float" then fit ((readFloat? t).map float)
  else if tag = Tag.core "null" then fit (if isNull t then some null else none)
  else .ok (string t)

def localName? (p : Properties) : Option Tag :=
  match p.tag with
  | some tag =>
    if tag.isLocal && tag.withoutBang.isText then some tag.withoutBang.withoutBang else none
  | none => none

def ofScalar (p : Properties) (plain : Bool) (t : Text) : Except Fault Value :=
  match localName? p with
  | some name => (ofUntagged plain t).map (tagged name)
  | none => match p.tag with
    | some tag => if tag.isLocal then ofUntagged plain t else ofCore tag t
    | none => ofUntagged plain t

def named (p : Properties) (v : Value) : Value :=
  match localName? p with
  | some name => tagged name v
  | none => v

end Value

namespace Node

mutual

def anchored : Node → List (Nat × Node)
  | reference _ => []
  | scalar p plain t => (p.anchor.map (·, scalar p plain t)).toList
  | sequence p items => (p.anchor.map (·, sequence p items)).toList ++ anchoredItems items
  | mapping p pairs => (p.anchor.map (·, mapping p pairs)).toList ++ anchoredPairs pairs

def anchoredItems : List Node → List (Nat × Node)
  | [] => []
  | n :: ns => anchored n ++ anchoredItems ns

def anchoredPairs : List (Node × Node) → List (Nat × Node)
  | [] => []
  | (k, v) :: ps => anchored k ++ anchored v ++ anchoredPairs ps

end

mutual

/-- The number of beginnings and ends in a tree; a scalar has only one of them. -/
def events : Node → Nat
  | reference _ => 1
  | scalar .. => 1
  | sequence _ items => 2 + eventsOfItems items
  | mapping _ pairs => 2 + eventsOfPairs pairs

def eventsOfItems : List Node → Nat
  | [] => 0
  | n :: ns => events n + eventsOfItems ns

def eventsOfPairs : List (Node × Node) → Nat
  | [] => 0
  | (k, v) :: ps => events k + events v + eventsOfPairs ps

end

def maxDepth : Nat := 128

def aliasesPerEvent : Nat := 100

structure Context where
  /-- The anchored nodes, the last one first. -/
  targets : List (Nat × Node)
  /-- How many aliases may be followed. -/
  limit : Nat

def addPair (pairs : List (Value × Value)) (key value : Value) :
    Except Fault (List (Value × Value)) :=
  if pairs.any (fun p => p.1.same key) then .error .duplicateKey
  else .ok (pairs ++ [(key, value)])

/-- The value of a node, with `depth` levels of collections left. The state counts
the aliases followed. -/
def toValue (ctx : Context) : Nat → (depth : Nat) → Node → StateT Nat (Except Fault) Value
  | 0, _, _ => throw .tooDeep
  | fuel + 1, depth, node =>
    match node with
    | .reference n => do
      modify (· + 1)
      if ctx.limit < (← get) then throw .tooManyAliases
      match ctx.targets.lookup n with
      | some target => toValue ctx fuel depth target
      | none => throw .undefinedAlias
    | .scalar p plain t => Value.ofScalar p plain t
    | .sequence p items => do
      if depth = 0 then throw .tooDeep
      let items ← items.mapM (toValue ctx fuel (depth - 1))
      return Value.named p (.sequence items)
    | .mapping p pairs => do
      if depth = 0 then throw .tooDeep
      let pairs ← pairs.foldlM (fun done (k, v) => do
        let key ← toValue ctx fuel (depth - 1) k
        let value ← toValue ctx fuel (depth - 1) v
        addPair done key value) []
      return Value.named p (.mapping pairs)

def value (root : Node) : Except Fault Value := do
  let ctx : Context := {
    targets := (anchored root).reverse
    limit := aliasesPerEvent * events root }
  let (v, _) ← (toValue ctx (2 * maxDepth + 2) maxDepth root).run 0
  return v

end Node

def load (t : Text) : Except Fault Value := do
  match ← Node.ofText t with
  | some root => root.value
  | none => return .null

end MonthlyJournal.Yaml
