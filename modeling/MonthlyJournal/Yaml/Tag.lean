import MonthlyJournal.Yaml.Cursor

/-!
# Tags

A tag names the kind of a node. It is written in full between angle brackets, or
as a handle with a suffix, where the handle stands for some beginning. A tag is
a row of bytes: escapes in it spell bytes, and these need not be a text. What is
written ends at a zero byte, and the bytes after it do not count.
-/

set_option autoImplicit false

namespace MonthlyJournal.Yaml

abbrev Tag := List UInt8

namespace Tag

def ofAscii (t : Text) : Tag := t.map fun c => c.toNat.toUInt8

def isText (tag : Tag) : Bool := (ByteArray.mk tag.toArray).validateUTF8

def untilZero (bytes : Tag) : Tag := bytes.takeWhile (· ≠ 0)

def bang : UInt8 := 0x21

def isLocal (tag : Tag) : Bool := tag.head? == some bang

def withoutBang (tag : Tag) : Tag :=
  match tag with
  | [] => []
  | b :: rest => if b = bang ∧ rest ≠ [] then rest else tag

def corePrefix : Tag := ofAscii "tag:yaml.org,2002:".toList

def core (name : String) : Tag := corePrefix ++ ofAscii name.toList

def handle (t : Text) : Text :=
  match t with
  | '!' :: t =>
    let name := t.takeWhile isNameChar
    '!' :: name ++ (if Text.startsWith ['!'] (t.drop name.length) then ['!'] else [])
  | _ => []

def isNamedHandle (h : Text) : Bool := 2 ≤ h.length && Text.endsWith ['!'] h

def isUriChar (bracketed : Bool) (c : Char) : Bool :=
  isNameChar c || ";/?:@&=+$.%!~*'()".toList.contains c || bracketed && ",[]".toList.contains c

def bytesAfter? (first : Nat) : Option Nat :=
  if first < 0x80 then some 0
  else if 0xC0 ≤ first ∧ first < 0xE0 then some 1
  else if 0xE0 ≤ first ∧ first < 0xF0 then some 2
  else if 0xF0 ≤ first ∧ first < 0xF8 then some 3
  else none

/-- The bytes still to come after one more byte, when `pending` were expected. -/
def pendingAfter? (pending byte : Nat) : Option Nat :=
  match pending with
  | 0 => bytesAfter? byte
  | n + 1 => if 0x80 ≤ byte ∧ byte < 0xC0 then some n else none

/-- Reads the characters of a tag; gives its bytes and the number of characters
read. An encoded character has to be spelled by escapes to its end. -/
def uri (bracketed : Bool) : (pending skip : Nat) → Text → Except Fault (Tag × Nat)
  | pending, _, [] => if pending = 0 then .ok ([], 0) else .error .badTag
  | pending, skip + 1, _ :: t => (uri bracketed pending skip t).map fun (bs, n) => (bs, n + 1)
  | pending, 0, c :: t =>
    if c == '%' then
      match Text.ofDigits? 16 (t.take 2) with
      | some byte =>
        if t.length < 2 then .error .badTag
        else match pendingAfter? pending byte with
          | some pending =>
            (uri bracketed pending 2 t).map fun (bs, n) => (byte.toUInt8 :: bs, n + 1)
          | none => .error .badTag
      | none => .error .badTag
    else if pending ≠ 0 then .error .badTag
    else if isUriChar bracketed c then
      (uri bracketed 0 0 t).map fun (bs, n) => (c.toNat.toUInt8 :: bs, n + 1)
    else .ok ([], 0)

structure Written where
  handle : Text
  suffix : Tag
  deriving DecidableEq

def read (flow : Bool) (c : Cursor) : Except Fault (Written × Cursor) := do
  let (written, c) ←
    if c.startsWith ['!', '<'] then do
      let c := c.advance 2
      let (bytes, n) ← uri true 0 0 c.rest
      let c := c.advance n
      if bytes.isEmpty || !c.startsWith ['>'] then throw .badTag
      pure (⟨[], untilZero bytes⟩, c.advance 1)
    else do
      let h := handle c.rest
      let c := c.advance h.length
      let (bytes, n) ← uri false 0 0 c.rest
      let c := c.advance n
      if isNamedHandle h then
        if bytes.isEmpty then throw .badTag
        pure (⟨h, untilZero bytes⟩, c)
      else
        let suffix := untilZero (ofAscii (h.drop 1) ++ bytes)
        pure (if suffix.isEmpty then ⟨[], [bang]⟩ else ⟨['!'], suffix⟩, c)
  if atWordEnd c.rest || flow && c.startsWith [','] then return (written, c)
  throw .badTag

end Tag

inductive Directive where
  | version (major minor : Nat)
  | tag (handle : Text) (stands : Tag)
  deriving DecidableEq

namespace Directive

def number (c : Cursor) : Except Fault (Nat × Cursor) :=
  let digits := c.rest.takeWhile Char.isDigit
  if digits.isEmpty || 9 < digits.length then .error .badDirective
  else .ok (Text.digitsValue digits, c.advance digits.length)

def version? (c : Cursor) : Except Fault (Directive × Cursor) := do
  let (major, c) ← number c
  if !c.startsWith ['.'] then throw .badDirective
  let (minor, c) ← number (c.advance 1)
  return (version major minor, c)

def tag? (c : Cursor) : Except Fault (Directive × Cursor) := do
  let h := Tag.handle c.rest
  if h.isEmpty || h ≠ ['!'] && !Tag.isNamedHandle h then throw .badDirective
  let c := c.advance h.length
  if !c.rest.head?.any isGapChar then throw .badDirective
  let c := c.skipWhile isGapChar
  let (bytes, n) ← Tag.uri true 0 0 c.rest
  let c := c.advance n
  if bytes.isEmpty || !atWordEnd c.rest then throw .badDirective
  return (tag h (Tag.untilZero bytes), c)

def read (c : Cursor) : Except Fault (Directive × Cursor) := do
  let c := c.advance 1
  let name := c.rest.takeWhile isNameChar
  let c := c.advance name.length
  if name.isEmpty || !atWordEnd c.rest then throw .badDirective
  let c := c.skipWhile isGapChar
  let (directive, c) ←
    if name = "YAML".toList then version? c
    else if name = "TAG".toList then tag? c
    else throw .badDirective
  let c := c.skipWhile isGapChar
  let c := if c.startsWith ['#'] then c.skipLine else c
  if !c.rest.isEmpty && c.break?.isNone then throw .badDirective
  return (directive, c.afterBreak)

end Directive
end MonthlyJournal.Yaml
