import MonthlyJournal.Text

/-!
# TOML strings

Four kinds: with escapes or without, on one line or on several. A string on
several lines drops a line end right after its opening quotes, and may end in up
to two quotes of its own.

Every reader gives what it has read and the text that follows, or nothing.
-/

set_option autoImplicit false

namespace MonthlyJournal.Toml

def isSpace (c : Char) : Bool := c == ' ' || c == '\t'

def isTextChar (c : Char) : Bool := c == '\t' || (0x20 ≤ c.toNat && c.toNat ≠ 0x7F)

def afterNewline? : Text → Option Text
  | '\n' :: t => some t
  | '\r' :: '\n' :: t => some t
  | _ => none

def dropNewline (t : Text) : Text := (afterNewline? t).getD t

namespace Strings

def simpleEscape? : Char → Option Char
  | 'b' => some '\x08'
  | 'f' => some '\x0c'
  | 'n' => some '\n'
  | 'r' => some '\r'
  | 't' => some '\t'
  | '"' => some '"'
  | '\\' => some '\\'
  | _ => none

def escape? : Text → Option (Char × Nat)
  | [] => none
  | e :: t =>
    let hex (n : Nat) : Option (Char × Nat) := do
      guard (n ≤ t.length)
      let code ← Text.ofDigits? 16 (t.take n)
      if code.isValidChar then return (Char.ofNat code, n + 1) else none
    if e = 'u' then hex 4
    else if e = 'U' then hex 8
    else (simpleEscape? e).map (·, 1)

/-- What follows the opening quote of a string with escapes on one line. `skip`
characters belong to an escape already read. -/
def basic : (skip : Nat) → Text → Option (Text × Text)
  | _, [] => none
  | skip + 1, _ :: t => basic skip t
  | 0, c :: t =>
    if c = '"' then some ([], t)
    else if c = '\\' then
      match escape? t with
      | some (e, n) => (basic n t).map fun (s, rest) => (e :: s, rest)
      | none => none
    else if isTextChar c then (basic 0 t).map fun (s, rest) => (c :: s, rest)
    else none

def literal : Text → Option (Text × Text)
  | [] => none
  | c :: t =>
    if c = '\'' then some ([], t)
    else if isTextChar c then (literal t).map fun (s, rest) => (c :: s, rest)
    else none

def gapLength : Text → Nat
  | [] => 0
  | c :: t =>
    if isSpace c || c == '\n' then gapLength t + 1
    else if c == '\r' && t.head? == some '\n' then gapLength t + 1
    else 0

def joinedLength? (t : Text) : Option Nat :=
  if (afterNewline? (t.dropWhile isSpace)).isSome then some (gapLength t) else none

/-- The quotes at the beginning of a text that close a string on several lines:
the quotes that still belong to it, and the text after. -/
def closing? (quote : Char) (t : Text) : Option (Text × Text) :=
  let n := (t.takeWhile (· == quote)).length
  if 3 ≤ n ∧ n ≤ 5 then some (List.replicate (n - 3) quote, t.drop n) else none

def closes (quote : Char) (t : Text) : Bool := Text.startsWith [quote, quote, quote] t

def multiline (quote : Char) (escapes : Bool) : (skip : Nat) → Text → Option (Text × Text)
  | _, [] => none
  | skip + 1, _ :: t => multiline quote escapes skip t
  | 0, c :: t =>
    if closes quote (c :: t) then closing? quote (c :: t)
    else if escapes && c == '\\' then
      match joinedLength? t with
      | some n => multiline quote escapes n t
      | none => match escape? t with
        | some (e, n) => (multiline quote escapes n t).map fun (s, rest) => (e :: s, rest)
        | none => none
    else if c == '\r' then
      if t.head? == some '\n' then multiline quote escapes 0 t else none
    else if c == '\n' || isTextChar c then
      (multiline quote escapes 0 t).map fun (s, rest) => (c :: s, rest)
    else none

def readLine? : Text → Option (Text × Text)
  | '"' :: t => basic 0 t
  | '\'' :: t => literal t
  | _ => none

def read? (t : Text) : Option (Text × Text) :=
  match t with
  | '"' :: '"' :: '"' :: t => multiline '"' true 0 (dropNewline t)
  | '\'' :: '\'' :: '\'' :: t => multiline '\'' false 0 (dropNewline t)
  | t => readLine? t

end Strings
end MonthlyJournal.Toml
