import MonthlyJournal.Yaml.Cursor

/-!
# Scalars

A scalar is written plainly, between quotes of two kinds, or as a block of lines.
-/

set_option autoImplicit false

namespace MonthlyJournal.Yaml.Plain

/-!
## Plain scalars

Words without quotes. A colon before a gap ends the scalar, as do a comment, the
indicators of a flow collection inside one, and a line indented too little.
-/

def colonTouches : Text → Bool
  | [] => false
  | c :: _ => c == '?' || isFlowIndicator c

def word (flow : Bool) : Text → Except Fault Text
  | [] => .ok []
  | c :: t =>
    if isGapChar c || isBreak c then .ok []
    else if c == ':' && flow && colonTouches t then .error .ambiguousColon
    else if c == ':' && atWordEnd t || flow && isFlowIndicator c then .ok []
    else (word flow t).map (c :: ·)

structure Result where
  text : Text
  broken : Bool
  cursor : Cursor

def readFrom (flow : Bool) (indent : Nat) :
    Nat → Text → Gap → Cursor → Except Fault Result
  | 0, text, gap, c => .ok ⟨text, gap.broken, c⟩
  | fuel + 1, text, gap, c => do
    if c.atDocumentMark || c.startsWith ['#'] then return ⟨text, gap.broken, c⟩
    let w ← word flow c.rest
    if w.isEmpty then return ⟨text, gap.broken, c⟩
    let text := text ++ gap.text ++ w
    let c := c.advance w.length
    if c.rest.isEmpty || !atWordEnd c.rest then return ⟨text, false, c⟩
    let (gap, c) ← Gap.read indent c.size {} c
    if !flow && c.column < indent then return ⟨text, gap.broken, c⟩
    readFrom flow indent fuel text gap c

def read (flow : Bool) (indent : Nat) (c : Cursor) : Except Fault Result :=
  readFrom flow indent c.size [] {} c

end MonthlyJournal.Yaml.Plain

/-!
## Quoted scalars

Between single quotes only the quote itself is special, written twice. Between
double quotes a backslash begins an escape, and one before a line end joins the
lines without a space.
-/

namespace MonthlyJournal.Yaml.Quoted

def escape? : Char → Option Char
  | '0' => some '\x00'
  | 'a' => some '\x07'
  | 'b' => some '\x08'
  | 't' => some '\t'
  | '\t' => some '\t'
  | 'n' => some '\n'
  | 'v' => some '\x0b'
  | 'f' => some '\x0c'
  | 'r' => some '\r'
  | 'e' => some '\x1b'
  | ' ' => some ' '
  | '"' => some '"'
  | '/' => some '/'
  | '\\' => some '\\'
  | 'N' => some '\u0085'
  | '_' => some '\u00a0'
  | 'L' => some '\u2028'
  | 'P' => some '\u2029'
  | _ => none

def hexLength? : Char → Option Nat
  | 'x' => some 2
  | 'u' => some 4
  | 'U' => some 8
  | _ => none

def charOfCode? (n : Nat) : Option Char := if n.isValidChar then some (Char.ofNat n) else none

/-- The character of an escape and the number of characters it is written with,
the backslash not counted. -/
def escaped? : Text → Option (Char × Nat)
  | [] => none
  | e :: t =>
    match hexLength? e with
    | some n => do
      guard (n ≤ t.length)
      let code ← Text.ofDigits? 16 (t.take n)
      return (← charOfCode? code, n + 1)
    | none => (escape? e).map (·, 1)

/-- Reads up to a gap or the closing quote; gives the text and the number of
characters read. `skip` characters belong to an escape already read. -/
def singleRun : (skip : Nat) → Text → Text × Nat
  | _, [] => ([], 0)
  | skip + 1, _ :: t => let (s, n) := singleRun skip t; (s, n + 1)
  | 0, c :: t =>
    if c == '\'' then
      if Text.startsWith ['\''] t then let (s, n) := singleRun 1 t; ('\'' :: s, n + 1) else ([], 0)
    else if isGapChar c || isBreak c then ([], 0)
    else let (s, n) := singleRun 0 t; (c :: s, n + 1)

/-- The same between double quotes; an escaped line end stops the run before its backslash. -/
def doubleRun : (skip : Nat) → Text → Except Fault (Text × Nat)
  | _, [] => .ok ([], 0)
  | skip + 1, _ :: t => (doubleRun skip t).map fun (s, n) => (s, n + 1)
  | 0, c :: t =>
    if c == '"' || isGapChar c || isBreak c then .ok ([], 0)
    else if c == '\\' then
      if t.head?.any isBreak then .ok ([], 0)
      else match escaped? t with
        | none => .error .badEscape
        | some (e, k) => (doubleRun k t).map fun (s, n) => (e :: s, n + 1)
    else (doubleRun 0 t).map fun (s, n) => (c :: s, n + 1)

def readFrom (quote : Char) : Nat → Text → Cursor → Except Fault (Text × Cursor)
  | 0, _, _ => .error .unclosedQuote
  | fuel + 1, text, c => do
    if c.atDocumentMark then throw .documentMarkInQuote
    if c.rest.isEmpty then throw .unclosedQuote
    let (run, n) ← if quote == '"' then doubleRun 0 c.rest else .ok (singleRun 0 c.rest)
    let text := text ++ run
    let c := c.advance n
    let joined := quote == '"' && c.startsWith ['\\']
    let c := if joined then (c.advance 1).afterBreak else c
    if c.startsWith [quote] then return (text, c.advance 1)
    let (gap, c) ← Gap.read 0 c.size { broken := joined } c
    readFrom quote fuel (text ++ gap.text) c

def read (quote : Char) (c : Cursor) : Except Fault (Text × Cursor) :=
  readFrom quote c.size [] (c.advance 1)

end MonthlyJournal.Yaml.Quoted

/-!
## Block scalars

Indented lines below a header. Literal ones keep their line ends; folded ones
join neighbouring lines that begin without a blank. The header says how deep the
lines are indented and what becomes of the line ends after the last of them.
-/

namespace MonthlyJournal.Yaml.Block

inductive Chomping where
  | strip
  | clip
  | keep
  deriving DecidableEq

structure Header where
  chomping : Chomping := .clip
  indent : Option Nat := none

def chomping? : Char → Option Chomping
  | '+' => some .keep
  | '-' => some .strip
  | _ => none

def header (t : Text) : Except Fault (Header × Nat) :=
  let indentMark (t : Text) : Except Fault (Option Nat × Nat) :=
    match t with
    | c :: _ =>
      if c == '0' then .error .badBlockHeader
      else if c.isDigit then .ok (some (c.toNat - '0'.toNat), 1)
      else .ok (none, 0)
    | [] => .ok (none, 0)
  match t.head?.bind chomping? with
  | some chomping => do
    let (indent, n) ← indentMark (t.drop 1)
    return ({ chomping, indent }, n + 1)
  | none => do
    let (indent, n) ← indentMark t
    match indent, (t.drop n).head?.bind chomping? with
    | some _, some chomping => return ({ chomping, indent }, n + 1)
    | _, _ => return ({ indent }, n)

/-- The line ends before the next line of text, and the greatest column that their
blanks reach. While `indent` is unknown all spaces are taken. -/
structure Breaks where
  text : Text
  reach : Nat
  cursor : Cursor

def skipIndent (indent : Option Nat) (c : Cursor) : Cursor :=
  let spaces := (c.rest.takeWhile (· == ' ')).length
  c.advance (match indent with
    | none => spaces
    | some n => min spaces (n - c.column))

def breaks (indent : Option Nat) : Nat → Text → Nat → Cursor → Except Fault Breaks
  | 0, text, reach, c => .ok ⟨text, reach, c⟩
  | fuel + 1, text, reach, c =>
    let c := skipIndent indent c
    let reach := max reach c.column
    if (match indent with | none => true | some n => c.column < n) && c.startsWith ['\t'] then
      .error .tabIndentation
    else match c.break? with
      | some (b, c) => breaks indent fuel (text ++ b) reach c
      | none => .ok ⟨text, reach, c⟩

structure State where
  text : Text := []
  lastBreak : Text := []
  breaks : Text
  /-- Did the last line begin with a blank? -/
  indented : Bool := false
  cursor : Cursor

def lines (literal : Bool) (indent : Nat) : Nat → State → Except Fault State
  | 0, s => .ok s
  | fuel + 1, s => do
    if s.cursor.column ≠ indent || s.cursor.rest.isEmpty then return s
    let indented := s.cursor.rest.head?.any isGapChar
    let folds := !literal && s.lastBreak == ['\n'] && !s.indented && !indented
    let joint := if folds then (if s.breaks.isEmpty then [' '] else []) else s.lastBreak
    let line := s.cursor.rest.takeWhile (!isBreak ·)
    let c := s.cursor.advance line.length
    let (lastBreak, c) := c.break?.getD ([], c)
    let next ← Block.breaks (some indent) c.size [] 0 c
    lines literal indent fuel
      { text := s.text ++ joint ++ s.breaks ++ line, lastBreak, breaks := next.text, indented
        cursor := next.cursor }

/-- Reads a scalar whose indicator stands at the cursor, below a block whose
entries must stand at column `minimum` or further in. -/
def read (literal : Bool) (minimum : Nat) (c : Cursor) : Except Fault (Text × Cursor) := do
  let c := c.advance 1
  let (h, n) ← header c.rest
  let c := (c.advance n).skipWhile isGapChar
  let c := if c.startsWith ['#'] then c.skipLine else c
  if !c.rest.isEmpty && c.break?.isNone then throw .badBlockHeader
  let c := c.afterBreak
  let given := h.indent.map (· + (minimum - 1))
  let first ← breaks given c.size [] 0 c
  let indent := given.getD (max (max first.reach minimum) 1)
  let s ← lines literal indent first.cursor.size { breaks := first.text, cursor := first.cursor }
  let tail := match h.chomping with
    | .strip => []
    | .clip => s.lastBreak
    | .keep => s.lastBreak ++ s.breaks
  return (s.text ++ tail, s.cursor)

end MonthlyJournal.Yaml.Block
