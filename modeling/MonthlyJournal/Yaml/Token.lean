import MonthlyJournal.Yaml.Scalar
import MonthlyJournal.Yaml.Tag

/-!
# Tokens

A stream as a row of tokens, in which indentation has become explicit: blocks
have a start and an end. A mapping key is only known to be one when its colon
comes, so each place where a key may have begun is remembered, and the tokens
that open the key are put there afterwards.
-/

set_option autoImplicit false

namespace MonthlyJournal.Yaml

inductive Token where
  | directive (d : Directive)
  | documentStart
  | documentEnd
  | blockSequenceStart
  | blockMappingStart
  | blockEnd
  | flowSequenceStart
  | flowSequenceEnd
  | flowMappingStart
  | flowMappingEnd
  | blockEntry
  | flowEntry
  | key
  | value
  | reference (name : Text)
  | anchor (name : Text)
  | tag (written : Tag.Written)
  | scalar (plain : Bool) (text : Text)
  | streamEnd
  deriving DecidableEq

/-- A place where a key of one line may have begun. -/
structure SimpleKey where
  /-- In a block, a token in the column of the keys has to be a key. -/
  required : Bool
  position : Nat
  line : Nat
  column : Nat
  offset : Nat

/-- How many bytes there may be from the beginning of a key of one line to its colon. -/
def keyReach : Nat := 1024

structure Scan where
  cursor : Cursor
  /-- The tokens so far, the last one first. -/
  tokens : List Token := []
  /-- The columns of the open blocks, the innermost first. -/
  indents : List Nat := []
  /-- The possible key of each flow level, the innermost first; the last belongs to the blocks. -/
  keys : List (Option SimpleKey) := [none]
  /-- May a key of one line begin here? -/
  keyAllowed : Bool := true

namespace Scan

def inFlow (s : Scan) : Bool := 1 < s.keys.length

def minimum (s : Scan) : Nat :=
  match s.indents with
  | [] => 0
  | n :: _ => n + 1

def emit (s : Scan) (t : Token) : Scan := { s with tokens := t :: s.tokens }

def insert (s : Scan) (position : Nat) (t : Token) : Scan :=
  let later := s.tokens.length - position
  { s with tokens := s.tokens.take later ++ t :: s.tokens.drop later }

def dropKey (s : Scan) : Except Fault Scan :=
  match s.keys with
  | some k :: rest =>
    if k.required then .error .missingColon else .ok { s with keys := none :: rest }
  | _ => .ok s

def saveKey (s : Scan) : Except Fault Scan := do
  if !s.keyAllowed then return s
  let s ← s.dropKey
  let c := s.cursor
  let key : SimpleKey := {
    required := !s.inFlow && s.indents.head? == some c.column
    position := s.tokens.length, line := c.line, column := c.column, offset := c.offset }
  return { s with keys := some key :: s.keys.drop 1 }

def isStale (s : Scan) (k : SimpleKey) : Bool :=
  k.line < s.cursor.line || k.offset + keyReach < s.cursor.offset

def dropStaleKeys (s : Scan) : Except Fault Scan := do
  let keys ← s.keys.mapM fun key? =>
    match key? with
    | some k =>
      if s.isStale k then (if k.required then throw .missingColon else pure none)
      else pure (some k)
    | none => pure none
  return { s with keys }

def closeBlocks (column : Nat) : List Nat → List Token → List Nat × List Token
  | [], tokens => ([], tokens)
  | n :: rest, tokens =>
    if column < n then closeBlocks column rest (.blockEnd :: tokens) else (n :: rest, tokens)

def unindent (s : Scan) (column : Nat) : Scan :=
  if s.inFlow then s
  else
    let (indents, tokens) := closeBlocks column s.indents s.tokens
    { s with indents, tokens }

def unindentAll (s : Scan) : Scan :=
  if s.inFlow then s
  else { s with indents := [], tokens := s.indents.map (fun _ => .blockEnd) ++ s.tokens }

/-- Opens a block in a column that is deeper than the innermost one; its token goes
behind the first `position` ones. -/
def indent (s : Scan) (column position : Nat) (start : Token) : Scan :=
  if s.inFlow || s.indents.head?.any (column ≤ ·) then s
  else { s.insert position start with indents := column :: s.indents }

/-- Steps over blanks, comments and line ends. A tab is a blank only where no key
may begin. -/
def skipGap : Nat → Scan → Scan
  | 0, s => s
  | fuel + 1, s =>
    let c := s.cursor
    let c := if c.column == 0 && c.startsWith ['\ufeff'] then c.advance 1 else c
    let tabs := s.inFlow || !s.keyAllowed
    let c := c.skipWhile fun b => b == ' ' || tabs && b == '\t'
    let c := if c.startsWith ['#'] then c.skipLine else c
    match c.break? with
    | some (_, c) => skipGap fuel { s with cursor := c, keyAllowed := s.keyAllowed || !s.inFlow }
    | none => { s with cursor := c }

def finish (s : Scan) : Except Fault Scan := do
  let s ← s.unindentAll.dropKey
  return { s.emit .streamEnd with keyAllowed := false }

def outside (s : Scan) (t : Token) (c : Cursor) : Except Fault Scan := do
  let s ← s.unindentAll.dropKey
  return { s.emit t with cursor := c, keyAllowed := false }

def openFlow (s : Scan) (t : Token) : Except Fault Scan := do
  let s ← s.saveKey
  return { s.emit t with
    cursor := s.cursor.advance 1, keys := none :: s.keys, keyAllowed := true }

def closeFlow (s : Scan) (t : Token) : Except Fault Scan := do
  let s ← s.dropKey
  return { s.emit t with
    cursor := s.cursor.advance 1
    keys := if s.inFlow then s.keys.drop 1 else s.keys
    keyAllowed := false }

def flowEntry (s : Scan) : Except Fault Scan := do
  let s ← s.dropKey
  return { s.emit .flowEntry with cursor := s.cursor.advance 1, keyAllowed := true }

def beginBlock (s : Scan) (start : Token) : Except Fault Scan :=
  if s.inFlow then .ok s
  else if s.keyAllowed then .ok (s.indent s.cursor.column s.tokens.length start)
  else .error .misplacedIndicator

def blockEntry (s : Scan) : Except Fault Scan := do
  let s ← s.beginBlock .blockSequenceStart
  let s ← s.dropKey
  return { s.emit .blockEntry with cursor := s.cursor.advance 1, keyAllowed := true }

def explicitKey (s : Scan) : Except Fault Scan := do
  let s ← s.beginBlock .blockMappingStart
  let s ← s.dropKey
  return { s.emit .key with cursor := s.cursor.advance 1, keyAllowed := !s.inFlow }

/-- A colon makes a key of what began at the remembered place, or else follows an
explicit key or none at all. -/
def mappingValue (s : Scan) : Except Fault Scan :=
  match s.keys with
  | some k :: rest =>
    let s := s.insert k.position .key
    let s := s.indent k.column k.position .blockMappingStart
    .ok { s.emit .value with
      cursor := s.cursor.advance 1, keys := none :: rest, keyAllowed := false }
  | _ => do
    let s ← s.beginBlock .blockMappingStart
    return { s.emit .value with cursor := s.cursor.advance 1, keyAllowed := !s.inFlow }

def name (c : Cursor) : Except Fault (Text × Cursor) :=
  let name := c.rest.takeWhile isNameChar
  let c := c.advance name.length
  if name.isEmpty || !(atWordEnd c.rest || c.rest.head?.any ("?:,]\x7d%@\x60".toList.contains ·))
  then .error .badAnchor
  else .ok (name, c)

def anchorName (s : Scan) (token : Text → Token) : Except Fault Scan := do
  let s ← s.saveKey
  let (name, c) ← name (s.cursor.advance 1)
  return { s.emit (token name) with cursor := c, keyAllowed := false }

def tag (s : Scan) : Except Fault Scan := do
  let s ← s.saveKey
  let (written, c) ← Tag.read s.inFlow s.cursor
  return { s.emit (.tag written) with cursor := c, keyAllowed := false }

def blockScalar (s : Scan) (literal : Bool) : Except Fault Scan := do
  let s ← s.dropKey
  let (text, c) ← Block.read literal s.minimum s.cursor
  return { s.emit (.scalar false text) with cursor := c, keyAllowed := true }

def quotedScalar (s : Scan) (quote : Char) : Except Fault Scan := do
  let s ← s.saveKey
  let (text, c) ← Quoted.read quote s.cursor
  return { s.emit (.scalar false text) with cursor := c, keyAllowed := false }

def plainScalar (s : Scan) : Except Fault Scan := do
  let s ← s.saveKey
  let r ← Plain.read s.inFlow s.minimum s.cursor
  return { s.emit (.scalar true r.text) with cursor := r.cursor, keyAllowed := r.broken }

def isIndicator (c : Char) : Bool := "-?:,[]\x7b\x7d#&*!|>'\"%@\x60".toList.contains c

def beginsPlain (flow : Bool) (c : Char) (t : Text) : Bool :=
  !(isGapChar c || isBreak c || isIndicator c) ||
    c == '-' && !t.head?.any isGapChar ||
    !flow && (c == '?' || c == ':') && !atWordEnd t

def token (s : Scan) (c : Char) (t : Text) : Except Fault Scan :=
  let startsLine := s.cursor.column == 0
  let alone := s.inFlow || atWordEnd t
  if startsLine && c == '%' then do
    let (d, after) ← Directive.read s.cursor
    s.outside (.directive d) after
  else if s.cursor.atDocumentMark then
    s.outside (if c == '-' then .documentStart else .documentEnd) (s.cursor.advance 3)
  else if c == '[' then s.openFlow .flowSequenceStart
  else if c == '\x7b' then s.openFlow .flowMappingStart
  else if c == ']' then s.closeFlow .flowSequenceEnd
  else if c == '\x7d' then s.closeFlow .flowMappingEnd
  else if c == ',' then s.flowEntry
  else if c == '-' && atWordEnd t then s.blockEntry
  else if c == '?' && alone then s.explicitKey
  else if c == ':' && alone then s.mappingValue
  else if c == '*' then s.anchorName .reference
  else if c == '&' then s.anchorName .anchor
  else if c == '!' then s.tag
  else if c == '|' && !s.inFlow then s.blockScalar true
  else if c == '>' && !s.inFlow then s.blockScalar false
  else if c == '\'' || c == '"' then s.quotedScalar c
  else if beginsPlain s.inFlow c t then s.plainScalar
  else .error .noToken

/-- Reads tokens up to the end of the stream; each takes at least one character. -/
def run : Nat → Scan → Except Fault Scan
  | 0, s => s.finish
  | fuel + 1, s => do
    let s := s.skipGap s.cursor.size
    let s ← s.dropStaleKeys
    let s := s.unindent s.cursor.column
    match s.cursor.rest with
    | [] => s.finish
    | c :: t => run fuel (← s.token c t)

end Scan

def tokensOf (t : Text) : Except Fault (List Token) :=
  if t.all isStreamChar then do
    let s ← Scan.run (t.length + 1) { cursor := .ofText t }
    return s.tokens.reverse
  else .error .controlCharacter

end MonthlyJournal.Yaml
