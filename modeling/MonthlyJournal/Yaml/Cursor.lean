import MonthlyJournal.Text

/-!
# A YAML stream, character by character

What reading a stream has in common wherever it is: the faults, the place that has been
reached, and what stands between words.
-/

set_option autoImplicit false

namespace MonthlyJournal.Yaml

/-!
## Faults of a YAML stream

Everything that can keep a stream from being read as one value.
-/

inductive Fault where
  | controlCharacter
  | noToken
  | unclosedQuote
  | documentMarkInQuote
  | badEscape
  | tabIndentation
  | ambiguousColon
  | badBlockHeader
  | badAnchor
  | badTag
  | badDirective
  | misplacedIndicator
  | missingColon
  | noNode
  | noEntry
  | noKey
  | unclosedFlow
  | noDocumentStart
  | repeatedDirective
  | unsupportedVersion
  | undefinedTagHandle
  | undefinedAlias
  | tooDeep
  | tooManyAliases
  | badTaggedScalar
  | numberOutOfRange
  | duplicateKey
  | severalDocuments
  | keyNotText
  deriving DecidableEq

def Fault.message : Fault → String
  | controlCharacter => "control characters are not allowed"
  | noToken => "found character that cannot start any token"
  | unclosedQuote => "found unexpected end of stream in a quoted scalar"
  | documentMarkInQuote => "found unexpected document indicator in a quoted scalar"
  | badEscape => "found unknown or incomplete escape sequence"
  | tabIndentation => "found a tab character where indentation is expected"
  | ambiguousColon => "found unexpected ':' in a flow scalar"
  | badBlockHeader => "found an invalid block scalar header"
  | badAnchor => "found an invalid anchor or alias name"
  | badTag => "found an invalid tag"
  | badDirective => "found an invalid directive"
  | misplacedIndicator => "block indicators are not allowed in this context"
  | missingColon => "could not find expected ':'"
  | noNode => "did not find expected node content"
  | noEntry => "did not find expected '-' indicator"
  | noKey => "did not find expected key"
  | unclosedFlow => "did not find expected ',' or closing bracket"
  | noDocumentStart => "did not find expected document start"
  | repeatedDirective => "found duplicate directive"
  | unsupportedVersion => "found incompatible YAML document"
  | undefinedTagHandle => "found undefined tag handle"
  | undefinedAlias => "unknown anchor"
  | tooDeep => "recursion limit exceeded"
  | tooManyAliases => "repetition limit exceeded"
  | badTaggedScalar => "scalar does not fit its tag"
  | numberOutOfRange => "integer is out of range"
  | duplicateKey => "duplicate entry in mapping"
  | severalDocuments => "found more than one document"
  | keyNotText => "key is not a string"

/-!
## A place in a YAML stream

The characters still to be read, with the line, the column and the offset they
begin at. Columns count characters, and offsets count bytes of UTF-8.
The classes of characters that decide where tokens end stand here as well.
-/

def isStreamChar (c : Char) : Bool :=
  let n := c.toNat
  n == 0x09 || n == 0x0A || n == 0x0D || (0x20 ≤ n && n ≤ 0x7E) || n == 0x85 ||
    (0xA0 ≤ n && n ≤ 0xFFFD) || 0x10000 ≤ n

def isGapChar (c : Char) : Bool := c == ' ' || c == '\t'

/-- The line and paragraph separators, which stay what they are when lines are joined. -/
def isSeparator (c : Char) : Bool := c == '\u2028' || c == '\u2029'

def isBreak (c : Char) : Bool := c == '\n' || c == '\r' || c == '\u0085' || isSeparator c

def isFlowIndicator (c : Char) : Bool := ",[]\x7b\x7d".toList.contains c

def isNameChar (c : Char) : Bool := c.isAlphanum || c == '-' || c == '_'

def atWordEnd : Text → Bool
  | [] => true
  | c :: _ => isGapChar c || isBreak c

structure Cursor where
  rest : Text
  line : Nat := 0
  column : Nat := 0
  offset : Nat := 0

namespace Cursor

def ofText (t : Text) : Cursor := { rest := t }

def advance (c : Cursor) (n : Nat) : Cursor :=
  { c with
    rest := c.rest.drop n, column := c.column + n
    offset := c.offset + Text.byteLength (c.rest.take n) }

def skipWhile (p : Char → Bool) (c : Cursor) : Cursor := c.advance (c.rest.takeWhile p).length

def skipLine (c : Cursor) : Cursor := c.skipWhile (!isBreak ·)

def break? (c : Cursor) : Option (Text × Cursor) :=
  match c.rest with
  | '\r' :: '\n' :: rest => some (['\n'], ⟨rest, c.line + 1, 0, c.offset + 2⟩)
  | b :: rest =>
    if isBreak b then
      some ([if isSeparator b then b else '\n'], ⟨rest, c.line + 1, 0, c.offset + b.utf8Size⟩)
    else none
  | [] => none

def afterBreak (c : Cursor) : Cursor := (c.break?.map Prod.snd).getD c

def startsWith (c : Cursor) (t : Text) : Bool := Text.startsWith t c.rest

def atDocumentMark (c : Cursor) : Bool :=
  c.column == 0 && (c.startsWith ['-', '-', '-'] || c.startsWith ['.', '.', '.']) &&
    atWordEnd (c.rest.drop 3)

/-- The length of the rest, which bounds every reading from here. -/
def size (c : Cursor) : Nat := c.rest.length + 1

end Cursor

/-!
## Gaps

What stands between two words of a scalar: blanks alone, which are kept, or line
ends with blanks around them, which are folded. One line end folds to a space,
and of more than one the first is dropped.
-/

structure Gap where
  blanks : Text := []
  broken : Bool := false
  firstBreak : Text := []
  moreBreaks : Text := []

namespace Gap

def text (g : Gap) : Text :=
  if g.broken then
    if g.firstBreak = ['\n'] then (if g.moreBreaks.isEmpty then [' '] else g.moreBreaks)
    else g.firstBreak ++ g.moreBreaks
  else g.blanks

def addBreak (g : Gap) (b : Text) : Gap :=
  if g.broken then { g with moreBreaks := g.moreBreaks ++ b }
  else { broken := true, firstBreak := b }

def addBlank (g : Gap) (b : Char) : Gap :=
  if g.broken then g else { g with blanks := g.blanks ++ [b] }

/-- Reads a gap. On a new line a tab may not stand before column `indent`. -/
def read (indent : Nat) : Nat → Gap → Cursor → Except Fault (Gap × Cursor)
  | 0, g, c => .ok (g, c)
  | fuel + 1, g, c =>
    match c.break? with
    | some (b, c) => read indent fuel (g.addBreak b) c
    | none =>
      match c.rest with
      | [] => .ok (g, c)
      | b :: _ =>
        if isGapChar b then
          if g.broken && c.column < indent && b == '\t' then .error .tabIndentation
          else read indent fuel (g.addBlank b) (c.advance 1)
        else .ok (g, c)

end Gap
end MonthlyJournal.Yaml
