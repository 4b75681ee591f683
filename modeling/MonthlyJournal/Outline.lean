import MonthlyJournal.Text

/-!
# Documents and their outlines

A document is its text cut into lines, numbered from one. All positions in the
library are such line numbers. What a document has in which place is its outline.
-/

set_option autoImplicit false

namespace MonthlyJournal

/-!
## Documents

A document is its text cut into lines, numbered from one. All positions in the
library are such line numbers.
-/

structure Document where
  lines : List Text
  deriving DecidableEq

structure Numbered where
  number : Nat
  line : Text
  deriving DecidableEq

namespace Document

def ofText (t : Text) : Document := ⟨Text.lines t⟩

def length (d : Document) : Nat := d.lines.length

def isEmpty (d : Document) : Bool := d.lines.isEmpty

def line? (d : Document) : Nat → Option Text
  | 0 => none
  | n + 1 => d.lines[n]?

def numberedFrom (n : Nat) : List Text → List Numbered
  | [] => []
  | line :: rest => ⟨n, line⟩ :: numberedFrom (n + 1) rest

def numbered (d : Document) : List Numbered := numberedFrom 1 d.lines

theorem flatten_ofText (t : Text) : (ofText t).lines.flatten = t := Text.flatten_lines t

theorem numberedFrom_append (n : Nat) (xs ys : List Text) :
    numberedFrom n (xs ++ ys) = numberedFrom n xs ++ numberedFrom (n + xs.length) ys := by
  induction xs generalizing n with
  | nil => simp [numberedFrom]
  | cons x xs ih => simp [numberedFrom, ih, Nat.add_assoc, Nat.add_comm 1]

theorem length_numberedFrom (n : Nat) (xs : List Text) :
    (numberedFrom n xs).length = xs.length := by
  induction xs generalizing n with
  | nil => rfl
  | cons x xs ih => simp [numberedFrom, ih]

theorem map_line_numberedFrom (n : Nat) (xs : List Text) :
    (numberedFrom n xs).map (·.line) = xs := by
  induction xs generalizing n with
  | nil => rfl
  | cons x xs ih => simp [numberedFrom, ih]

theorem map_number_numberedFrom (n : Nat) (xs : List Text) :
    (numberedFrom n xs).map (·.number) = List.range' n xs.length := by
  induction xs generalizing n with
  | nil => rfl
  | cons x xs ih => rw [numberedFrom, List.map_cons, ih, List.length_cons, List.range'_succ]

theorem getElem?_numberedFrom (n i : Nat) (xs : List Text) :
    (numberedFrom n xs)[i]? = xs[i]?.map (⟨n + i, ·⟩) := by
  induction xs generalizing n i with
  | nil => rfl
  | cons x xs ih =>
    cases i with
    | zero => simp [numberedFrom]
    | succ i => simp [numberedFrom, ih, Nat.add_assoc, Nat.add_comm 1]

theorem line?_eq_none_iff {d : Document} {n : Nat} :
    d.line? n = none ↔ n = 0 ∨ d.length < n := by
  cases n with
  | zero => simp [line?]
  | succ i =>
    rw [line?, List.getElem?_eq_none_iff, length]
    omega

end Document

/-!
## The outline of a document

A document opens with a meta section between two fences, goes on to its title,
the first heading, and may follow the title with a lead-in between double
underscores. The outline records where these parts end: the line the author
card follows, and the blank line that ends the teaser.

Only the trimmed line is ever looked at, so blanks around a line, a carriage
return among them, never change what is read.
-/

inductive TeaserEnd where
  /-- The first blank line after the first paragraph; the teaser stops before it. -/
  | blank (line : Nat)
  /-- There is no such line, and the teaser is the whole document. -/
  | endOfDocument (lastLine : Nat)
  deriving DecidableEq

namespace TeaserEnd

def line : TeaserEnd → Nat
  | blank n => n
  | endOfDocument n => n

def stopBefore : TeaserEnd → Nat
  | blank n => n
  | endOfDocument n => n + 1

end TeaserEnd

structure Offsets where
  /-- The line after the fence that closes the meta section. -/
  firstBodyLine : Nat
  headingLine : Nat
  /-- The first line below the title, or below the lead-in when there is one. -/
  cardInsertLine : Nat
  teaserEnd : TeaserEnd
  deriving DecidableEq

structure Outline where
  /-- The lines between the fences, joined without change. -/
  metadata : Text
  title : Text
  offsets : Offsets
  /-- The words after the meta section, the title included. -/
  words : Nat
  deriving DecidableEq

inductive OutlineFault where
  | missingMetadata
  | unclosedMetadata
  | headingLevel (line : Nat)
  | noHeading
  deriving DecidableEq

def isFence (line : Text) : Bool :=
  match Text.trim line with
  | [] => false
  | c :: rest => (c == '-' || c == '.') && decide (2 ≤ rest.length) && rest.all (· == c)

namespace Numbered

def trimmed (l : Numbered) : Text := Text.trim l.line

def isBlank (l : Numbered) : Bool := l.trimmed.isEmpty

def isFence (l : Numbered) : Bool := MonthlyJournal.isFence l.line

def isHeading (l : Numbered) : Bool := Text.startsWith ['#'] l.trimmed

def isSubheading (l : Numbered) : Bool := Text.startsWith ['#', '#'] l.trimmed

def opensLeadIn (l : Numbered) : Bool := Text.startsWith ['_', '_'] l.trimmed

def closesLeadIn (l : Numbered) : Bool := Text.endsWith ['_', '_'] l.trimmed

def words (l : Numbered) : Nat := Text.wordCount l.trimmed

def titleText (l : Numbered) : Text := Text.trim (l.trimmed.drop 1)

end Numbered

def wordsOf : List Numbered → Nat
  | [] => 0
  | l :: rest => l.words + wordsOf rest

inductive LeadIn where
  | awaited
  | opened
  | closed
  deriving DecidableEq

/-- What is known below the title: the place of the card and the end of the teaser. -/
structure Placement where
  leadIn : LeadIn := .awaited
  cardInsertLine : Nat
  inParagraph : Bool := false
  teaserEnd : Option Nat := none
  deriving DecidableEq

namespace Placement

def openLeadIn (p : Placement) (l : Numbered) : Placement :=
  if p.leadIn = .awaited ∧ l.opensLeadIn then { p with leadIn := .opened } else p

/-- The line that closes the lead-in moves the card below it and starts the
search for the first paragraph again. -/
def closeLeadIn (l : Numbered) : Placement :=
  { leadIn := .closed, cardInsertLine := l.number + 1 }

def seekTeaser (p : Placement) (l : Numbered) : Placement :=
  if p.teaserEnd.isSome then p
  else
    { p with
      teaserEnd := if p.inParagraph && l.isBlank then some l.number else none
      inParagraph := p.inParagraph || !l.isBlank && !l.isHeading }

def step (p : Placement) (l : Numbered) : Placement :=
  let p := p.openLeadIn l
  if p.leadIn = .opened ∧ l.closesLeadIn then closeLeadIn l else p.seekTeaser l

def below (heading : Nat) (ls : List Numbered) : Placement :=
  ls.foldl step { cardInsertLine := heading + 1 }

end Placement

namespace Outline

def ofDocument (d : Document) : Except OutlineFault Outline :=
  match d.numbered.dropWhile Numbered.isBlank with
  | [] => .error .missingMetadata
  | opening :: afterOpening =>
    if opening.isFence then
      match afterOpening.dropWhile (!·.isFence) with
      | [] => .error .unclosedMetadata
      | closing :: body =>
        match body.dropWhile (!·.isHeading) with
        | [] => .error .noHeading
        | title :: rest =>
          if title.isSubheading then .error (.headingLevel title.number)
          else
            let placement := Placement.below title.number rest
            .ok {
              metadata := (afterOpening.takeWhile (!·.isFence)).flatMap (·.line)
              title := title.titleText
              offsets := {
                firstBodyLine := closing.number + 1
                headingLine := title.number
                cardInsertLine := placement.cardInsertLine
                teaserEnd := match placement.teaserEnd with
                  | some n => .blank n
                  | none => .endOfDocument d.length }
              words := wordsOf body }
    else .error .missingMetadata

end Outline
end MonthlyJournal
