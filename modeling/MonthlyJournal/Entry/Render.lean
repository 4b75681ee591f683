import MonthlyJournal.Entry.Basic

/-!
# Entries on pages

A page shows an entry with a card and perhaps a footer, and as much of its text as
the kind of the page asks for.
-/

set_option autoImplicit false

namespace MonthlyJournal

/-!
## Cards and footers

What a page adds to the text of an entry: the card of its author with the
bibliographic line, and a footer for an entry about a tagged state of the
repository.
-/

def bibliographySeparator : Text := " · ".toList

namespace Entry

def bibliography (e : Entry) : Text :=
  let number := e.number.map (":octicons-book-24: Entry \\#".toList ++ ·)
  let tag := e.tag.map (":octicons-tag-24: ".toList ++ ·)
  Text.joinWith bibliographySeparator <|
    [":octicons-calendar-24: ".toList ++ e.published] ++ number.toList ++
      [":octicons-clock-24: ".toList ++ e.readingTime.markup ++ " read".toList] ++ tag.toList

def card (e : Entry) (author : Config.Author) : Text :=
  "\n\n<aside class=\"mdx-author\" markdown>\n![@".toList ++ author.name ++ "](".toList ++
    author.avatar ++ ")\n\n<span>__".toList ++ author.name ++
    "__ · :octicons-mark-github-16: [".toList ++ author.name ++ "](".toList ++
    author.profileUrl ++ ")</span>\n<span> ".toList ++ e.bibliography ++
    "\n</span>\n</aside>\n\n---\n\n\n".toList

end Entry

def withoutTrailingSlashes (t : Text) : Text := (t.reverse.dropWhile (· == '/')).reverse

def tagFooter (tag : Text) (repository : Option Text) : Text :=
  let begins := "\n---\n\n:octicons-tag-24: This entry refers to ".toList
  match repository with
  | some address =>
    let repo := withoutTrailingSlashes address
    let tree := "](".toList ++ repo ++ "/tree/".toList ++ tag ++ ")".toList
    let archive := repo ++ "/archive/refs/tags/".toList ++ tag
    begins ++ "[\x60".toList ++ tag ++ "\x60".toList ++ tree ++
      " of the source repository.\n\n".toList ++
      "- :octicons-file-code-24: [Browse the source at \x60".toList ++ tag ++ "\x60".toList ++
      tree ++ "\n".toList ++
      "- :octicons-package-24: [Release \x60".toList ++ tag ++ "\x60](".toList ++ repo ++
      "/releases/tag/".toList ++ tag ++ ")\n".toList ++
      "- :octicons-download-24: Download [zip](".toList ++ archive ++ ".zip)".toList ++
      bibliographySeparator ++ "[tar.gz](".toList ++ archive ++ ".tar.gz)\n\n".toList ++
      "Check out this state of the source:\n\n\x60\x60\x60\ngit clone --branch ".toList ++ tag ++
      " --depth 1 ".toList ++ repo ++ ".git\n\x60\x60\x60\n".toList
  | none =>
    begins ++ "tag \x60".toList ++ tag ++ "\x60 of the source repository.\n\n".toList ++
      "Check out this state of the source:\n\n\x60\x60\x60\ngit checkout ".toList ++ tag ++
      "\n\x60\x60\x60\n".toList

/-!
## Rendering entries

A rendered entry is its body, line for line, with the author card below the
title or the lead-in. On the page of its own it ends with the footer of its tag.
Below the heading of another page its own headings go one level down, and as a
teaser it stops early and links to the rest.
-/

inductive RenderMode where
  /-- As a page of its own. -/
  | full
  /-- Whole, below the heading of a page. -/
  | embedded
  /-- Up to the end of the teaser, below the heading of a page. -/
  | teaser
  deriving DecidableEq

/-- A heading with one more marker. Lines indented by four spaces or a tab are
code, and all others that are no heading stay as they are, too. -/
def demoteHeading (line : Text) : Text :=
  if Text.startsWith [' ', ' ', ' ', ' '] line || Text.startsWith ['\t'] line then line
  else
    let stripped := Text.trimStart line
    if Text.startsWith ['#'] stripped then '#' :: stripped else line

def renderLine (mode : RenderMode) (line : Text) : Text :=
  if mode = .full then line else demoteHeading line

structure Draft where
  text : Text := []
  hasCard : Bool := false

namespace Draft

/-- The line above the card is closed, also when it is the last of the document. -/
def addCard (d : Draft) (card : Text) : Draft := ⟨Text.endLine d.text ++ card, true⟩

def addLine (mode : RenderMode) (d : Draft) (l : Numbered) : Draft :=
  { d with text := d.text ++ renderLine mode l.line }

def addLines (mode : RenderMode) (cardLine : Nat) (card : Text) : Draft → List Numbered → Draft
  | d, [] => d
  | d, l :: rest =>
    let d := d.addLine mode l
    addLines mode cardLine card (if l.number = cardLine then d.addCard card else d) rest

end Draft

namespace Entry

def stopBefore (e : Entry) : RenderMode → Nat
  | .teaser => e.offsets.teaserEnd.stopBefore
  | .full | .embedded => e.document.length + 1

def shownLines (e : Entry) (mode : RenderMode) : List Numbered :=
  let stop := e.stopBefore mode
  e.document.numbered.filter fun l => e.offsets.firstBodyLine ≤ l.number && l.number < stop

/-- The body of an entry with its card. When the card belongs below the end of the
document, it comes last, in a render that goes that far. -/
def renderBody (e : Entry) (mode : RenderMode) (config : Config) : Text :=
  let card := e.card config.author
  let draft := Draft.addLines mode e.offsets.cardInsertLine card {} (e.shownLines mode)
  let last := e.document.length
  if !draft.hasCard && last < e.offsets.cardInsertLine && last < e.stopBefore mode then
    (draft.addCard card).text
  else draft.text

def continueReading (e : Entry) : Text :=
  "\n[:octicons-arrow-right-24: Continue reading](".toList ++ e.fileName ++ ")\n\n".toList

def render (e : Entry) (mode : RenderMode) (config : Config) : Text :=
  let body := e.renderBody mode config
  match mode, e.tag with
  | .embedded, _ | .full, none => body
  | .full, some tag => Text.endLine body ++ tagFooter tag config.source.repository
  | .teaser, _ => Text.endLine body ++ e.continueReading

end Entry
end MonthlyJournal
