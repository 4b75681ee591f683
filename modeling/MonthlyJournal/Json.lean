import MonthlyJournal.Build

/-!
# JSON

The values that are printed, and their text: each item and each field on a line of
its own, two spaces further in than what holds it. Only quotes, backslashes and
control characters below the space are escaped.
-/

set_option autoImplicit false

namespace MonthlyJournal

inductive Json where
  | text (t : Text)
  | number (n : Nat)
  | array (items : List Json)
  | object (fields : List (Text × Json))

namespace Json

def hexDigit (n : Nat) : Char := "0123456789abcdef".toList.getD n '0'

def escape (c : Char) : Text :=
  if c = '"' then ['\\', '"']
  else if c = '\\' then ['\\', '\\']
  else if c = '\n' then ['\\', 'n']
  else if c = '\r' then ['\\', 'r']
  else if c = '\t' then ['\\', 't']
  else if c = '\x08' then ['\\', 'b']
  else if c = '\x0c' then ['\\', 'f']
  else if c.toNat < 0x20 then "\\u00".toList ++ [hexDigit (c.toNat / 16), hexDigit (c.toNat % 16)]
  else [c]

def quote (t : Text) : Text := '"' :: t.flatMap escape ++ ['"']

def newline (depth : Nat) : Text := '\n' :: List.replicate (2 * depth) ' '

mutual

def pretty (depth : Nat) : Json → Text
  | .text t => quote t
  | .number n => Text.ofNat n
  | .array [] => "[]".toList
  | .array (v :: rest) =>
    '[' :: newline (depth + 1) ++ pretty (depth + 1) v ++ prettyItems (depth + 1) rest ++
      newline depth ++ [']']
  | .object [] => "\x7b\x7d".toList
  | .object ((key, v) :: rest) =>
    '\x7b' :: newline (depth + 1) ++ quote key ++ ": ".toList ++ pretty (depth + 1) v ++
      prettyFields (depth + 1) rest ++ newline depth ++ ['\x7d']

def prettyItems (depth : Nat) : List Json → Text
  | [] => []
  | v :: rest => ',' :: newline depth ++ pretty depth v ++ prettyItems depth rest

def prettyFields (depth : Nat) : List (Text × Json) → Text
  | [] => []
  | (key, v) :: rest =>
    ',' :: newline depth ++ quote key ++ ": ".toList ++ pretty depth v ++ prettyFields depth rest

end

def field (name : String) (t : Text) : Text × Json := (name.toList, .text t)

def optionalField (name : String) (t : Option Text) : List (Text × Json) :=
  (t.map (field name)).toList

def numberField (name : String) (n : Nat) : Text × Json := (name.toList, .number n)

end Json

/-!
## Manifests as JSON

Everything that a scan finds out about the entries, except the text of their
documents, and the configuration with its defaults filled in.
-/

open Json

def ReadingTime.toJson : ReadingTime → Json
  | .lessThanAMinute => .text "less_than_a_minute".toList
  | .minutes n => .object [numberField "minutes" n]

def TeaserEnd.toJson : TeaserEnd → Json
  | .blank n => .object [numberField "blank" n]
  | .endOfDocument n => .object [numberField "end_of_document" n]

def Offsets.toJson (o : Offsets) : Json :=
  .object [
    numberField "first_body_line" o.firstBodyLine,
    numberField "heading_line" o.headingLine,
    numberField "card_insert_line" o.cardInsertLine,
    ("teaser_end".toList, o.teaserEnd.toJson)]

def Entry.toJson (e : Entry) : Json :=
  .object <|
    [field "source" e.source, field "published" e.published, field "group" e.group,
     field "slug" e.slug, field "title" e.title] ++
    optionalField "number" e.number ++ optionalField "tag" e.tag ++
    [("reading_time".toList, e.readingTime.toJson), ("offsets".toList, e.offsets.toJson),
     field "file_name" e.fileName, field "path" e.path]

def Config.toJson (c : Config) : Json :=
  .object [
    ("author".toList, .object [field "name" c.author.name, field "avatar" c.author.avatar,
      field "profile_url" c.author.profileUrl]),
    ("reading".toList, .object [numberField "words_per_minute" c.reading.wordsPerMinute]),
    ("source".toList, .object <| [field "draft_dir" c.source.draftDir,
      field "extension" c.source.extension] ++ optionalField "repository" c.source.repository),
    ("output".toList, .object [field "extension" c.output.extension,
      field "nav_file" c.output.navFile, field "journal_dir" c.output.journalDir,
      field "months_dir" c.output.monthsDir])]

def Manifest.toJson (m : Manifest) : Json :=
  .object [("entries".toList, .array (m.entries.map Entry.toJson)),
    ("config".toList, m.config.toJson)]

end MonthlyJournal
