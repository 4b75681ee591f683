import MonthlyJournal.Text
import MonthlyJournal.Yaml.Value

/-!
# Front matter

The meta section of an entry is a YAML mapping. Four of its keys belong to the
journal; their values are plain ones and are kept as text. Other keys are left
to other programs.
-/

set_option autoImplicit false

namespace MonthlyJournal

structure FrontMatter where
  /-- The date of publication, by which entries are ordered. -/
  published : Text
  entry : Option Text := none
  slug : Option Text := none
  /-- The state of the repository that the entry is about. -/
  tag : Option Text := none
  deriving DecidableEq

namespace FrontMatter

inductive Fault where
  | empty
  | malformed (detail : Text)
  | notAMapping
  | missingPublished
  | invalidValue (key : Text)
  deriving DecidableEq

def Fault.message : Fault → Text
  | empty => "meta section is empty".toList
  | malformed detail => "meta section is not valid YAML: ".toList ++ detail
  | notAMapping => "meta section is not a key/value mapping".toList
  | missingPublished => "required key \x60published\x60 is missing".toList
  | invalidValue key =>
    "key \x60".toList ++ key ++ "\x60 must be a plain value (string, number or boolean)".toList

def malformedBy (f : Yaml.Fault) : Fault := .malformed f.message.toList

def hasContent (t : Text) : Bool :=
  (Text.lines t).any fun line =>
    let line := Text.trim line
    !line.isEmpty && !Text.startsWith ['#'] line

def keyText? : Yaml.Value → Option Text
  | .string t => some t
  | .tagged _ v => keyText? v
  | _ => none

def plainText (key : Text) : Option Yaml.Value → Except Fault (Option Text)
  | none | some .null => .ok none
  | some (.string t) => .ok (some t)
  | some (.bool b) => .ok (some (if b then "true".toList else "false".toList))
  | some (.int n) => .ok (some (if n < 0 then '-' :: Text.ofNat n.natAbs else Text.ofNat n.natAbs))
  | some (.float x) => .ok (some (Yaml.floatNotation.text x))
  | some _ => .error (.invalidValue key)

def knownKeys : List Text := ["published", "entry", "slug", "tag"].map (·.toList)

/-- The pairs under texts as keys. Every key has to be a text, and a known one may
stand only once, with a tag or without. -/
def namedPairs (pairs : List (Yaml.Value × Yaml.Value)) :
    Except Fault (List (Text × Yaml.Value)) := do
  let named ← pairs.mapM fun (k, v) =>
    match keyText? k with
    | some key => .ok (key, v)
    | none => .error (malformedBy .keyNotText)
  if knownKeys.any fun key => 1 < named.countP (·.1 = key) then
    throw (malformedBy .duplicateKey)
  return named

def ofPairs (pairs : List (Yaml.Value × Yaml.Value)) : Except Fault FrontMatter := do
  let named ← namedPairs pairs
  let field (key : String) := plainText key.toList (named.lookup key.toList)
  match ← field "published" with
  | none => throw .missingPublished
  | some published =>
    return { published, entry := ← field "entry", slug := ← field "slug", tag := ← field "tag" }

def decode (t : Text) : Except Fault FrontMatter :=
  if hasContent t then
    match Yaml.load t with
    | .error f => .error (malformedBy f)
    | .ok .null => .error .empty
    | .ok (.mapping pairs) => ofPairs pairs
    | .ok _ => .error .notAMapping
  else .error .empty

end FrontMatter
end MonthlyJournal
