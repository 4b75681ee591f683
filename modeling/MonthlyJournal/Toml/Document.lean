import MonthlyJournal.Toml.Strings
import MonthlyJournal.Toml.Value

/-!
# TOML documents

While a document is read each table remembers how it came to be: by a header of
its own, by a header of a table inside it, or by a key with dots. A table may
have one header only, and keys with dots may extend none but tables that other
such keys have made. Keys keep the order in which they came.

The order matters once: a table whose first key is `$__toml_private_datetime` is
no table but the date or time that stands under this key as a text.
-/

set_option autoImplicit false

namespace MonthlyJournal.Toml

inductive Origin where
  /-- By a header of its own. -/
  | header
  /-- By the header of a table inside it. -/
  | inner
  /-- By a key with dots. -/
  | dotted
  deriving DecidableEq

inductive Item where
  | value (v : Value)
  | array (elements : List Item)
  | inlineTable (items : List (Text × Item))
  | table (origin : Origin) (items : List (Text × Item))
  /-- The tables of an array of tables, the last one first. -/
  | tables (elements : List (List (Text × Item)))

abbrev Items := List (Text × Item)

namespace Items

def get? (key : Text) : Items → Option Item
  | [] => none
  | (k, i) :: rest => if k = key then some i else get? key rest

def put (key : Text) (item : Item) : Items → Items
  | [] => [(key, item)]
  | (k, i) :: rest => if k = key then (key, item) :: rest else (k, i) :: put key item rest

def erase (key : Text) : Items → Items
  | [] => []
  | (k, i) :: rest => if k = key then rest else (k, i) :: erase key rest

/-- Puts an item under a key that must be new, inside the tables of a dotted path.
Only a table that a dotted key has made may hold it. -/
def putDotted (key : Text) (item : Item) : (path : List Text) → Items → Option Items
  | [], items => match get? key items with
    | some _ => none
    | none => some (put key item items)
  | p :: path, items =>
    match get? p items with
    | none => do
      let inside ← putDotted key item path []
      return put p (.table .dotted inside) items
    | some (.table origin inside) =>
      if origin = .header ∨ path = [] ∧ origin ≠ .dotted then none
      else do
        let inside ← putDotted key item path inside
        return put p (.table origin inside) items
    | some (.tables (last :: earlier)) =>
      if path = [] then none
      else do
        let last ← putDotted key item path last
        return put p (.tables (last :: earlier)) items
    | some _ => none

/-- Changes the table that a header path leads to. Tables on the way are made when
they are missing, and an array of tables stands for its last one. -/
def update (change : Items → Option Items) : (path : List Text) → Items → Option Items
  | [], items => change items
  | p :: path, items =>
    match get? p items with
    | none => do
      let inside ← update change path []
      return put p (.table .inner inside) items
    | some (.table origin inside) => do
      let inside ← update change path inside
      return put p (.table origin inside) items
    | some (.tables (last :: earlier)) => do
      let last ← update change path last
      return put p (.tables (last :: earlier)) items
    | some _ => none

/-- A table gets a header of its own, which it must not have yet. It comes last, even
if a table inside it has been there before. -/
def openTable (key : Text) (items : Items) : Option Items :=
  match get? key items with
  | none => some (put key (.table .header []) items)
  | some (.table .inner inside) => some (put key (.table .header inside) (erase key items))
  | some _ => none

def openElement (key : Text) (items : Items) : Option Items :=
  match get? key items with
  | none => some (put key (.tables [[]]) items)
  | some (.tables elements) => some (put key (.tables ([] :: elements)) items)
  | some _ => none

/-- The key that makes a date or a time of the table that begins with it. -/
def momentKey : Text := "$__toml_private_datetime".toList

mutual

def toValue? : Item → Option Value
  | .value v => some v
  | .array elements => .array <$> toValues? elements
  | .inlineTable items => ofItems? items
  | .table _ items => ofItems? items
  | .tables elements => .array <$> ofTables? elements []

/-- The value of a table with these items. After a date or a time there may be anything. -/
def ofItems? : List (Text × Item) → Option Value
  | [] => some (.table [])
  | (k, i) :: rest =>
    if k = momentKey then
      match i with
      | .value (.string t) => .datetime <$> Moments.ofText? t
      | _ => none
    else do
      let v ← toValue? i
      let entries ← toTable? rest
      return .table (Dictionary.insert k v entries)

def toTable? : List (Text × Item) → Option Table
  | [] => some []
  | (k, i) :: rest => do
    let v ← toValue? i
    let entries ← toTable? rest
    return Dictionary.insert k v entries

def toValues? : List Item → Option (List Value)
  | [] => some []
  | i :: rest => do
    let v ← toValue? i
    let values ← toValues? rest
    return v :: values

/-- Tables as values, in front of `later`; the last one comes first. -/
def ofTables? : List (List (Text × Item)) → List Value → Option (List Value)
  | [], later => some later
  | items :: earlier, later => do
    let v ← ofItems? items
    ofTables? earlier (v :: later)

end

end Items

def isBareKeyChar (c : Char) : Bool := c.isAlphanum || c == '_' || c == '-'

/-- Neither keys with this many parts nor values nested this deep are read. -/
def maxDepth : Nat := 80

abbrev Reader := StateT Text Option

namespace Reader

def peek : Reader (Option Char) := return (← get).head?

def lift {α : Type} (read : Text → Option (α × Text)) : Reader α := fun t => read t

def expect (t : Text) : Reader Unit := do set (← Text.after? t (← get))

def accept (t : Text) : Reader Bool := do
  match Text.after? t (← get) with
  | some rest =>
    set rest
    return true
  | none => return false

def spaces : Reader Unit := modify (·.dropWhile isSpace)

def afterGap? (inComment : Bool) : Text → Option Text
  | [] => if inComment then none else some []
  | c :: t =>
    if c == '\n' then afterGap? false t
    else if c == '\r' then (if t.head? == some '\n' then afterGap? inComment t else none)
    else if inComment then (if isTextChar c then afterGap? true t else none)
    else if c == '#' then afterGap? true t
    else if isSpace c then afterGap? false t
    else some (c :: t)

def gap : Reader Unit := do set (← afterGap? false (← get))

def lineEnd : Reader Unit := do
  spaces
  if ← accept ['#'] then modify (·.dropWhile isTextChar)
  let t ← get
  if !t.isEmpty then set (← afterNewline? t)

def simpleKey : Reader Text := do
  match ← peek with
  | some '"' | some '\'' => lift Strings.readLine?
  | _ =>
    let t ← get
    let key := t.takeWhile isBareKeyChar
    if key.isEmpty then failure
    set (t.dropWhile isBareKeyChar)
    return key

def keyParts : Nat → Reader (List Text)
  | 0 => failure
  | fuel + 1 => do
    spaces
    let part ← simpleKey
    spaces
    if ← accept ['.'] then return part :: (← keyParts fuel)
    return [part]

def key : Reader (List Text × Text) := do
  let parts ← keyParts maxDepth
  if maxDepth ≤ parts.length then failure
  match parts.getLast? with
  | some last => return (parts.dropLast, last)
  | none => failure

def number : Reader Value :=
  (Value.datetime <$> lift Moments.read?) <|> (Value.float <$> lift Numbers.float?) <|>
    (Value.integer <$> lift Numbers.integer?)

mutual

/-- A value; `depth` arrays and inline tables are open around it. -/
def value (depth : Nat) : Nat → Reader Item
  | 0 => failure
  | fuel + 1 => do
    match ← peek with
    | none => failure
    | some c =>
      if c == '"' || c == '\'' then (.value <| .string ·) <$> lift Strings.read?
      else if c == '[' then
        if maxDepth ≤ depth + 1 then failure
        expect ['[']
        return .array (← arrayItems (depth + 1) fuel)
      else if c == '\x7b' then
        if maxDepth ≤ depth + 1 then failure
        expect ['\x7b']
        spaces
        let items ← if ← accept ['\x7d'] then pure [] else inlineItems (depth + 1) fuel []
        return .inlineTable items
      else if c == '+' || c == '-' || c.isDigit then Item.value <$> number
      else if c == 't' then do
        expect "true".toList
        return .value (.boolean true)
      else if c == 'f' then do
        expect "false".toList
        return .value (.boolean false)
      else (.value <| .float ·) <$> lift Numbers.special?

def arrayItems (depth : Nat) : Nat → Reader (List Item)
  | 0 => failure
  | fuel + 1 => do
    gap
    if ← accept [']'] then return []
    let v ← value depth fuel
    gap
    if ← accept [','] then return v :: (← arrayItems depth fuel)
    expect [']']
    return [v]

def inlineItems (depth : Nat) : Nat → Items → Reader Items
  | 0, _ => failure
  | fuel + 1, items => do
    let (path, last) ← key
    expect ['=']
    spaces
    let v ← value depth fuel
    spaces
    let items ← items.putDotted last v path
    if ← accept [','] then inlineItems depth fuel items
    else
      expect ['\x7d']
      return items

end

structure State where
  root : Items := []
  current : List Text := []

def header (s : State) : Reader State := do
  let isArray ← accept ['[']
  let (path, last) ← key
  expect (if isArray then [']', ']'] else [']'])
  lineEnd
  let change := if isArray then Items.openElement last else Items.openTable last
  let root ← s.root.update change path
  return { root, current := path ++ [last] }

def pair (s : State) : Reader State := do
  let (path, last) ← key
  expect ['=']
  spaces
  let v ← value 0 ((← get).length + 1)
  lineEnd
  let root ← s.root.update (·.putDotted last v path) s.current
  return { s with root }

def lines : Nat → State → Reader State
  | 0, _ => failure
  | fuel + 1, s => do
    spaces
    match ← peek with
    | none => return s
    | some c =>
      if c == '#' || c == '\n' || c == '\r' then
        lineEnd
        lines fuel s
      else if c == '[' then
        expect ['[']
        lines fuel (← header s)
      else lines fuel (← pair s)

end Reader

def read? (t : Text) : Option Value := do
  let t := (Text.after? ['\ufeff'] t).getD t
  let (s, _) ← (Reader.lines (t.length + 1) {}).run t
  Items.ofItems? s.root

end MonthlyJournal.Toml
