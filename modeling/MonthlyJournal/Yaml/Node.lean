import MonthlyJournal.Yaml.Token

/-!
# Nodes

The tree that the tokens of a stream spell. A node may be anchored, and an alias
stands for the node that bears its anchor. Anchors are numbered as they come:
an anchor gets the number of different names in use before it, and the last node
with a number is the one that its aliases stand for.
-/

set_option autoImplicit false

namespace MonthlyJournal.Yaml

structure Properties where
  anchor : Option Nat := none
  tag : Option Tag := none
  deriving DecidableEq

def Properties.isEmpty (p : Properties) : Bool := p.anchor.isNone && p.tag.isNone

inductive Node where
  | reference (anchor : Nat)
  | scalar (p : Properties) (plain : Bool) (text : Text)
  | sequence (p : Properties) (items : List Node)
  | mapping (p : Properties) (pairs : List (Node × Node))

namespace Node

def empty (p : Properties := {}) : Node := scalar p true []

structure Reader where
  tokens : List Token
  anchors : List (Text × Nat) := []
  handles : List (Text × Tag) := []

abbrev Read := StateT Reader (Except Fault)

namespace Read

def peek : Read Token := return (← get).tokens.headD .streamEnd

def skip : Read Unit := modify fun r => { r with tokens := r.tokens.drop 1 }

def skipIf (t : Token) : Read Bool := do
  if (← peek) = t then
    skip
    return true
  return false

def declare (name : Text) : Read Nat := do
  let r ← get
  let n := r.anchors.length
  set { r with anchors := (name, n) :: r.anchors.filter (·.1 ≠ name) }
  return n

def lookup (name : Text) : Read Nat := do
  match (← get).anchors.lookup name with
  | some n => return n
  | none => throw .undefinedAlias

def resolveTag (t : Tag.Written) : Read Tag := do
  if t.handle.isEmpty then return t.suffix
  match (← get).handles.lookup t.handle with
  | some start => return start ++ t.suffix
  | none => throw .undefinedTagHandle

def writtenProperties : Read (Option Text × Option Tag.Written) := do
  match ← peek with
  | .anchor name =>
    skip
    match ← peek with
    | .tag t =>
      skip
      return (some name, some t)
    | _ => return (some name, none)
  | .tag t =>
    skip
    match ← peek with
    | .anchor name =>
      skip
      return (some name, some t)
    | _ => return (none, some t)
  | _ => return (none, none)

def properties : Read Properties := do
  let (name, tag) ← writtenProperties
  let tag ← tag.mapM resolveTag
  let anchor ← name.mapM declare
  return { anchor, tag }

end Read

/-- Where a node stands: blocks may begin only in a block, and a sequence in a
mapping need not be indented. -/
inductive Place where
  | flow
  | block
  | inMapping
  deriving DecidableEq

def isLeftOut (ends : List Token) (t : Token) : Bool := ends.contains t

open Read

mutual

def read (place : Place) : Nat → Read Node
  | 0 => throw .tooDeep
  | fuel + 1 => do
    match ← peek with
    | .reference name =>
      skip
      return .reference (← lookup name)
    | _ =>
      let p ← properties
      let t ← peek
      match t, place with
      | .blockEntry, .inMapping => return .sequence p (← plainEntries fuel)
      | .scalar plain text, _ =>
        skip
        return .scalar p plain text
      | .flowSequenceStart, _ =>
        skip
        return .sequence p (← flowItems true fuel)
      | .flowMappingStart, _ =>
        skip
        return .mapping p (← flowPairs true fuel)
      | .blockSequenceStart, .block | .blockSequenceStart, .inMapping =>
        skip
        return .sequence p (← blockEntries fuel)
      | .blockMappingStart, .block | .blockMappingStart, .inMapping =>
        skip
        return .mapping p (← blockPairs fuel)
      | _, _ => if p.isEmpty then throw .noNode else return empty p

def readOr (ends : List Token) (place : Place) : Nat → Read Node
  | 0 => throw .tooDeep
  | fuel + 1 => do
    if isLeftOut ends (← peek) then return empty
    read place fuel

def blockEntries : Nat → Read (List Node)
  | 0 => throw .tooDeep
  | fuel + 1 => do
    if ← skipIf .blockEntry then
      let item ← readOr [.blockEntry, .blockEnd] .block fuel
      return item :: (← blockEntries fuel)
    if ← skipIf .blockEnd then return []
    throw .noEntry

def plainEntries : Nat → Read (List Node)
  | 0 => throw .tooDeep
  | fuel + 1 => do
    if ← skipIf .blockEntry then
      let item ← readOr [.blockEntry, .key, .value, .blockEnd] .block fuel
      return item :: (← plainEntries fuel)
    return []

def blockPairs : Nat → Read (List (Node × Node))
  | 0 => throw .tooDeep
  | fuel + 1 => do
    let ends : List Token := [.key, .value, .blockEnd]
    if ← skipIf .key then
      let key ← readOr ends .inMapping fuel
      let value ← if ← skipIf .value then readOr ends .inMapping fuel else pure empty
      return (key, value) :: (← blockPairs fuel)
    if ← skipIf .blockEnd then return []
    throw .noKey

/-- Reads the items of a flow sequence and its end. An item with a colon is a
mapping of one pair. -/
def flowItems (first : Bool) : Nat → Read (List Node)
  | 0 => throw .tooDeep
  | fuel + 1 => do
    if ← skipIf .flowSequenceEnd then return []
    if !first then
      if !(← skipIf .flowEntry) then throw .unclosedFlow
      if ← skipIf .flowSequenceEnd then return []
    let item ← if ← skipIf .key then flowPair fuel else read .flow fuel
    return item :: (← flowItems false fuel)

/-- Reads the single pair of a mapping in a flow sequence. The token in place of a
key that is left out is lost. -/
def flowPair : Nat → Read Node
  | 0 => throw .tooDeep
  | fuel + 1 => do
    let missing := isLeftOut [.value, .flowEntry, .flowSequenceEnd] (← peek)
    if missing then skip
    let key ← if missing then pure empty else read .flow fuel
    let value ←
      if ← skipIf .value then readOr [.flowEntry, .flowSequenceEnd] .flow fuel else pure empty
    return .mapping {} [(key, value)]

def flowPairs (first : Bool) : Nat → Read (List (Node × Node))
  | 0 => throw .tooDeep
  | fuel + 1 => do
    if ← skipIf .flowMappingEnd then return []
    if !first then
      if !(← skipIf .flowEntry) then throw .unclosedFlow
      if ← skipIf .flowMappingEnd then return []
    let pair ←
      if ← skipIf .key then do
        let key ← readOr [.value, .flowEntry, .flowMappingEnd] .flow fuel
        let value ←
          if ← skipIf .value then readOr [.flowEntry, .flowMappingEnd] .flow fuel else pure empty
        pure (key, value)
      else pure (← read .flow fuel, empty)
    return pair :: (← flowPairs false fuel)

end

def directives (versions : Nat) : Nat → Read Unit
  | 0 => throw .tooDeep
  | fuel + 1 => do
    match ← peek with
    | .directive (.version major minor) =>
      if versions ≠ 0 then throw .repeatedDirective
      if major ≠ 1 || (minor ≠ 1 && minor ≠ 2) then throw .unsupportedVersion
      skip
      directives (versions + 1) fuel
    | .directive (.tag handle stands) =>
      if ((← get).handles.lookup handle).isSome then throw .repeatedDirective
      modify fun r => { r with handles := r.handles ++ [(handle, stands)] }
      skip
      directives versions fuel
    | _ => return ()

def defaultHandles : List (Text × Tag) := [(['!'], [Tag.bang]), (['!', '!'], Tag.corePrefix)]

def beginsExplicitly : Token → Bool
  | .directive _ => true
  | .documentStart => true
  | .streamEnd => true
  | _ => false

def skipDocumentEnds : Nat → Read Unit
  | 0 => return ()
  | fuel + 1 => do if ← skipIf .documentEnd then skipDocumentEnds fuel

def readStream (size : Nat) : Read (Option Node) := do
  let t ← peek
  if t = .streamEnd then return none
  let explicit := beginsExplicitly t
  if explicit then
    directives 0 size
    if !(← skipIf .documentStart) then throw .noDocumentStart
  modify fun r => { r with handles := r.handles ++ defaultHandles }
  let next ← peek
  let root ←
    if explicit && (beginsExplicitly next || next == .documentEnd) then pure empty
    else read .block size
  skipDocumentEnds size
  if (← peek) = .streamEnd then return some root
  throw .severalDocuments

def ofText (t : Text) : Except Fault (Option Node) := do
  let tokens ← tokensOf t
  let (root, _) ← (readStream (3 * tokens.length + 3)).run { tokens }
  return root

end Node
end MonthlyJournal.Yaml
