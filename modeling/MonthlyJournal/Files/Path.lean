import MonthlyJournal.Text

/-!
# Paths

Where a file is, and why it cannot be read, or cannot be opened for writing.
-/

set_option autoImplicit false

namespace MonthlyJournal

/-!
## Faults of files

Why a file cannot be read, or cannot be opened for writing.
-/

inductive FileFault where
  | notFound
  | notADirectory
  | isADirectory
  | nameTooLong
  | nulInName
  | notText
  deriving DecidableEq

def FileFault.message : FileFault → Text
  | notFound => "No such file or directory".toList
  | notADirectory => "Not a directory".toList
  | isADirectory => "Is a directory".toList
  | nameTooLong => "File name too long".toList
  | nulInName => "file name contained an unexpected NUL byte".toList
  | notText => "stream did not contain valid UTF-8".toList

end MonthlyJournal

/-!
## Paths

A path is kept as it was written, and its components are what it means: repeated
slashes and inner dots do not count, and two dots stay. Two paths are the same
when their components are.
-/

namespace MonthlyJournal.Path

inductive Component where
  /-- The slash at the beginning of an absolute path. -/
  | root
  /-- A dot at the beginning of a relative path. -/
  | current
  | parent
  | name (t : Text)
  deriving DecidableEq

def pieceComponent? (piece : Text) : Option Component :=
  if piece = [] ∨ piece = ['.'] then none
  else if piece = ['.', '.'] then some .parent
  else some (.name piece)

def start? (path : Text) : Option Component :=
  if Text.startsWith ['/'] path then some .root
  else if path = ['.'] ∨ Text.startsWith ['.', '/'] path then some .current
  else none

def body (path : Text) : List Component := (Text.splitOn '/' path).filterMap pieceComponent?

def components (path : Text) : List Component := (start? path).toList ++ body path

def join (base path : Text) : Text :=
  if Text.startsWith ['/'] path then path
  else if base = [] ∨ base.getLast? = some '/' then base ++ path
  else base ++ '/' :: path

def names (path : Text) : List Text :=
  (components path).filterMap fun
    | .name t => some t
    | _ => none

def staysInside (path : Text) : Bool :=
  !path.isEmpty && (components path).all fun
    | .current | .name _ => true
    | .root | .parent => false

/-- A path that ends in a slash or a dot can only be a directory. -/
def endsOpen (path : Text) : Bool := Text.endsWith ['/'] path || Text.endsWith ['/', '.'] path

def endsInDot (path : Text) : Bool :=
  Text.endsWith ['/', '.'] (path.reverse.dropWhile (· = '/')).reverse

def fileName? (path : Text) : Option Text :=
  match (components path).getLast? with
  | some (.name t) => some t
  | _ => none

def extensionOf? (name : Text) : Option Text :=
  match name.reverse.dropWhile (· ≠ '.') with
  | [] => none
  | _ :: stem => if stem = [] then none else some (name.reverse.takeWhile (· ≠ '.')).reverse

def extension? (path : Text) : Option Text := (fileName? path).bind extensionOf?

def hasExtension (extension path : Text) : Bool :=
  match extension? path with
  | some e => decide (Text.lower e = Text.lower extension)
  | none => false

def dropBlankPieces : Text → Text
  | [] => []
  | ['.'] => []
  | '/' :: t => dropBlankPieces t
  | '.' :: '/' :: t => dropBlankPieces t
  | t => t

def dropBlankEnd (path : Text) : Text := (dropBlankPieces path.reverse).reverse

def parent (path : Text) : Text :=
  dropBlankEnd ((dropBlankEnd path).reverse.dropWhile (· ≠ '/')).reverse

def dropPieces : Nat → Text → Text
  | 0, path => dropBlankPieces path
  | n + 1, path => dropPieces n ((dropBlankPieces path).dropWhile (· ≠ '/'))

def relative? (base path : Text) : Option Text :=
  if (components base).isPrefixOf (components path) then
    match start? path, components base with
    | none, [] => some (dropBlankEnd path)
    | some _, [] => some (path.take 1 ++ dropBlankEnd (path.drop 1))
    | none, _ => some (dropBlankEnd (dropPieces (body base).length path))
    | some _, _ => some (dropBlankEnd (dropPieces (body base).length (path.drop 1)))
  else none

end MonthlyJournal.Path
