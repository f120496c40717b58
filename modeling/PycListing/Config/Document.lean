import PycListing.Config.Lexeme

/-! # Statements of configuration files

A configuration file is a sequence of lines that assign values to keys or open tables. Only the
values that a setting can have are read; a file with any other is refused as a whole.
-/

namespace PycListing.Config

inductive Setting where
  | bool (b : Bool)
  | text (s : String)
  /-- A table or an array of nothing. -/
  | empty
  /-- A table whose single key has an empty value. -/
  | named (key : String)
  deriving DecidableEq, Repr

/-- A line of a configuration file that says something. -/
inductive Statement where
  /-- Assigns a value to the key at the end of a path. -/
  | assign (path : List String) (value : Setting)
  | openTable (path : List String)
  deriving DecidableEq, Repr

/-- Takes a table or an array of nothing. An array may extend over lines. -/
def emptyValue? : List Char → Option (List Char)
  | '\x7b' :: rest =>
    match skipSpaces rest with
    | '\x7d' :: rest => some rest
    | _ => none
  | '[' :: rest =>
    match skipLines (rest.length + 1) rest with
    | ']' :: rest => some rest
    | _ => none
  | _ => none

/-- Takes a table of one key, which has an empty value. -/
def namedValue? : List Char → Option (Setting × List Char)
  | '\x7b' :: rest => do
    let (key, rest) ← key? (skipSpaces rest)
    match skipSpaces rest with
    | '=' :: rest => do
      let rest ← emptyValue? (skipSpaces rest)
      match skipSpaces rest with
      | '\x7d' :: rest => some (.named key, rest)
      | _ => none
    | _ => none
  | _ => none

def value? (text : List Char) : Option (Setting × List Char) :=
  match text with
  | 't' :: 'r' :: 'u' :: 'e' :: rest => some (.bool true, rest)
  | 'f' :: 'a' :: 'l' :: 's' :: 'e' :: rest => some (.bool false, rest)
  | _ =>
    match string? text, emptyValue? text with
    | some (s, rest), _ => some (.text s, rest)
    | none, some rest => some (.empty, rest)
    | none, none => namedValue? text

/-- Takes a statement that starts with its first character. -/
def statement? : List Char → Option (Statement × List Char)
  | '[' :: rest => do
    let (path, rest) ← keyPath? (rest.length + 1) rest
    match rest with
    | ']' :: rest => some (.openTable path, rest)
    | _ => none
  | text => do
    let (path, rest) ← keyPath? (text.length + 1) text
    match rest with
    | '=' :: rest => do
      let (value, rest) ← value? (skipSpaces rest)
      some (.assign path value, rest)
    | _ => none

def statementsWithin? : Nat → List Char → Option (List Statement)
  | 0, _ => none
  | limit + 1, text =>
    match text with
    | [] => some []
    | _ =>
      match endOfLine? text with
      | some rest => statementsWithin? limit rest
      | none => do
        let (statement, rest) ← statement? (skipSpaces text)
        let rest ← endOfLine? rest
        let more ← statementsWithin? limit rest
        some (statement :: more)

/-- The statements of a text, a byte order mark at its start allowed. -/
def statements? (text : String) : Option (List Statement) :=
  let content := match text.toList with
    | '\uFEFF' :: rest => rest
    | rest => rest
  statementsWithin? (content.length + 1) content

end PycListing.Config
