/-! # Lexemes of configuration files

Blanks, comments, line ends, keys and strings of the TOML format. Each reader takes what it reads
off the front of the text and comes back with the rest, or refuses.
-/

namespace PycListing.Config

def isSpace (c : Char) : Bool :=
  c = ' ' || c = '\t'

/-- Whether a character may stand in a comment or a string as itself. -/
def isPlain (c : Char) : Bool :=
  c = '\t' || (0x20 ≤ c.toNat && c.toNat != 0x7f)

/-- A text without the blanks that it starts with. -/
def skipSpaces (text : List Char) : List Char :=
  text.dropWhile isSpace

/-- Takes a line break off a text. -/
def lineBreak? : List Char → Option (List Char)
  | '\n' :: rest => some rest
  | '\r' :: '\n' :: rest => some rest
  | _ => none

/-- A text without the comment that it starts with, if there is one. -/
def skipComment : List Char → List Char
  | '#' :: rest => rest.dropWhile isPlain
  | text => text

/-- Takes blanks, a comment and a line break or the end of the text. -/
def endOfLine? (text : List Char) : Option (List Char) :=
  match skipComment (skipSpaces text) with
  | [] => some []
  | rest => lineBreak? rest

/-- Skips blanks, comments and line breaks; `limit` bounds the number of lines. -/
def skipLines : Nat → List Char → List Char
  | 0, text => text
  | limit + 1, text =>
    match lineBreak? (skipComment (skipSpaces text)) with
    | some rest => skipLines limit rest
    | none => skipSpaces text

def hexDigit? (c : Char) : Option Nat :=
  if c.isDigit then some (c.toNat - '0'.toNat)
  else if 'a' ≤ c ∧ c ≤ 'f' then some (c.toNat - 'a'.toNat + 10)
  else if 'A' ≤ c ∧ c ≤ 'F' then some (c.toNat - 'A'.toNat + 10)
  else none

/-- The character whose code point is given by hexadecimal digits. -/
def codePoint? (digits : List Char) : Option Char := do
  let values ← digits.mapM hexDigit?
  let point := values.foldl (fun point digit => 16 * point + digit) 0
  if point.isValidChar then some (Char.ofNat point) else none

/-- The character of a one-letter escape. -/
def simpleEscape? : Char → Option Char
  | 'b' => some '\x08'
  | 't' => some '\t'
  | 'n' => some '\n'
  | 'f' => some '\x0c'
  | 'r' => some '\r'
  | '"' => some '"'
  | '\\' => some '\\'
  | _ => none

/-- Takes an escape, its backslash taken already. -/
def escape? : List Char → Option (Char × List Char)
  | 'u' :: a :: b :: c :: d :: rest => do
    let point ← codePoint? [a, b, c, d]
    some (point, rest)
  | 'U' :: a :: b :: c :: d :: e :: f :: g :: h :: rest => do
    let point ← codePoint? [a, b, c, d, e, f, g, h]
    some (point, rest)
  | letter :: rest => do
    let c ← simpleEscape? letter
    some (c, rest)
  | [] => none

/-- Takes the rest of a string on one line between double quotes. -/
def basicString? : Nat → List Char → Option (List Char × List Char)
  | 0, _ => none
  | _ + 1, '"' :: rest => some ([], rest)
  | limit + 1, '\\' :: rest => do
    let (c, rest) ← escape? rest
    let (more, rest) ← basicString? limit rest
    some (c :: more, rest)
  | limit + 1, c :: rest =>
    if isPlain c then do
      let (more, rest) ← basicString? limit rest
      some (c :: more, rest)
    else none
  | _ + 1, [] => none

/-- Takes the rest of a string on one line between apostrophes, which has no escapes. -/
def literalString? : List Char → Option (List Char × List Char)
  | [] => none
  | '\'' :: rest => some ([], rest)
  | c :: rest =>
    if isPlain c then do
      let (more, rest) ← literalString? rest
      some (c :: more, rest)
    else none

/-- Takes three quotes that end a string, and up to two more before them that belong to it. -/
def closing? (quote : Char) (text : List Char) : Option (List Char × List Char) :=
  let run := (text.takeWhile (· = quote)).length
  if run < 3 then none
  else
    let kept := min run 5 - 3
    some (List.replicate kept quote, text.drop (kept + 3))

/-- A text without the blanks and line breaks that it starts with. A carriage return counts only as
part of a line break. -/
def skipBlankLines : List Char → List Char
  | '\r' :: '\n' :: rest => skipBlankLines rest
  | c :: rest => if isSpace c || c = '\n' then skipBlankLines rest else c :: rest
  | [] => []

/-- Skips what a backslash at the end of a line hides: the blanks and line breaks up to the next
other character. Without a line break there is nothing to hide. -/
def hiddenBreak? (text : List Char) : Option (List Char) :=
  (lineBreak? (skipSpaces text)).map skipBlankLines

/-- Takes the rest of a string of several lines between three double quotes. -/
def longBasicString? : Nat → List Char → Option (List Char × List Char)
  | 0, _ => none
  | limit + 1, text =>
    match closing? '"' text with
    | some taken => some taken
    | none =>
      match text with
      | [] => none
      | '\\' :: rest =>
        match hiddenBreak? rest with
        | some rest => longBasicString? limit rest
        | none => do
          let (c, rest) ← escape? rest
          let (more, rest) ← longBasicString? limit rest
          some (c :: more, rest)
      | c :: rest =>
        match lineBreak? text with
        | some rest => do
          let (more, rest) ← longBasicString? limit rest
          some ('\n' :: more, rest)
        | none =>
          if isPlain c then do
            let (more, rest) ← longBasicString? limit rest
            some (c :: more, rest)
          else none

/-- Takes the rest of a string of several lines between three apostrophes. -/
def longLiteralString? : Nat → List Char → Option (List Char × List Char)
  | 0, _ => none
  | limit + 1, text =>
    match closing? '\'' text with
    | some taken => some taken
    | none =>
      match lineBreak? text, text with
      | some rest, _ => do
        let (more, rest) ← longLiteralString? limit rest
        some ('\n' :: more, rest)
      | none, c :: rest =>
        if isPlain c then do
          let (more, rest) ← longLiteralString? limit rest
          some (c :: more, rest)
        else none
      | none, [] => none

/-- A text without the line break that it starts with, if it does. -/
def skipBreak (text : List Char) : List Char :=
  (lineBreak? text).getD text

/-- Takes a string of any form. A line break just after three quotes is not part of it. -/
def string? : List Char → Option (String × List Char)
  | '"' :: '"' :: '"' :: rest =>
    (longBasicString? (rest.length + 1) (skipBreak rest)).map (·.map String.ofList id)
  | '\'' :: '\'' :: '\'' :: rest =>
    (longLiteralString? (rest.length + 1) (skipBreak rest)).map (·.map String.ofList id)
  | '"' :: rest => (basicString? (rest.length + 1) rest).map (·.map String.ofList id)
  | '\'' :: rest => (literalString? rest).map (·.map String.ofList id)
  | _ => none

def isBareKey (c : Char) : Bool :=
  c.isAlphanum || c = '_' || c = '-'

/-- Takes one key, bare or quoted on one line. -/
def key? : List Char → Option (String × List Char)
  | '"' :: rest => (basicString? (rest.length + 1) rest).map (·.map String.ofList id)
  | '\'' :: rest => (literalString? rest).map (·.map String.ofList id)
  | text =>
    let bare := text.takeWhile isBareKey
    if bare.isEmpty then none else some (String.ofList bare, text.dropWhile isBareKey)

/-- Takes keys separated by dots, at most `limit` of them. Blanks around a key are skipped. -/
def keyPath? : Nat → List Char → Option (List String × List Char)
  | 0, _ => none
  | limit + 1, text => do
    let (key, rest) ← key? (skipSpaces text)
    match skipSpaces rest with
    | '.' :: rest => do
      let (more, rest) ← keyPath? limit rest
      some (key :: more, rest)
    | rest => some ([key], rest)

end PycListing.Config
