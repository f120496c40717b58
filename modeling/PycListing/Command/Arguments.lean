import PycListing.Config.Settings

/-! # Command-line arguments

What a command line asks for. Arguments are taken from left to right, and the first one that is
refused, or that asks for the help text or the version, decides the outcome.
-/

namespace PycListing.Command

inductive ColorMode where
  | auto
  | always
  | never
  deriving DecidableEq, Repr

/-- What is known of a command line after some of its arguments. -/
structure Arguments where
  path : Option String := none
  noHeader : Bool := false
  order : Option TraversalOrder := none
  output : Option String := none
  config : Option String := none
  verbosity : Nat := 0
  quiet : Bool := false
  color : Option ColorMode := none
  time : Bool := false
  deriving DecidableEq, Repr

/-- A command line that names the file to disassemble. -/
structure Request where
  path : String
  noHeader : Bool
  order : Option TraversalOrder
  output : Option String
  config : Option String
  color : ColorMode
  time : Bool
  deriving DecidableEq, Repr

/-- Why a command line leads to no disassembly. -/
inductive Refusal where
  | help
  | version
  | usage
  deriving DecidableEq, Repr

inductive ValueOption where
  | order
  | output
  | config
  | color
  deriving DecidableEq, Repr

inductive Switch where
  | noHeader
  | verbose
  | quiet
  | time
  | help
  | version
  deriving DecidableEq, Repr

def longOption? : String → Option (ValueOption ⊕ Switch)
  | "order" => some (.inl .order)
  | "output" => some (.inl .output)
  | "config" => some (.inl .config)
  | "color" => some (.inl .color)
  | "no-header" => some (.inr .noHeader)
  | "verbose" => some (.inr .verbose)
  | "quiet" => some (.inr .quiet)
  | "time" => some (.inr .time)
  | "help" => some (.inr .help)
  | "version" => some (.inr .version)
  | _ => none

def shortOption? : Char → Option (ValueOption ⊕ Switch)
  | 'o' => some (.inl .output)
  | 'v' => some (.inr .verbose)
  | 'q' => some (.inr .quiet)
  | 'h' => some (.inr .help)
  | 'V' => some (.inr .version)
  | _ => none

/-- Whether a mode colours diagnostics. They are coloured unless that is forbidden, wherever they
are written to. -/
def ColorMode.isColored : ColorMode → Bool
  | .auto | .always => true
  | .never => false

def ColorMode.ofName? : String → Option ColorMode
  | "auto" => some .auto
  | "always" => some .always
  | "never" => some .never
  | _ => none

/-- A value for a setting that has none yet. -/
def once {α : Type} (old : Option α) (value : Option α) : Except Refusal (Option α) :=
  match old, value with
  | none, some value => .ok (some value)
  | _, _ => .error .usage

namespace Arguments

/-- Gives an option its value. No option may be given twice. -/
def setValue (arguments : Arguments) (option : ValueOption) (value : String) :
    Except Refusal Arguments :=
  match option with
  | .order =>
    (once arguments.order (TraversalOrder.ofName? value)).map ({ arguments with order := · })
  | .output => (once arguments.output (some value)).map ({ arguments with output := · })
  | .config => (once arguments.config (some value)).map ({ arguments with config := · })
  | .color =>
    (once arguments.color (ColorMode.ofName? value)).map ({ arguments with color := · })

/-- Sets a switch. Only the one for verbosity may be given twice. -/
def setSwitch (arguments : Arguments) : Switch → Except Refusal Arguments
  | .noHeader =>
    if arguments.noHeader then .error .usage else .ok { arguments with noHeader := true }
  | .verbose => .ok { arguments with verbosity := arguments.verbosity + 1 }
  | .quiet => if arguments.quiet then .error .usage else .ok { arguments with quiet := true }
  | .time => if arguments.time then .error .usage else .ok { arguments with time := true }
  | .help => .error .help
  | .version => .error .version

/-- Sets the path, which may not be empty. -/
def setPath (arguments : Arguments) (value : String) : Except Refusal Arguments :=
  if value = "" then .error .usage
  else (once arguments.path (some value)).map ({ arguments with path := · })

/-- Whether an argument looks like options; a lone dash does not. -/
def isDashed (argument : String) : Bool :=
  match argument.toList with
  | '-' :: _ :: _ => true
  | _ => false

/-- Takes an option's value from the next argument. -/
def takeValue (arguments : Arguments) (option : ValueOption) :
    List String → Except Refusal (Arguments × List String)
  | [] => .error .usage
  | value :: rest =>
    if isDashed value then .error .usage
    else (arguments.setValue option value).map (·, rest)

/-- Takes letters of options that follow one dash. The letter of an option that takes a value has
the value after it, an equals sign between them allowed, or else in the next argument. -/
def takeLetters (arguments : Arguments) (rest : List String) :
    List Char → Except Refusal (Arguments × List String)
  | [] => .ok (arguments, rest)
  | letter :: letters =>
    match shortOption? letter with
    | none => .error .usage
    | some (.inr switch) =>
      match arguments.setSwitch switch with
      | .ok arguments => takeLetters arguments rest letters
      | .error refusal => .error refusal
    | some (.inl option) =>
      match letters with
      | [] => arguments.takeValue option rest
      | '=' :: value => (arguments.setValue option (String.ofList value)).map (·, rest)
      | value => (arguments.setValue option (String.ofList value)).map (·, rest)

/-- Takes an option by its long name, with the value that an equals sign gives it, if any. -/
def takeLong (arguments : Arguments) (rest : List String) (name : String)
    (value : Option String) : Except Refusal (Arguments × List String) :=
  match longOption? name, value with
  | some (.inr switch), none => (arguments.setSwitch switch).map (·, rest)
  | some (.inl option), some value => (arguments.setValue option value).map (·, rest)
  | some (.inl option), none => arguments.takeValue option rest
  | _, _ => .error .usage

/-- Takes one argument, with its value in the next one if it asks for that. -/
def takeOne (arguments : Arguments) (argument : String) (rest : List String) :
    Except Refusal (Arguments × List String) :=
  match argument.toList with
  | '-' :: '-' :: name =>
    let value := match name.dropWhile (· != '=') with
      | _ :: value => some (String.ofList value)
      | [] => none
    arguments.takeLong rest (String.ofList (name.takeWhile (· != '='))) value
  | '-' :: letter :: letters => arguments.takeLetters rest (letter :: letters)
  | _ => (arguments.setPath argument).map (·, rest)

/-- Takes arguments, of which there are at most `limit`. After a lone double dash all of them are
paths. -/
def takeAll : Nat → Arguments → List String → Except Refusal Arguments
  | _, arguments, [] => .ok arguments
  | 0, _, _ => .error .usage
  | limit + 1, arguments, argument :: rest =>
    if argument = "--" then rest.foldlM setPath arguments
    else
      match arguments.takeOne argument rest with
      | .ok (arguments, rest) => takeAll limit arguments rest
      | .error refusal => .error refusal

end Arguments

/-- What a command line asks for. A path must be given, and a quiet run cannot be verbose. -/
def parse (line : List String) : Except Refusal Request :=
  match Arguments.takeAll line.length {} line with
  | .error refusal => .error refusal
  | .ok arguments =>
    match arguments.path with
    | none => .error .usage
    | some path =>
      if arguments.quiet && 0 < arguments.verbosity then .error .usage
      else .ok
        { path
          noHeader := arguments.noHeader
          order := arguments.order
          output := arguments.output
          config := arguments.config
          color := arguments.color.getD .auto
          time := arguments.time }

end PycListing.Command
