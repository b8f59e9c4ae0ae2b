import ComponentDoc.Cli.Usage
import ComponentDoc.Text.Letter

namespace ComponentDoc.Cli

open Text

inductive Form where
  /-- Two hyphens: everything after it is a plain value. -/
  | escape
  | long (name : String) (value : Option String)
  | short (letters : List Char)
  | plain (text : String)

/-- A long name with the value after the first equals sign. -/
def longForm (cs : List Char) : Form :=
  match cutAt? '=' cs with
  | some (name, value) => .long (String.ofList name) (some (String.ofList value))
  | none => .long (String.ofList cs) none

/-- A single hyphen is a plain value. -/
def Form.of (text : String) : Form :=
  match text.toList with
  | ['-', '-'] => .escape
  | '-' :: '-' :: cs => longForm cs
  | '-' :: c :: cs => .short (c :: cs)
  | _ => .plain text

/-- The least and the greatest number that can be read are those of 64 bits. -/
def readDigits (negative : Bool) (n : Nat) : List Char → Except String Nat
  | [] => .ok n
  | c :: cs =>
    if !isAsciiDigit c then .error "invalid digit found in string"
    else
      let next := 10 * n + (c.toNat - 48)
      if negative then
        if Nat.blt (2 ^ 63) next then .error "number too small to fit in target type"
        else readDigits negative next cs
      else if Nat.ble (2 ^ 63) next then .error "number too large to fit in target type"
      else readDigits negative next cs

/-- Digits, of which there has to be one. -/
def readUnsigned (negative : Bool) (cs : List Char) : Except String Nat :=
  if cs.isEmpty then .error "invalid digit found in string" else readDigits negative 0 cs

/-- The whole number that a text spells. -/
def readInteger (cs : List Char) : Except String Int :=
  match cs with
  | [] => .error "cannot parse integer from empty string"
  | '+' :: cs => (readUnsigned false cs).map Int.ofNat
  | '-' :: cs => (readUnsigned true cs).map fun n => -Int.ofNat n
  | cs => (readUnsigned false cs).map Int.ofNat

/-- A dialect version on the command line is 2 or 3. -/
def readVersion (value : String) : Except UsageError Nat :=
  match readInteger value.toList with
  | .error reason => .error (.invalidNumber value reason .version)
  | .ok n =>
    if n == 2 then .ok 2
    else if n == 3 then .ok 3
    else .error (.invalidNumber value (toString n ++ " is not in 2..=3") .version)

/-- One of several names; an empty one counts as missing. -/
def readChoice {α : Type} (argument : Argument) (ofName? : String → Option α) (name : String) :
    Except UsageError α :=
  match ofName? name with
  | some choice => .ok choice
  | none => .error (if name.isEmpty then .missingValue argument else .invalidChoice name argument)

/-- The choices that values name, with commas between them. -/
def readChoices {α : Type} (argument : Argument) (ofName? : String → Option α)
    (values : List String) : Except UsageError (List α) :=
  (values.flatMap fun value => (splitOn ',' value.toList).map String.ofList).mapM
    (readChoice argument ofName?)

/-- A path is not empty. -/
def readPath (value : String) : Except UsageError String :=
  if value.isEmpty then .error (.missingValue .paths) else .ok value

/-- The settings read so far. -/
structure Progress where
  command : ParseCommand := {}
  /-- The arguments that are set, in order. -/
  given : List Argument := []
  /-- The argument whose values are being collected. -/
  pending : Option (Argument × List String) := none
  /-- Whether the next plain value belongs to the pending argument. -/
  expectsValue : Bool := false

namespace Progress

def mark (progress : Progress) (argument : Argument) : Progress :=
  { progress with given := if progress.given.contains argument then progress.given
      else progress.given ++ [argument] }

/-- Turns a switch on, which is done once at most. -/
def switch (progress : Progress) (argument : Argument) : Except UsageError Progress :=
  if progress.given.contains argument then .error (.repeated argument)
  else
    let command := progress.command
    let set (command : ParseCommand) : Except UsageError Progress :=
      .ok { progress.mark argument with command }
    match argument with
    | .all => set { command with all := true }
    | .locations => set { command with locations := true }
    | .compact => set { command with compact := true }
    | .verbose => set { command with verbose := true }
    | _ => .ok progress

/-- Gives values to an argument. -/
def assign (progress : Progress) (argument : Argument) (values : List String) :
    Except UsageError Progress := do
  let command := progress.command
  if values.isEmpty then throw (.missingValue argument)
  match argument with
  | .paths =>
    let paths ← values.mapM readPath
    return { progress.mark .paths with command := { command with paths := command.paths ++ paths } }
  | .version =>
    if progress.given.contains .version then throw (.repeated .version)
    let versions ← values.mapM readVersion
    return { progress.mark .version with command := { command with version := versions.getLast? } }
  | .features =>
    let features ← readChoices .features Feature.ofLabel? values
    return { progress.mark .features with
      command := { command with features := command.features ++ features } }
  | .ignoredVisibilities =>
    let ignored ← readChoices .ignoredVisibilities Visibility.ofName? values
    return { progress.mark .ignoredVisibilities with
      command := { command with ignoredVisibilities := command.ignoredVisibilities ++ ignored } }
  | _ => return progress

/-- Gives the pending argument the values collected for it. -/
def settle (progress : Progress) : Except UsageError Progress :=
  match progress.pending with
  | none => .ok progress
  | some (argument, values) =>
    { progress with pending := none, expectsValue := false }.assign argument values

/-- Takes a plain value as a path. -/
def addPath (progress : Progress) (path : String) : Except UsageError Progress :=
  match progress.pending with
  | some (.paths, values) => .ok { progress with pending := some (.paths, values ++ [path]) }
  | _ => do
    let progress ← progress.settle
    return { progress with pending := some (.paths, [path]), expectsValue := false }

/-- Takes a plain value for the argument that expects one, or else as a path. -/
def addPlain (progress : Progress) (text : String) : Except UsageError Progress :=
  match progress.expectsValue, progress.pending with
  | true, some (argument, values) =>
    .ok { progress with pending := some (argument, values ++ [text]), expectsValue := false }
  | _, _ => progress.addPath text

end Progress

/-- What a step of reading may end with. -/
def misuse {α : Type} : Except UsageError α → Except Stop α
  | .ok a => .ok a
  | .error e => .error (.misuse e)

/-- Takes an argument by its long name. -/
def Progress.addLong (progress : Progress) (name : String) (value : Option String) :
    Except Stop Progress :=
  match Argument.ofName? name, value with
  | some argument, value =>
    if argument.takesValue then
      misuse do
        let progress ← progress.settle
        match value with
        | some value => progress.assign argument [value]
        | none => return { progress with pending := some (argument, []), expectsValue := true }
    else match value with
      | some value => .error (.misuse (.unexpectedValue value argument.shown))
      | none => misuse do
        let progress ← progress.settle
        progress.switch argument
  | none, value =>
    if name == "help" then
      match value with
      | some value => .error (.misuse (.unexpectedValue value "--help"))
      | none => do
        let _ ← misuse progress.settle
        throw .help
    else .error (.misuse (.unknownArgument ("--" ++ name)))

/-- Takes switches by their letters. -/
def Progress.addShort (progress : Progress) : List Char → Except Stop Progress
  | [] => .ok progress
  | 'v' :: letters => do
    let progress ← misuse progress.settle
    let progress ← misuse (progress.switch .verbose)
    progress.addShort letters
  | 'h' :: _ => do
    let _ ← misuse progress.settle
    throw .help
  | c :: _ => .error (.misuse (.unknownArgument (String.ofList ['-', c])))

/-- Settings that exclude each other are not both given. -/
def checkConflict (progress : Progress) : Except UsageError ParseCommand :=
  match progress.given.filter fun a => a == .all || a == .ignoredVisibilities with
  | a :: b :: _ => .error (.conflict a b)
  | _ => .ok progress.command

/-- Reads the arguments of the command that documents components. -/
def readParse (progress : Progress) : List String → Except Stop ParseCommand
  | [] => misuse do checkConflict (← progress.settle)
  | text :: texts =>
    match Form.of text with
    | .escape => do
      let progress ← misuse (texts.foldlM Progress.addPath { progress with expectsValue := false })
      misuse do checkConflict (← progress.settle)
    | .long name value => do
      let progress ← progress.addLong name value
      readParse progress texts
    | .short letters => do
      let progress ← progress.addShort letters
      readParse progress texts
    | .plain text => do
      let progress ← misuse (progress.addPlain text)
      readParse progress texts

/-- Reads the arguments of a command that takes none. -/
def readNone : List String → Except Stop Unit
  | [] => .ok ()
  | text :: texts =>
    match Form.of text with
    | .escape =>
      match texts with
      | [] => .ok ()
      | text :: _ => .error (.misuse (.unknownArgument text))
    | .long "help" (some value) => .error (.misuse (.unexpectedValue value "--help"))
    | .long "help" none => .error .help
    | .long name _ => .error (.misuse (.unknownArgument ("--" ++ name)))
    | .short ('h' :: _) => .error .help
    | .short letters => .error (.misuse (.unknownArgument (String.ofList ('-' :: letters.take 1))))
    | .plain text => .error (.misuse (.unknownArgument text))

def commandNames : List String :=
  ["parse", "init", "help"]

/-- What is asked about: a command, perhaps. -/
def readHelp : List String → Stop
  | [] => .help
  | [name] => if commandNames.contains name then .help else .misuse (.unknownCommand name)
  | name :: next :: _ =>
    .misuse (.unknownCommand (if commandNames.contains name then next else name))

/-- Reads switches that stand before a command. -/
def readLetters : List Char → Stop
  | 'h' :: _ => .help
  | 'V' :: _ => .version
  | letters => .misuse (.unknownArgument (String.ofList ('-' :: letters.take 1)))

/-- Reads a command line without the name of the program. No command is asked for by an empty one. -/
def readArgs : List String → Except Stop (Option Command)
  | [] => .ok none
  | text :: texts =>
    match text with
    | "parse" => (readParse {} texts).map fun command => some (.parse command)
    | "init" => (readNone texts).map fun _ => some .init
    | "help" => .error (readHelp texts)
    | _ =>
      match Form.of text with
      | .escape =>
        match texts with
        | [] => .ok none
        | text :: _ =>
          .error (.misuse (if commandNames.contains text then .unknownArgument text
            else .unknownCommand text))
      | .long "help" (some value) => .error (.misuse (.unexpectedValue value "--help"))
      | .long "help" none => .error .help
      | .long "version" (some value) => .error (.misuse (.unexpectedValue value "--version"))
      | .long "version" none => .error .version
      | .long name _ => .error (.misuse (.unknownArgument ("--" ++ name)))
      | .short letters => .error (readLetters letters)
      | .plain text => .error (.misuse (.unknownCommand text))

end ComponentDoc.Cli
