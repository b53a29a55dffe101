namespace Templating.CommandLine

inductive Format where
  | human
  | json
  deriving Repr, DecidableEq

inductive Command where
  | tag (names : List String) (space : Option String)
  | encode (plans : List String) (comment : Bool)
  | decode (map : String)
  deriving Repr, DecidableEq

structure Invocation where
  workspace : String
  format : Format
  command : Command
  deriving Repr, DecidableEq

/-- Why no command is run: help or the version was asked for, or the arguments make no sense. -/
inductive Refusal where
  | help
  | version
  | nothingGiven
  | missingCommand
  | unknownCommand
  | unknownArgument
  | missingArgument
  | badValue
  | repeated
  | needlessValue
  deriving Repr, DecidableEq

def Refusal.exitCode : Refusal → Nat
  | .help => 0
  | .version => 0
  | _ => 2

inductive CommandName where
  | tag
  | encode
  | decode
  deriving Repr, DecidableEq

def CommandName.ofText? : String → Option CommandName
  | "tag" => some .tag
  | "encode" => some .encode
  | "decode" => some .decode
  | _ => none

def helpName : String := "help"

/-- The options that take a value. -/
inductive Key where
  | workspace
  | output
  | space
  deriving Repr, DecidableEq

inductive Flag where
  | help
  | version
  | comment
  deriving Repr, DecidableEq

/-- What an option's name means behind a command's name, or before any. -/
def optionNamed (command : Option CommandName) (name : List Char) : Option (Key ⊕ Flag) :=
  match String.ofList name, command with
  | "workspace", _ => some (.inl .workspace)
  | "output", _ => some (.inl .output)
  | "help", _ => some (.inr .help)
  | "version", none => some (.inr .version)
  | "ns", some .tag => some (.inl .space)
  | "comment", some .encode => some (.inr .comment)
  | _, _ => none

def flagLettered (command : Option CommandName) (letter : Char) : Option Flag :=
  match letter, command with
  | 'h', _ => some .help
  | 'V', none => some .version
  | _, _ => none

inductive Word where
  | escape
  | long (name : List Char) (value : Option String)
  | short (letter : Char)
  | plain
  deriving Repr, DecidableEq

/-- How an argument looks; of a cluster of letters the first decides. -/
def Word.of (argument : String) : Word :=
  match argument.toList with
  | ['-', '-'] => .escape
  | '-' :: '-' :: rest =>
    match rest.dropWhile (· != '=') with
    | _ :: value => .long (rest.takeWhile (· != '=')) (some (String.ofList value))
    | [] => .long rest none
  | '-' :: letter :: _ => .short letter
  | _ => .plain

def Format.ofText? : String → Option Format
  | "human" => some .human
  | "json" => some .json
  | _ => none

/-- What has been given so far, and the option that is not settled yet, perhaps with its value. The
plain arguments have the last one in front. -/
structure Given where
  workspace : Option String := none
  output : Option Format := none
  space : Option String := none
  comment : Bool := false
  plain : List String := []
  pending : Option (Key × Option String) := none
  deriving Repr, DecidableEq

namespace Given

def isSet (g : Given) : Key → Bool
  | .workspace => g.workspace.isSome
  | .output => g.output.isSome
  | .space => g.space.isSome

/-- Gives an option its value; no option is given twice. -/
def assign (g : Given) (key : Key) (value : String) : Except Refusal Given :=
  if g.isSet key then .error .repeated
  else
    match key with
    | .workspace => .ok { g with workspace := some value }
    | .space => .ok { g with space := some value }
    | .output =>
      match Format.ofText? value with
      | some format => .ok { g with output := some format }
      | none => .error .badValue

/-- Gives the option its value. This happens when the next option, flag or plain argument comes, and
at the end. -/
def settle (g : Given) : Except Refusal Given :=
  match g.pending with
  | none => .ok g
  | some (_, none) => .error .badValue
  | some (key, some value) => { g with pending := none }.assign key value

/-- The option that waits for its value. -/
def waiting? (g : Given) : Option Key :=
  match g.pending with
  | some (key, none) => some key
  | _ => none

def raise (g : Given) : Flag → Except Refusal Given
  | .help => .error .help
  | .version => .error .version
  | .comment => if g.comment then .error .repeated else .ok { g with comment := true }

/-- Takes in an option. One that is unknown is refused whatever is still to be settled. -/
def takeLong (g : Given) (command : Option CommandName) (name : List Char)
    (value : Option String) : Except Refusal Given :=
  match optionNamed command name, value with
  | none, _ => .error .unknownArgument
  | some (.inr _), some _ => .error .needlessValue
  | some (.inr flag), none => do (← g.settle).raise flag
  | some (.inl key), some value => do (← g.settle).assign key value
  | some (.inl key), none => do return { ← g.settle with pending := some (key, none) }

def takeShort (g : Given) (command : Option CommandName) (letter : Char) :
    Except Refusal Given :=
  match flagLettered command letter with
  | none => .error .unknownArgument
  | some flag => do (← g.settle).raise flag

/-- Takes in a plain argument behind a command's name. The command `decode` has one only. -/
def takePlain (g : Given) (command : CommandName) (argument : String) : Except Refusal Given :=
  if command = .decode ∧ g.plain ≠ [] then .error .unknownArgument
  else do
    let g ← g.settle
    return { g with plain := argument :: g.plain }

/-- Takes in all that follows a command's name. -/
def takeAll (g : Given) (command : CommandName) : List String → Except Refusal Given
  | [] => g.settle
  | argument :: rest =>
    match Word.of argument with
    | .escape => do (← rest.foldlM (·.takePlain command ·) g).settle
    | .long name value => do (← g.takeLong command name value).takeAll command rest
    | .short letter => do (← g.takeShort command letter).takeAll command rest
    | .plain =>
      match g.waiting? with
      | some key => { g with pending := some (key, some argument) }.takeAll command rest
      | none => do (← g.takePlain command argument).takeAll command rest

/-- The command that has been given, which takes at least one plain argument. -/
def commandNamed (g : Given) (name : CommandName) : Except Refusal Command :=
  match name, g.plain.reverse with
  | _, [] => .error .missingArgument
  | .tag, names => .ok (.tag names g.space)
  | .encode, plans => .ok (.encode plans g.comment)
  | .decode, map :: _ => .ok (.decode map)

/-- Options behind the command's name count before those in front of it. -/
def invocation (front behind : Given) (command : Command) : Invocation where
  workspace := (behind.workspace <|> front.workspace).getD "."
  format := (behind.output <|> front.output).getD .human
  command := command

/-- What is wrong with arguments that name no command. -/
def withoutCommand (g : Given) : Refusal :=
  match g.settle with
  | .error refusal => refusal
  | .ok g => if g.workspace.isNone && g.output.isNone then .nothingGiven else .missingCommand

end Given

/-- Help on a command, or on help itself. -/
def helpOn : List String → Refusal
  | [] => .help
  | [topic] =>
    if topic = helpName ∨ (CommandName.ofText? topic).isSome then .help else .unknownCommand
  | _ => .unknownCommand

def isCommand (argument : String) : Bool :=
  argument = helpName || (CommandName.ofText? argument).isSome

/-- What is wrong with the arguments behind `--` where no command has been named. -/
def escaped (g : Given) : List String → Refusal
  | [] => g.withoutCommand
  | argument :: _ => if isCommand argument then .unknownArgument else .unknownCommand

/-- Reads the arguments in front of the command's name, and with them all others. What is wrong
behind the name counts before an option in front of it that is not settled. -/
def parseFrom (g : Given) : List String → Except Refusal Invocation
  | [] => .error g.withoutCommand
  | argument :: rest =>
    match g.waiting?, CommandName.ofText? argument with
    | none, some name => do
      let behind ← ({} : Given).takeAll name rest
      let command ← behind.commandNamed name
      let front ← g.settle
      return front.invocation behind command
    | waiting?, _ =>
      if waiting? = none ∧ argument = helpName then .error (helpOn rest)
      else
        match Word.of argument, waiting? with
        | .escape, _ => .error (escaped g rest)
        | .long name value, _ => do parseFrom (← g.takeLong none name value) rest
        | .short letter, _ => do parseFrom (← g.takeShort none letter) rest
        | .plain, some key => parseFrom { g with pending := some (key, some argument) } rest
        | .plain, none => .error .unknownCommand

def parse (arguments : List String) : Except Refusal Invocation :=
  parseFrom {} arguments

end Templating.CommandLine
