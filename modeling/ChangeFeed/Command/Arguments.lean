import ChangeFeed.Text.Cut

/-!
# Arguments of a command

Options have long names. A value stands behind an equals sign in the same argument or in the next
one, which then must not look like an option. Most options are given once at most; some may be
repeated, and a switch has no value. Two dashes end the options, and no command takes more.
-/

namespace ChangeFeed.Command

/-- What an option takes. -/
inductive Arity where
  /-- A value. -/
  | single
  /-- A value that is not empty. -/
  | path
  /-- Values with commas between them; the option may be repeated. -/
  | many
  /-- Nothing. -/
  | switch
  deriving DecidableEq, Repr

/-- The options of a command, by their names. -/
abbrev Rules := List (String × Arity)

/-- Options with the values that they were given. -/
abbrev Options := List (String × List String)

/-- What is wrong with the arguments of a command. -/
inductive UsageFault where
  /-- Somebody asks for help. -/
  | help
  | noCommand
  | unknownCommand (name : String)
  | unexpected (argument : String)
  | missingValue (option : String)
  | unexpectedValue (option : String)
  | repeated (option : String)
  | missing (option : String)
  | invalidValue (option reason : String)
  deriving DecidableEq, Repr

/-- The wording of a usage fault. -/
def UsageFault.message : UsageFault → String
  | .help => "commands: run, checkpoint show, slot-name"
  | .noCommand => "a command is required"
  | .unknownCommand name => "unrecognized command '" ++ name ++ "'"
  | .unexpected argument => "unexpected argument '" ++ argument ++ "'"
  | .missingValue option => "a value is required for '--" ++ option ++ "'"
  | .unexpectedValue option => "no value is allowed for '--" ++ option ++ "'"
  | .repeated option => "'--" ++ option ++ "' cannot be used multiple times"
  | .missing option => "'--" ++ option ++ "' is required"
  | .invalidValue option reason => "invalid value for '--" ++ option ++ "': " ++ reason

namespace Options

/-- Whether an argument looks like an option. -/
def looksLikeOption (argument : String) : Bool :=
  match argument.toList with
  | '-' :: _ :: _ => true
  | _ => false

/-- Gives values to an option of an arity. -/
def give (options : Options) (name : String) (arity : Arity) (values : List String) :
    Except UsageFault Options :=
  match options.lookup name with
  | none => .ok (options ++ [(name, values)])
  | some earlier =>
    if arity = .many then
      .ok (options.map fun (n, old) => if n = name then (n, earlier ++ values) else (n, old))
    else .error (.repeated name)

/-- Gives the text of a value to an option of an arity. -/
def giveText (options : Options) (name : String) (arity : Arity) (text : String) :
    Except UsageFault Options :=
  match arity with
  | .single => options.give name arity [text]
  | .path => if text.isEmpty then .error (.missingValue name) else options.give name arity [text]
  | .many => options.give name arity ((Text.parts ',' text.toList).map String.ofList)
  | .switch => .error (.unexpectedValue name)

/-- The name and the attached value of an argument that starts with two dashes. -/
def split (argument : String) : Option (String × Option String) :=
  match argument.toList with
  | '-' :: '-' :: rest =>
    match Text.cutAt '=' rest with
    | some (name, value) => some (String.ofList name, some (String.ofList value))
    | none => some (String.ofList rest, none)
  | _ => none

/-- Reads arguments after the options that were read before. -/
def readAfter (rules : Rules) : Options → List String → Except UsageFault Options
  | options, [] => .ok options
  | options, ["--"] => .ok options
  | options, argument :: rest =>
    if argument = "-h" ∨ argument = "--help" then .error .help
    else
      match split argument with
      | none => .error (.unexpected argument)
      | some (name, attached) =>
        match rules.lookup name, attached, rest with
        | none, _, _ => .error (.unexpected argument)
        | some arity, some text, rest => do
          readAfter rules (← options.giveText name arity text) rest
        | some .switch, none, rest => do
          readAfter rules (← options.give name .switch []) rest
        | some _, none, [] => .error (.missingValue name)
        | some arity, none, value :: rest =>
          if looksLikeOption value then .error (.missingValue name)
          else do readAfter rules (← options.giveText name arity value) rest
  termination_by _ arguments => arguments.length

/-- Reads the arguments of a command. -/
def read (rules : Rules) (arguments : List String) : Except UsageFault Options :=
  readAfter rules [] arguments

/-- The value of an option. -/
def value? (options : Options) (name : String) : Option String :=
  (options.lookup name).bind List.head?

/-- The value of an option that must be given. -/
def value (options : Options) (name : String) : Except UsageFault String :=
  match options.value? name with
  | some value => .ok value
  | none => .error (.missing name)

/-- The values of an option that may be repeated. -/
def values (options : Options) (name : String) : List String :=
  (options.lookup name).getD []

/-- Whether a switch is given. -/
def has (options : Options) (name : String) : Bool :=
  (options.lookup name).isSome

end Options

end ChangeFeed.Command
