import LosslessSyntax.Config
import LosslessSyntax.Text.Edit

/-! # Requests

A request says what the command line asks for. Its arguments are a command, a file and options. An
option is written `--name value` or `--name=value`, or `--name` alone if it has no value, and may
stand anywhere. After `--` nothing is an option.
-/

namespace LosslessSyntax

/-- The forms in which a tree can be shown. -/
inductive Format where
  | tree
  | sexpr
  | json
deriving DecidableEq, Repr, Inhabited

/-- The form with a written name. -/
def Format.ofName? : String → Option Format
  | "tree" => some .tree
  | "sexp" => some .sexpr
  | "json" => some .json
  | _ => none

/-- What is done with a file. -/
inductive Command where
  /-- Its tree is shown. -/
  | parse (format : Format)
  /-- Its tokens are shown. -/
  | tokens
  /-- Its diagnostics are shown. -/
  | check
  /-- It is edited in memory and reparsed; the new tree is shown on demand. -/
  | edit (edit : TextEdit) (showTree : Bool)
deriving DecidableEq, Repr, Inhabited

/-- What a command line asks for. -/
structure Request where
  command : Command
  /-- Path of the source file. -/
  file : String
  /-- How deeply constructs may nest. -/
  maxDepth : Nat
  /-- Path of the operator table, if not the standard one is used. -/
  operators : Option String
deriving DecidableEq, Repr, Inhabited

namespace Request

/-- The arguments of a command line, sorted. -/
structure Arguments where
  /-- What is not an option, in order. -/
  operands : List String
  /-- The options with their values, in order. -/
  options : List (String × String)
  /-- The options without a value. -/
  flags : List String
deriving Repr, Inhabited

/-- The options that have a value. -/
def valueOptions : List String :=
  ["max-depth", "precedence", "format", "offset", "delete", "insert"]

/-- The options that have none. -/
def flagOptions : List String := ["print", "verbose"]

/-- Whether an argument is written like an option. -/
def isOption (argument : String) : Bool := argument.startsWith "-" && argument != "-"

/-- The parts of an argument before and after the first equals sign. -/
def splitValue (argument : List Char) : String × Option String :=
  let (name, rest) := argument.span (· != '=')
  (String.ofList name, rest.tail?.map String.ofList)

/-- Sorts the arguments of a command line; `none` if one of them is no known option. -/
def sort? : List String → Option Arguments
  | [] => some ⟨[], [], []⟩
  | argument :: rest =>
    match argument.toList with
    | ['-', '-'] => some ⟨rest, [], []⟩
    | '-' :: '-' :: option =>
      match splitValue option with
      | (name, some value) => do
        if !valueOptions.contains name then none
        let others ← sort? rest
        some { others with options := (name, value) :: others.options }
      | (name, none) =>
        if flagOptions.contains name then do
          let others ← sort? rest
          some { others with flags := name :: others.flags }
        else if valueOptions.contains name then
          match rest with
          | [] => none
          | value :: rest => do
            if isOption value then none
            let others ← sort? rest
            some { others with options := (name, value) :: others.options }
        else none
    | '-' :: letter :: letters => do
      if !(letter :: letters).all (· == 'v') then none
      let others ← sort? rest
      some { others with flags := "verbose" :: others.flags }
    | _ => do
      let others ← sort? rest
      some { others with operands := argument :: others.operands }

/-- The value of an option; the last counts if there are several. -/
def Arguments.value? (arguments : Arguments) (name : String) : Option String :=
  arguments.options.reverse.lookup name

/-- The greatest number that an option can have. -/
def greatestNumber : Nat := 0xffffffffffffffff

/-- A number written with digits and perhaps a plus sign. -/
def number? (text : String) : Option Nat :=
  let digits := match text.toList with
    | '+' :: digits => digits
    | digits => digits
  if digits.isEmpty || !digits.all Char.isDigit then none
  else
    let value := Nat.ofDigitChars 10 digits 0
    if value ≤ greatestNumber then some value else none

/-- The value of an option that is a number, or another number where the option is missing. -/
def Arguments.number? (arguments : Arguments) (name : String) (missing : Option Nat) :
    Option Nat :=
  match arguments.value? name with
  | none => missing
  | some value => Request.number? value

/-- The command with a name; the options of other commands are refused. -/
def command? (name : String) (arguments : Arguments) : Option Command := do
  let admits (options flags : List String) : Bool :=
    (arguments.options.all fun option =>
      ("max-depth" :: "precedence" :: options).contains option.1) &&
    arguments.flags.all fun flag => ("verbose" :: flags).contains flag
  match name with
  | "parse" =>
    if !admits ["format"] [] then none
    some (.parse (← Format.ofName? ((arguments.value? "format").getD "tree")))
  | "tokens" => if admits [] [] then some .tokens else none
  | "check" => if admits [] [] then some .check else none
  | "edit" =>
    if !admits ["offset", "delete", "insert"] ["print"] then none
    let offset ← arguments.number? "offset" none
    let deleted ← arguments.number? "delete" (some 0)
    let inserted := (arguments.value? "insert").getD ""
    some (.edit ⟨offset, deleted, inserted⟩ (arguments.flags.contains "print"))
  | _ => none

/-- The request that the arguments of a command line stand for. Without an option for it, the
nesting limit is taken from the environment. -/
def ofArguments? (environment : String → Option String) (arguments : List String) :
    Option Request := do
  let arguments ← sort? arguments
  match arguments.operands with
  | [name, file] =>
    if file.isEmpty then none
    let command ← command? name arguments
    let fromEnvironment :=
      match environment "OCEAN_MAX_DEPTH" with
      | none => some Config.standardDepth
      | some value => number? value
    let maxDepth ← arguments.number? "max-depth" fromEnvironment
    some ⟨command, file, maxDepth, arguments.value? "precedence"⟩
  | _ => none

/-- The files that a request needs. -/
def paths (request : Request) : List String := request.operators.toList ++ [request.file]

end Request

end LosslessSyntax
