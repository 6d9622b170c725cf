import LosslessSyntax.CommandLine.Files
import LosslessSyntax.CommandLine.Request
import LosslessSyntax.Json.Forms
import LosslessSyntax.Operator.TableJson
import LosslessSyntax.Reparse.Basic
import LosslessSyntax.Report.Basic
import LosslessSyntax.Text.Decoding
import LosslessSyntax.Tree.Render

/-! # Running a command

A request yields what is written to the two outputs and the code with which the command ends: zero,
one if a check finds errors, or two if the request cannot be carried out. Arguments, files, JSON and
colours are a matter of the host (`Host`).
-/

namespace LosslessSyntax

/-- What a command leaves behind. -/
structure CommandResult where
  code : UInt32
  /-- What is written to the standard output. -/
  output : String
  /-- What is written to the standard error. -/
  errors : String
deriving DecidableEq, Repr, Inhabited

/-- Why a request cannot be carried out. -/
inductive Refusal where
  /-- A file cannot be read. -/
  | unreadable (path : String) (fault : FileFault)
  /-- The table in a file cannot be used. -/
  | badTable (path : String) (failure : Failure)
  /-- The edit does not fit the text of a file. -/
  | badEdit (path : String) (failure : Failure)
  /-- There is no JSON text of what is to be shown, as a library words it. -/
  | unwritable (reason : String)
deriving DecidableEq, Repr, Inhabited

/-- What is said about a request that cannot be carried out. -/
def Refusal.message : Refusal → String
  | .unreadable path fault => "failed to read " ++ path ++ ": " ++ fault.message
  | .badTable path failure => "invalid precedence table " ++ path ++ ": " ++ failure.message
  | .badEdit path failure => "cannot apply edit to " ++ path ++ ": " ++ failure.message
  | .unwritable reason => reason

/-- What a command line relies on. -/
structure Host where
  /-- What arguments ask for, or what is left behind if they make no request. -/
  request : List String → Except CommandResult Request
  /-- The contents of files. -/
  read : Reader
  /-- How operator tables are read. -/
  codec : TableCodec
  /-- How JSON is written. -/
  writeJson : Json → Except String String
  /-- How texts are given their colours. -/
  painter : Painter

namespace CommandLine

/-- Lines, each with its end. -/
def unlines (lines : List String) : String := String.join (lines.map (· ++ "\n"))

/-- A token as a line of a table: place, kind, span and quoted text. -/
def tokenLine (token : Token) : String :=
  Text.padLeft 4 (toString token.position.line) ++ ":" ++
    Text.padRight 3 (toString token.position.column) ++ " " ++
    Text.padRight 18 token.kind.name ++ " " ++ Text.padRight 10 token.span.text ++ " " ++
    Text.quote token.text

/-- A parse with all diagnostics of its text, in JSON. -/
def parseJson (parse : Parse) (diagnostics : Diagnostics) : Json :=
  .object [("tree", parse.root.json), ("diagnostics", diagnostics.json)]

/-- How a text was reparsed after an edit. -/
def showEdit (parse : Parse) (strategy : Strategy) (showTree : Bool) : String :=
  unlines <|
    ["strategy: " ++ strategy.name, s!"diagnostics: {parse.diagnostics.size}"] ++
    (if showTree then [parse.root.sexpr] else [])

variable (host : Host)

/-- The contents of a file. -/
def readBytes (path : String) : Except Refusal (List UInt8) :=
  match host.read path with
  | .ok bytes => .ok bytes
  | .error fault => .error (.unreadable path fault)

/-- The contents of a file that has to hold text. -/
def readText (path : String) : Except Refusal String := do
  match Text.decodeBytes? (← readBytes host path) with
  | some text => .ok text
  | none => .error (.unreadable path .notText)

/-- The operators that a request asks for. -/
def readOperators (request : Request) : Except Refusal OperatorTable := do
  match request.operators with
  | none => .ok .standard
  | some path =>
    match OperatorTable.ofJson host.codec (← readText host path) with
    | .ok table => .ok table
    | .error failure => .error (.badTable path failure)

/-- The tokens of a text as a table, and reports on what is wrong with them. -/
def showTokens (path text : String) (decoding : Diagnostics) (config : Config) : CommandResult :=
  let (tokens, diagnostics) := scan text config.operatorLimit
  ⟨0, unlines (tokens.map tokenLine),
    unlines (Report.allLines host.painter path text (decoding.extend diagnostics.items))⟩

/-- A parse in one of the forms. -/
def showParse (format : Format) (parse : Parse) (diagnostics : Diagnostics) :
    Except Refusal String :=
  match format with
  | .tree => .ok parse.root.dump
  | .sexpr => .ok (parse.root.sexpr ++ "\n")
  | .json =>
    match host.writeJson (parseJson parse diagnostics) with
    | .ok text => .ok (text ++ "\n")
    | .error reason => .error (.unwritable reason)

/-- Reports on all diagnostics of a text, and how many there are. -/
def showCheck (path text : String) (diagnostics : Diagnostics) : CommandResult :=
  let reports := Report.allLines host.painter path text diagnostics
  if diagnostics.hasErrors then
    let count := diagnostics.errors.length
    ⟨1, "", unlines (reports ++ [host.painter.paintBold .red s!"{path}: {count} error(s) found"])⟩
  else
    let verdict :=
      if diagnostics.isEmpty then host.painter.paint .green s!"{path}: no problems found"
      else host.painter.paint .yellow s!"{path}: {diagnostics.size} warning(s)"
    ⟨0, unlines [verdict], unlines reports⟩

/-- Carries out a request. The operators are read before the source file. -/
def perform (request : Request) : Except Refusal CommandResult := do
  let operators ← readOperators host request
  let config := { Config.standard with operators, maxDepth := request.maxDepth }
  let (text, decoding) := Text.decodeSource (← readBytes host request.file)
  let parse := Parse.ofText config text
  let diagnostics := decoding.extend parse.diagnostics.items
  match request.command with
  | .parse format => return ⟨0, ← showParse host format parse diagnostics, ""⟩
  | .tokens => return showTokens host request.file text decoding config
  | .check => return showCheck host request.file text diagnostics
  | .edit edit showTree =>
    match parse.reparse config edit with
    | .error failure => .error (.badEdit request.file failure)
    | .ok (parse, strategy) => return ⟨0, showEdit parse strategy showTree, ""⟩

/-- What a request leaves behind, whether it can be carried out or not. -/
def result (request : Request) : CommandResult :=
  match perform host request with
  | .ok result => result
  | .error refusal =>
    ⟨2, "", unlines
      [host.painter.paintBold .red "error" ++ ": " ++ host.painter.paint .red refusal.message]⟩

/-- Runs a command line. -/
def run (arguments : List String) : CommandResult :=
  match host.request arguments with
  | .error left => left
  | .ok request => result host request

/-- What is written if the arguments of a command line make no request. -/
def usage : String :=
  unlines [
    "usage: ocean parse FILE [--format tree|sexp|json]",
    "       ocean tokens FILE",
    "       ocean check FILE",
    "       ocean edit FILE --offset BYTES [--delete BYTES] [--insert TEXT] [--print]",
    "options: [--max-depth LEVELS] [--precedence JSON] [-v]"]

end CommandLine

/-- The host of a terminal, with an environment and some files. -/
def Host.terminal (environment : String → Option String) (read : Reader) : Host where
  request arguments :=
    match Request.ofArguments? environment arguments with
    | none => .error ⟨2, "", CommandLine.usage⟩
    | some request => .ok request
  read := read
  codec := .json
  writeJson value := .ok value.write
  painter := .terminal

end LosslessSyntax
