import RecordCuration.CommandLine.Arguments
import RecordCuration.CommandLine.Settings
import RecordCuration.Engine
import RecordCuration.Json.Fault
import RecordCuration.JsonSchema
import RecordCuration.Model.Library
import RecordCuration.Record
import RecordCuration.Report

/-!
Running a command: what it reads of the files decides what it prints and writes.

A run gives its texts, the files to write and the exit code. It is a function of the arguments and
a view of the files; nothing is written before the run has ended.
-/

namespace RecordCuration.CommandLine

/-! ### Faults -/

inductive Fault where
  | configFile (path : String) (cause : FileFault)
  | config (path : String)
  | recordFile (path : String) (cause : FileFault)
  | recordText (path : String) (cause : Option Json.TextFault)
  | envelope (cause : EnvelopeError)
  | unknownClass
  | modelFile (path : String) (cause : ModelError)
  | modelVersion (version : String) (cause : ModelError)
  | graph (cause : GraphError)
  | classSchema (name : String) (cause : GraphError)
  | engine (cause : Draft7.SchemaFault)
  | repairEngine (cause : Draft7.SchemaFault)
  | repair (cause : RepairFault)
  | writing (path : String) (cause : FileFault)
  | creating (path : String) (cause : FileFault)

/-- What lies behind a fault of a model, the fault first. -/
def modelCauses : ModelError → List String
  | .io fault => [(ModelError.io fault).message, fault.message]
  | e => [e.message]

def graphCauses : GraphError → List String
  | .model e => (GraphError.model e).message :: modelCauses e
  | e => [e.message]

def repairCauses : RepairFault → List String
  | .unwritable rule path cause => [(RepairFault.unwritable rule path cause).message, cause.message]
  | e => [e.message]

/-- A fault in words, and then what lies behind it. -/
def Fault.messages : Fault → List String
  | .configFile path cause => ["Failed to read config " ++ path, cause.message]
  | .config path => ["In " ++ path, "Invalid configuration", "YAML parse error"]
  | .recordFile path cause => ["Failed to read record " ++ path, cause.message]
  | .recordText path cause =>
    (path ++ " is not valid JSON") :: (cause.map Json.TextFault.message).toList
  | .envelope cause => [cause.message]
  | .unknownClass => ["Record class is unknown; pass --class"]
  | .modelFile path cause => ("Failed to load model " ++ path) :: modelCauses cause
  | .modelVersion version cause =>
    ("Failed to load model version " ++ version) :: modelCauses cause
  | .graph cause => graphCauses cause
  | .classSchema name cause => ("Cannot build schema for " ++ name) :: graphCauses cause
  | .engine cause => [schemaErrorMessage cause]
  | .repairEngine cause =>
    ["Validation error: " ++ schemaErrorMessage cause, schemaErrorMessage cause]
  | .repair cause => ("Repair error: " ++ cause.message) :: repairCauses cause
  | .writing path cause => ["Failed to write " ++ path, cause.message]
  | .creating path cause => ["Failed to create " ++ path, cause.message]

/-- Lines with a first part before the first and blanks before the others. -/
def indent (first : String) (text : String) : String :=
  let blanks := String.ofList (List.replicate first.length ' ')
  let lines := (Text.split '\n' text.toList).map String.ofList
  first ++ ("\n" ++ blanks).intercalate lines

/-- Causes one below the other, numbered when there are several. -/
def causesText : List String → String
  | [] => ""
  | [cause] => "\n\nCaused by:\n" ++ indent "    " cause
  | causes => "\n\nCaused by:\n" ++ "\n".intercalate (causes.zipIdx.map fun (cause, i) =>
      let number := toString i
      indent (String.ofList (List.replicate (5 - number.length) ' ') ++ number ++ ": ") cause)

/-- The text of a fault for the user. -/
def Fault.text (e : Fault) : String :=
  match e.messages with
  | [] => ""
  | head :: causes => "Error: " ++ head ++ causesText causes ++ "\n"

/-! ### Results -/

/-- What a run prints and writes, and the code it exits with. -/
structure Result where
  code : UInt32
  output : String
  errors : String
  written : List (String × String)

namespace Result

def success (output : String) : Result := ⟨0, output, "", []⟩

def failed (e : Fault) : Result := ⟨1, "", e.text, []⟩

/-- A result after some texts have been printed. -/
def after (output errors : String) (r : Result) : Result :=
  { r with output := output ++ r.output, errors := errors ++ r.errors }

end Result

/-- Writes a document to a file or prints it. -/
def deliver (view : FileView) (path : Option String) (doc : Json) : Result :=
  let text := doc.pretty ++ "\n"
  match path with
  | none => .success text
  | some path =>
    match view.writeFault? path with
    | some fault => .failed (.writing path fault)
    | none => ⟨0, "", "", [(path, text)]⟩

/-! ### Parts of commands -/

def settings (view : FileView) : Option String → Except Fault Settings
  | none => .ok .standard
  | some path =>
    match view.read path with
    | .error fault => .error (.configFile path fault)
    | .ok text =>
      match Settings.ofString? text with
      | some s => .ok s
      | none => .error (.config path)

/-- A model from a file, or else by version. -/
def model (view : FileView) (s : Settings) (name : String) : Except Fault Model :=
  if view.isFile name then (ModelLibrary.modelAt view name).mapError (.modelFile name)
  else ((ModelLibrary.ofPaths s.modelPaths).load view name).2.mapError (.modelVersion name)

def graph (view : FileView) (s : Settings) (name : String) : Except Fault GraphSchema := do
  (GraphSchema.ofModel (← model view s name) s.context).mapError .graph

def classSchema (view : FileView) (s : Settings) (name className : String) :
    Except Fault Json := do
  ((← graph view s name).schemaForClass className).mapError (.classSchema className)

/-- The body of the record in a file, and its class. -/
def record (view : FileView) (path : String) (className : Option String) :
    Except Fault (Json × String) :=
  match view.read path with
  | .error fault => .error (.recordFile path fault)
  | .ok text =>
    match Json.ofString? text with
    | none => .error (.recordText path (Json.textFault? text))
    | some doc =>
      match Record.read doc className with
      | .error e => .error (.envelope e)
      | .ok r =>
        match r.resourceType with
        | none => .error .unknownClass
        | some name => .ok (r.body, name)

/-! ### Commands -/

def runGraphSchema (view : FileView) (s : Settings) (name : String) (output : Option String) :
    Except Fault Result := do
  pure (deliver view output (← graph view s name).toJson)

def runJsonSchema (view : FileView) (s : Settings) (name className : String)
    (output : Option String) : Except Fault Result := do
  pure (deliver view output (← classSchema view s name className))

/-- Writes the error table of a report, which is then printed anyway. -/
def table (view : FileView) (report : Report) : Option String → Result
  | none => .success ""
  | some path =>
    match view.writeFault? path with
    | some fault => .failed (.creating path fault)
    | none => ⟨0, "", "", [(path, ErrorTable.standard.write [report])]⟩

def runValidate (view : FileView) (s : Settings) (path name : String)
    (className tablePath : Option String) : Except Fault Result := do
  let (body, className) ← record view path className
  let schema ← classSchema view s name className
  let engine ← (Engine.compile schema .standard).mapError .engine
  let report : Report := ⟨className, path, engine.validate body⟩
  let result := (table view report tablePath).after report.text ""
  pure (if report.isValid then result else { result with code := 1 })

def countsText (counts : List (String × Nat)) : String :=
  String.join (counts.map fun c => c.1 ++ ": " ++ toString c.2 ++ "\n")

def runRepair (view : FileView) (s : Settings) (path name : String)
    (className output : Option String) (maxPasses : Option Nat) : Except Fault Result := do
  let (body, className) ← record view path className
  let schema ← classSchema view s name className
  let engine ← (Engine.compile schema .standard).mapError .repairEngine
  let repairer : Repairer := ⟨engine, .standard, maxPasses.getD s.maxPasses⟩
  let run ← (repairer.run body).mapError .repair
  let report : Report := ⟨className, path, run.outcome.remaining⟩
  match run.outcome with
  | .valid => pure ((deliver view output run.document).after "" (countsText run.ruleCounts))
  | .unrepairable _ => pure ⟨1, report.text, "", []⟩
  | .passLimit _ =>
    pure ⟨1, report.text, "Stopped after " ++ toString run.passes ++ " repair passes\n", []⟩

def runCommand (view : FileView) (s : Settings) : Command → Except Fault Result
  | .graphSchema name output => runGraphSchema view s name output
  | .jsonSchema name className output => runJsonSchema view s name className output
  | .validate path name className tablePath => runValidate view s path name className tablePath
  | .repair path name className output maxPasses =>
    runRepair view s path name className output maxPasses

/-- Runs a command that was called for. -/
def Invocation.run (i : Invocation) (view : FileView) : Result :=
  match settings view i.config >>= fun s => runCommand view s i.command with
  | .ok r => r
  | .error e => .failed e

/-- How the program is called. -/
def usage : String :=
  "Usage: spase [-c FILE] [-v] COMMAND\n\nCommands:\n" ++
  "  graph-schema MODEL [-o FILE]\n" ++
  "  json-schema MODEL --class NAME [-o FILE]\n" ++
  "  validate RECORD -m MODEL [--class NAME] [--report FILE]\n" ++
  "  repair RECORD -m MODEL [--class NAME] [-o FILE] [--max-iterations N]\n"

/-- Runs the program with some arguments. -/
def run (args : List String) (view : FileView) : Result :=
  match Invocation.ofArguments args with
  | .ok i => i.run view
  | .error .help => .success usage
  | .error .version => .success "spase 0.1.0\n"
  | .error .misuse => ⟨2, "", usage, []⟩

end RecordCuration.CommandLine
