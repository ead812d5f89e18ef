import RecordCuration.Text.Digit

/-!
Arguments of the command line: a command with its words and options, and options for every command.

An option has a long form, and perhaps one letter. Its value follows, or is joined to the long form
by an equals sign, or stands right behind the letter. Letters may share a hyphen. After two bare
hyphens come words only. An option is given once before the command or once after it. A value is
checked where it stands, so that a bad value comes before whatever follows it.
-/

namespace RecordCuration.CommandLine

inductive Command where
  | graphSchema (model : String) (output : Option String)
  | jsonSchema (model className : String) (output : Option String)
  | validate (record model : String) (className report : Option String)
  | repair (record model : String) (className output : Option String) (maxPasses : Option Nat)
  deriving DecidableEq, Repr

structure Invocation where
  config : Option String
  command : Command
  deriving DecidableEq, Repr

/-- Why arguments name no command to run. -/
inductive Stop where
  | help
  | version
  | misuse
  deriving DecidableEq, Repr

/-! ### Options -/

/-- What an option takes. -/
inductive ValueKind where
  | none
  | text
  | path
  | count
  deriving DecidableEq, Repr

structure Form where
  name : String
  letter : Option Char
  kind : ValueKind

def Form.isValued (f : Form) : Bool := f.kind ≠ .none

/-- The name, the number of words and the options of a command. -/
structure CommandForm where
  name : String
  words : Nat
  options : List Form

def helpForm : Form := ⟨"help", some 'h', .none⟩

def versionForm : Form := ⟨"version", some 'V', .none⟩

/-- Options of every command. -/
def commonForms : List Form :=
  [⟨"config", some 'c', .path⟩, ⟨"verbose", some 'v', .none⟩, helpForm]

def modelForm : Form := ⟨"model", some 'm', .text⟩

def classForm : Form := ⟨"class", none, .text⟩

def outputForm : Form := ⟨"output", some 'o', .path⟩

def commandForms : List CommandForm :=
  [⟨"graph-schema", 1, [outputForm]⟩,
   ⟨"json-schema", 1, [classForm, outputForm]⟩,
   ⟨"validate", 1, [modelForm, classForm, ⟨"report", none, .path⟩]⟩,
   ⟨"repair", 1, [modelForm, classForm, outputForm, ⟨"max-iterations", none, .count⟩]⟩]

/-! ### Values -/

/-- A number of 64 bits, perhaps after a plus sign. -/
def count? (s : String) : Option Nat := Text.count? UInt64.size s.toList

/-- Whether a text can be a value: the path of a file is not empty. -/
def ValueKind.admits : ValueKind → String → Bool
  | .none, _ => true
  | .text, _ => true
  | .path, s => !s.isEmpty
  | .count, s => (count? s).isSome

/-! ### Reading -/

/-- Options that were given, with their values. -/
abbrev Given := List (String × String)

/-- What has been read: options before the command, the command, its options and words, whether
only words can follow, and an option whose value comes next. -/
structure Progress where
  outer : Given
  command : Option CommandForm
  inner : Given
  words : List String
  onlyWords : Bool
  pending : Option Form

namespace Progress

def start : Progress := ⟨[], none, [], [], false, none⟩

def forms (p : Progress) : List Form :=
  match p.command with
  | none => versionForm :: commonForms
  | some c => c.options ++ commonForms

/-- Adds an option, which must be new. -/
def add (given : Given) (name value : String) : Except Stop Given :=
  if (given.lookup name).isSome then .error .misuse else .ok ((name, value) :: given)

/-- Takes an option before or after the command. -/
def give (p : Progress) (f : Form) (value : String) : Except Stop Progress :=
  if f.name = "help" then .error .help
  else if f.name = "version" then .error .version
  else if !f.kind.admits value then .error .misuse
  else match p.command with
    | none => (add p.outer f.name value).map fun outer => { p with outer }
    | some _ => (add p.inner f.name value).map fun inner => { p with inner }

/-- Reads letters behind one hyphen. -/
def letters (p : Progress) : List Char → Except Stop Progress
  | [] => .ok p
  | c :: cs =>
    match p.forms.find? fun f => f.letter == some c with
    | none => .error .misuse
    | some f =>
      if f.isValued then
        match cs with
        | [] => .ok { p with pending := some f }
        | '=' :: value => p.give f (String.ofList value)
        | value => p.give f (String.ofList value)
      else
        match p.give f "" with
        | .ok p => p.letters cs
        | .error e => .error e

/-- Reads a long form, with what follows an equals sign. -/
def long (p : Progress) (cs : List Char) : Except Stop Progress :=
  let name := String.ofList (cs.takeWhile (· ≠ '='))
  match p.forms.find? fun f => f.name == name, cs.dropWhile (· ≠ '=') with
  | none, _ => .error .misuse
  | some f, [] => if f.isValued then .ok { p with pending := some f } else p.give f ""
  | some f, _ :: value => if f.isValued then p.give f (String.ofList value) else .error .misuse

def word (p : Progress) (s : String) : Except Stop Progress :=
  match p.command with
  | some c =>
    if p.words.length < c.words then .ok { p with words := p.words ++ [s] } else .error .misuse
  | none =>
    match commandForms.find? fun c => c.name == s with
    | some c => if p.onlyWords then .error .misuse else .ok { p with command := some c }
    | none => .error .misuse

/-- Whether an argument cannot be a value. -/
def looksLikeOption (s : String) : Bool := s.startsWith "-" && s ≠ "-"

def step (p : Progress) (s : String) : Except Stop Progress :=
  if p.onlyWords then p.word s
  else match p.pending with
    | some f =>
      if looksLikeOption s then .error .misuse
      else give { p with pending := none } f s
    | none =>
      match s.toList with
      | ['-', '-'] => .ok { p with onlyWords := true }
      | '-' :: '-' :: cs => p.long cs
      | '-' :: c :: cs => p.letters (c :: cs)
      | _ => p.word s

end Progress

/-! ### Commands -/

/-- An option that must be given. -/
def required (given : Given) (name : String) : Except Stop String :=
  match given.lookup name with
  | some value => .ok value
  | none => .error .misuse

/-- A word that names a file. -/
def path (s : String) : Except Stop String :=
  if ValueKind.path.admits s then .ok s else .error .misuse

/-- The command of a name, from its word and options. -/
def Command.ofGiven (name word : String) (given : Given) : Except Stop Command := do
  let className := given.lookup "class"
  let output := given.lookup "output"
  match name with
  | "graph-schema" => pure (.graphSchema word output)
  | "json-schema" => pure (.jsonSchema word (← required given "class") output)
  | "validate" =>
    pure (.validate (← path word) (← required given "model") className (given.lookup "report"))
  | _ =>
    pure (.repair (← path word) (← required given "model") className output
      (given.lookup "max-iterations" >>= count?))

/-- Reads the arguments of a call. -/
def Invocation.ofArguments (args : List String) : Except Stop Invocation := do
  let p ← args.foldlM Progress.step .start
  match p.pending, p.command, p.words with
  | none, some c, [word] =>
    pure ⟨(p.inner ++ p.outer).lookup "config", ← Command.ofGiven c.name word p.inner⟩
  | _, _, _ => .error .misuse

end RecordCuration.CommandLine
