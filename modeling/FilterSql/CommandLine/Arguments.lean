import FilterSql.Config
/-!
# Command line arguments

The arguments are a command with its operands, and options. The common options may stand in front
of the command or behind it; of an option given in both places the one behind counts. Within one
place no option may be repeated.
-/
namespace FilterSql.CommandLine

structure Settings where
  schema : Option String := none
  format : Option OutputFormat := none
  config : Option String := none
  noColor : Bool := false

inductive Command where
  | compile (query : String) (page : Option UInt32) (rows : UInt32)
  | entities
  | check (expression : String)

/-- An option: its long name, its letter, whether a value follows it, and what it is for. -/
structure OptionForm where
  name : String
  letter : Option Char
  takesValue : Bool
  text : String

structure OperandForm where
  name : String
  text : String

/-- A command: its options in the order in which they are listed, its operand, if it has one, and
which texts the operand may be. -/
structure CommandForm where
  name : String
  text : String
  options : List OptionForm
  operand : Option OperandForm
  accepts : String → Bool

inductive Topic where
  | program
  | command (form : CommandForm)
  | help

inductive Request where
  | run (settings : Settings) (command : Command)
  | help (topic : Topic)
  | version
  | misuse

def schemaOption : OptionForm :=
  ⟨"schema", some 's', true, "Entity schema (TOML or JSON); overrides the config file"⟩

def formatOption : OptionForm :=
  ⟨"format", some 'f', true, "Output format; overrides the config file"⟩

def configOption : OptionForm :=
  ⟨"config", none, true, "Config file (default: <config dir>/criteria-sql/config.toml)"⟩

def colorOption : OptionForm := ⟨"no-color", none, false, "Disable colored output"⟩

def helpOption : OptionForm := ⟨"help", some 'h', false, "Print help"⟩

def versionOption : OptionForm := ⟨"version", some 'V', false, "Print version"⟩

def pageOption : OptionForm := ⟨"page", none, true, "Also print the data query for this page"⟩

def rowsOption : OptionForm := ⟨"rows", none, true, "Page size used with --page"⟩

def commonOptions : List OptionForm :=
  [schemaOption, formatOption, configOption, colorOption, helpOption]

def rootOptions : List OptionForm := commonOptions ++ [versionOption]

def compileForm : CommandForm where
  name := "compile"
  text := "Compile a JSON query document"
  options := [pageOption, schemaOption, formatOption, rowsOption, configOption, colorOption,
    helpOption]
  operand := some ⟨"QUERY", "Path to the query document"⟩
  accepts s := !s.isEmpty

def entitiesForm : CommandForm where
  name := "entities"
  text := "List registered entities and their fields"
  options := commonOptions
  operand := none
  accepts _ := true

def checkForm : CommandForm where
  name := "check"
  text := "Validate and translate an x-expression"
  options := commonOptions
  operand := some ⟨"EXPRESSION", "e.g. \x60Order->id.as.oid\x60"⟩
  accepts _ := true

def commandForms : List CommandForm := [compileForm, entitiesForm, checkForm]

def commandForm? (name : String) : Option CommandForm := commandForms.find? (·.name == name)

/-- An option that is given, with its value, and whether the value stands apart as an argument of its
own. -/
structure Given where
  name : String
  value : String := ""
  apart : Bool := false

def isOptionLike (s : String) : Bool :=
  match s.toList with
  | '-' :: _ :: _ => true
  | _ => false

def takeValue? (name : String) (attached : Option String) (rest : List String) :
    Option (Given × List String) :=
  match attached, rest with
  | some v, rest => some (⟨name, v, false⟩, rest)
  | none, v :: rest => if isOptionLike v then none else some (⟨name, v, true⟩, rest)
  | none, [] => none

def takeLong? (forms : List OptionForm) (body : List Char) (rest : List String) :
    Option (Given × List String) := do
  let (name, attached) := match Text.cutAt '=' body with
    | some (n, v) => (String.ofList n, some (String.ofList v))
    | none => (String.ofList body, none)
  let form ← forms.find? (·.name == name)
  if form.takesValue then takeValue? name attached rest
  else if attached.isSome then none
  else some ({ name }, rest)

/-- An option by its letter; the rest behind a letter with a value is that value, perhaps behind an
equals sign. A letter without value asks for something that ends everything, so it does not matter
what is behind it. -/
def takeLetter? (forms : List OptionForm) (rest : List String) (c : Char) (body : List Char) :
    Option (Given × List String) := do
  let form ← forms.find? (·.letter == some c)
  if form.takesValue then
    let attached := match body with
      | [] => none
      | '=' :: v => some (String.ofList v)
      | v => some (String.ofList v)
    takeValue? form.name attached rest
  else some ({ name := form.name }, rest)

structure Parsed where
  settings : Settings := {}
  seen : List String := []
  /-- An option whose value stands apart. It is looked at when the next one is read. -/
  late : Option (String × String) := none
  operands : List String := []
  page : Option UInt32 := none
  rows : Option UInt32 := none

/-- A whole number of 32 bits without sign; a plus sign is allowed. -/
def word? (s : String) : Option UInt32 := (readWhole? s.toList).bind word32?

def path? (s : String) : Option String := if s.isEmpty then none else some s

def Parsed.setOption? (p : Parsed) (name value : String) : Option Parsed :=
  if p.seen.contains name then none
  else
    let p := { p with seen := name :: p.seen }
    match name with
    | "schema" => (path? value).map fun v => { p with settings.schema := some v }
    | "format" => (OutputFormat.ofName? value).map fun v => { p with settings.format := some v }
    | "config" => (path? value).map fun v => { p with settings.config := some v }
    | "no-color" => some { p with settings.noColor := true }
    | "page" => (word? value).map fun v => { p with page := some v }
    | "rows" => (word? value).map fun v => { p with rows := some v }
    | _ => none

/-- Where reading the arguments of a place came to an end. -/
inductive Stop where
  | done (p : Parsed)
  | operand (p : Parsed) (s : String) (rest : List String)
  | help
  | version
  | misuse

def Parsed.settle? (p : Parsed) : Option Parsed :=
  match p.late with
  | some (name, value) => { p with late := none }.setOption? name value
  | none => some p

def Parsed.add (p : Parsed) (g : Given) : Except Stop Parsed :=
  match p.settle? with
  | none => .error .misuse
  | some p =>
    if g.name = "help" then .error .help
    else if g.name = "version" then .error .version
    else if g.apart then .ok { p with late := some (g.name, g.value) }
    else
      match p.setOption? g.name g.value with
      | some p => .ok p
      | none => .error .misuse

def takeOption (forms : List OptionForm) (p : Parsed) (arg : String) (rest : List String) :
    Except Stop (Parsed × List String) :=
  let given : Option (Given × List String) := match arg.toList with
    | '-' :: '-' :: body => takeLong? forms body rest
    | _ :: c :: body => takeLetter? forms rest c body
    | _ => none
  match given with
  | some (g, rest) => (p.add g).map fun p => (p, rest)
  | none => .error .misuse

def readRoot (p : Parsed) (args : List String) : Stop :=
  match args with
  | [] => .done p
  | arg :: rest =>
    if arg = "--" then .misuse
    else if isOptionLike arg then
      match takeOption rootOptions p arg rest with
      | .ok (p, rest') =>
        if rest'.length ≤ rest.length then readRoot p rest' else .misuse
      | .error stop => stop
    else .operand p arg rest
termination_by args.length

def Parsed.addOperands? (form : CommandForm) (p : Parsed) (operands : List String) :
    Option Parsed :=
  if p.operands.length + operands.length ≤ form.operand.toList.length
      ∧ operands.all form.accepts then
    some { p with operands := p.operands ++ operands }
  else none

def readCommand (form : CommandForm) (p : Parsed) (args : List String) : Stop :=
  match args with
  | [] => (p.settle?.map Stop.done).getD .misuse
  | arg :: rest =>
    if arg = "--" then
      ((p.settle?.bind (·.addOperands? form rest)).map Stop.done).getD .misuse
    else if isOptionLike arg then
      match takeOption form.options p arg rest with
      | .ok (p, rest') =>
        if rest'.length ≤ rest.length then readCommand form p rest' else .misuse
      | .error stop => stop
    else
      match p.addOperands? form [arg] with
      | some p => readCommand form p rest
      | none => .misuse
termination_by args.length

/-- Settings behind the command go before those in front of it, and both before the schema that the
environment names. A place without schema looks into the environment, where an empty name is a
misuse. -/
def mergeSettings? (environment : Option String) (front behind : Settings) : Option Settings :=
  let bothGiven := front.schema.isSome && behind.schema.isSome
  if environment = some "" && !bothGiven then none
  else some {
    schema := behind.schema.or (front.schema.or environment)
    format := behind.format.or front.format
    config := behind.config.or front.config
    noColor := behind.noColor || front.noColor }

def defaultRows : UInt32 := 20

def command? (name : String) (p : Parsed) : Option Command :=
  match name, p.operands with
  | "compile", [query] => some (.compile query p.page (p.rows.getD defaultRows))
  | "entities", [] => some .entities
  | "check", [expression] => some (.check expression)
  | _, _ => none

def helpRequest : List String → Request
  | [] => .help .program
  | [name] =>
    if name = "help" then .help .help
    else
      match commandForm? name with
      | some form => .help (.command form)
      | none => .misuse
  | _ => .misuse

def parseArguments (environment : Option String) (args : List String) : Request :=
  match readRoot {} args with
  | .operand front name rest =>
    if name = "help" then helpRequest rest
    else
      match commandForm? name with
      | none => .misuse
      | some form =>
        match readCommand form {} rest with
        | .done p =>
          let settings := front.settle?.bind fun front =>
            mergeSettings? environment front.settings p.settings
          match command? name p, settings with
          | some c, some s => .run s c
          | _, _ => .misuse
        | .help => .help (.command form)
        | _ => .misuse
  | .help => .help .program
  | .version => .version
  | _ => .misuse

end FilterSql.CommandLine
