import FilterSql.CommandLine.Arguments
import FilterSql.CommandLine.Directory
import FilterSql.CommandLine.Help
import FilterSql.CommandLine.Style
import FilterSql.Document.Query
import FilterSql.Document.Schema
import FilterSql.Query.Compile
/-!
# The command line

What the program prints for given arguments, files and environment. Reading files is left to a
host, so the same program runs on a file system and on a directory held in memory.
-/
namespace FilterSql.CommandLine

structure Host (m : Type → Type) where
  read? : String → m (Option String)
  exists? : String → m Bool
  environment : String → Option String
  terminal : Bool

structure Report where
  exit : UInt8
  output : String := ""
  errors : String := ""

/-- An error, and what was being done when it arose. -/
structure Failure where
  doing : Option String := none
  cause : Option Error := none

def Failure.message (f : Failure) : String :=
  ": ".intercalate (f.doing.toList ++ (f.cause.map Error.message).toList)

def during (doing : String) (e : Error) : Failure := ⟨some doing, some e⟩

def plainFailure (e : Error) : Failure := ⟨none, some e⟩

def queryJson (q : Query) (paged : Option String) : Json :=
  .record [
    ("binds", .list (q.binds.map Value.toJson)),
    ("count", .text q.count),
    ("data", .text q.data),
    ("mapper", match q.names with
      | some names => .record (names.sorted.map fun e => (e.1, .text e.2))
      | none => .null),
    ("paged", match paged with
      | some s => .text s
      | none => .null),
    ("template", .text q.template)]

def statementLines (colored : Bool) (heading sql : String) : List String :=
  [paint colored .heading heading, "  " ++ paint colored .plain sql]

def bindLines (colored : Bool) (binds : List Value) : List String :=
  if binds.isEmpty then []
  else ["", paint colored .subheading "Bindings:"] ++
    (List.zipIdx binds 1).map fun b =>
      "  ?" ++ toString b.2 ++ " = " ++ paint colored .value b.1.display

def nameLines (colored : Bool) : Option NameTable → List String
  | none => []
  | some names => ["", paint colored .subheading "Names:"] ++
    names.sorted.map fun e =>
      "  " ++ paint colored .plain e.1 ++ " " ++ paint colored .faint "→" ++ " " ++
        paint colored .value e.2

def queryLines (colored : Bool) (q : Query) (paged : Option String) : List String :=
  statementLines colored "Count:" q.count ++ statementLines colored "Data:" q.data ++
    statementLines colored "Template:" q.template ++
    (match paged with
      | some s => statementLines colored "Paged:" s
      | none => []) ++
    bindLines colored q.binds ++ nameLines colored q.names

def columnWidth : Nat := 20

def fieldJson (f : String × Field) : Json :=
  .record [("column", .text f.2.column), ("nullable", .flag f.2.nullable),
    ("property", .text f.1), ("type", .text f.2.kind.name)]

def entityJson (e : Entity) : Json :=
  .record [("entity", .text e.name), ("fields", .list (e.fields.sorted.map fieldJson)),
    ("table", .text e.table)]

def fieldLine (colored : Bool) (f : String × Field) : String :=
  "    " ++ paintWide colored .plain columnWidth f.1 ++ " " ++
    paintWide colored .value columnWidth f.2.column ++ " " ++
    paint colored .faint f.2.kind.name ++
    paint colored .faint (if f.2.nullable then "?" else "")

def entityLines (colored : Bool) (e : Entity) : List String :=
  (paint colored .name e.name ++ " " ++ paint colored .faint "→" ++ " " ++
    paint colored .plain e.table) :: e.fields.sorted.map (fieldLine colored)

def registryLines (colored : Bool) (r : Registry) : List String :=
  if r.isEmpty then [paint colored .faint "(no entities)"]
  else r.sorted.flatMap (entityLines colored) ++
    ["", paint colored .subheading (toString r.size) ++ " entit(ies) registered"]

def optionalText : Option String → Json
  | some s => .text s
  | none => .null

def expressionJson (input : String) (x : Expression) : Json :=
  .record [("alias", optionalText x.aliasName), ("entity", optionalText x.entity),
    ("function", optionalText x.function), ("input", .text input),
    ("property", .text x.property), ("sql", .text x.sql)]

def expressionLines (colored : Bool) (input : String) (x : Expression) : List String :=
  [paint colored .faint "Input:" ++ " " ++ paint colored .value input,
    paint colored .heading "SQL:" ++ " " ++ paint colored .plain x.sql]

def printed (config : Config) (json : Json) (text : List String) : String :=
  match config.output with
  | .json => json.indented ++ "\n"
  | .text => lines text

section

variable {m : Type → Type} [Monad m] (host : Host m)

def readFile (path : String) : m (Except Error String) := do
  match ← host.read? path with
  | some s => return .ok s
  | none => return .error .unreadable

/-- The directory for configurations: the one that the environment names by an absolute path, or
the one in the home directory. -/
def configDirectory : Option String :=
  match (host.environment "XDG_CONFIG_HOME").filter Path.isAbsolute with
  | some d => some d
  | none => (host.environment "HOME").map (· ++ "/.config")

def configPath : Option String :=
  (configDirectory host).map (· ++ "/criteria-sql/config.toml")

def loadConfigFile (path doing : String) : m (Except Failure Config) := do
  return ((← readFile host path).bind Config.parse).mapError (during doing)

/-- The configuration: that of the file named by the options, or that of the usual file if it is
there, and the options on top. -/
def loadConfig (s : Settings) : m (Except Failure Config) := do
  let base ← match s.config with
    | some path => loadConfigFile host path ("Failed to read config " ++ path)
    | none =>
      match configPath host with
      | some path =>
        if ← host.exists? path then loadConfigFile host path "Failed to read default config"
        else pure (.ok {})
      | none => pure (.ok {})
  return base.map fun c => c.override {
    schemaPath := s.schema
    output := s.format
    color := if s.noColor then some false else none }

def schemaFormat (path : String) : Schema.Format :=
  if Path.extension? path = some "json" then .json else .toml

def loadRegistry (config : Config) : m (Except Failure Registry) := do
  match config.schemaPath with
  | none =>
    return .error ⟨some "No schema given. Use --schema or set schema_path in the config file",
      none⟩
  | some path =>
    return ((← readFile host path).bind (Schema.parse (schemaFormat path))).mapError
      (during ("Failed to load schema " ++ path))

/-- Compile a document. A page asked for by the options goes before the document's own. -/
def compileText (config : Config) (colored : Bool) (registry : Registry) (page : Option Paging)
    (document : QueryDocument) : Except Failure String := do
  let c ← (document.build registry.resolve).mapError plainFailure
  let q ← (c.compile registry.resolve).mapError plainFailure
  let paged := (page.or c.paging).map q.paged
  return printed config (queryJson q paged) (queryLines colored q paged)

def runCommand (config : Config) (colored : Bool) : Command → m (Except Failure String)
  | .compile query page rows => do
    match ← loadRegistry host config with
    | .error f => return .error f
    | .ok registry =>
      let document := ((← readFile host query).bind QueryDocument.parse).mapError
        (during ("Failed to read query " ++ query))
      return document.bind (compileText config colored registry (page.map (⟨·, rows⟩)))
  | .entities => do
    return (← loadRegistry host config).map fun r =>
      printed config (.list (r.sorted.map entityJson)) (registryLines colored r)
  | .check expression =>
    return ((Expression.parse expression).mapError plainFailure).map fun x =>
      printed config (expressionJson expression x) (expressionLines colored expression x)

def failureReport (colored : Bool) (f : Failure) : Report where
  exit := 1
  errors := paint colored .failure "Error:" ++ " " ++ f.message ++ "\n"

def run (args : List String) : m Report := do
  let environment := host.environment "CRITERIA_SCHEMA"
  match parseArguments environment args with
  | .help topic =>
    let emphasized := wantsEmphasis (host.environment "CLICOLOR_FORCE")
      (host.environment "NO_COLOR") (host.environment "CLICOLOR") host.terminal
    return { exit := 0, output := topic.text environment emphasized }
  | .version => return { exit := 0, output := lines [versionLine] }
  | .misuse =>
    return { exit := 2, errors := "error: invalid arguments\n\nFor more information, try '--help'.\n" }
  | .run settings command =>
    let wanted := wantsColor (host.environment "CLICOLOR_FORCE") (host.environment "NO_COLOR")
      (host.environment "CLICOLOR") host.terminal
    match ← loadConfig host settings with
    | .error f => return failureReport wanted f
    | .ok config =>
      let colored := wanted && config.color
      match ← runCommand host config colored command with
      | .ok output => return { exit := 0, output := output }
      | .error f => return failureReport colored f

end

/-- A host whose files are those of a directory held in memory, with paths followed from the
given place. -/
def memoryHost (d : Directory) (place : List String) (environment : List (String × String)) :
    Host Id where
  read? path := d.read? place path
  exists? path := (d.find? place path).isSome
  environment name := environment.lookup name
  terminal := false

end FilterSql.CommandLine
