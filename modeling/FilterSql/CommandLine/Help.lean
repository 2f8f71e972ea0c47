import FilterSql.CommandLine.Arguments
import FilterSql.CommandLine.Escape
import FilterSql.CommandLine.Style
/-!
# Help texts

A help text has a page for the program and one for every command: what it is for, how it is used, and
lists of its parts. Titles and what has to be typed literally are emphasized. Where there is no
emphasis, the text is what a device without escape sequences shows of it.
-/
namespace FilterSql.CommandLine

def lines (ls : List String) : String := String.join (ls.map (· ++ "\n"))

def versionLine : String := "criteria 0.3.0"

/-- A piece of a help text in styles that are put on one after the other. -/
structure Span where
  styles : List Style
  text : String

namespace Span

def plain (s : String) : Span := ⟨[], s⟩

def literal (s : String) : Span := ⟨[.strong], s⟩

def title (s : String) : Span := ⟨[.strong, .underlined], s⟩

def render (s : Span) : String :=
  if s.styles.isEmpty then s.text
  else String.join (s.styles.map Style.opening) ++ s.text ++ Style.reset

end Span

def blanks (n : Nat) : String := String.ofList (List.replicate n ' ')

def indentLines (n : Nat) (s : String) : String :=
  String.ofList (s.toList.flatMap fun c =>
    if c = '\n' then '\n' :: List.replicate n ' ' else [c])

structure Entry where
  label : List Span
  text : String

def Entry.width (e : Entry) : Nat := e.label.foldl (fun n s => n + s.text.length) 0

def entryLines (es : List Entry) : List String :=
  let width := (es.map Entry.width).foldl max 0
  es.map fun e => "  " ++ String.join (e.label.map Span.render) ++ blanks (width - e.width) ++ "  " ++
    indentLines (width + 4) e.text

def placeholder (name : String) : String := "<" ++ name ++ ">"

/-- What the list of options says about an option besides its text. -/
def optionNote (environment : Option String) (name : String) : String :=
  match name with
  | "schema" => " [env: CRITERIA_SCHEMA=" ++ environment.getD "" ++ "]"
  | "format" => " [possible values: " ++ ", ".intercalate (OutputFormat.all.map (·.name)) ++ "]"
  | "rows" => " [default: " ++ toString defaultRows ++ "]"
  | _ => ""

def optionEntry (environment : Option String) (o : OptionForm) : Entry where
  label :=
    (match o.letter with
      | some c => [.literal (String.ofList ['-', c]), .plain ", "]
      | none => [.plain "    "]) ++
    [.literal ("--" ++ o.name)] ++
    (if o.takesValue then
      [.plain (" " ++ placeholder (String.ofList (o.name.toList.map Char.toUpper)))]
    else [])
  text := o.text ++ optionNote environment o.name

structure HelpPage where
  text : String
  usage : String × String
  lists : List (String × List Entry)
  closing : List String := []

def HelpPage.render (p : HelpPage) : String :=
  lines <|
    [p.text, "",
      (Span.title "Usage:").render ++ " " ++ (Span.literal p.usage.1).render ++ " " ++ p.usage.2] ++
    p.lists.flatMap (fun l => ["", (Span.title l.1).render] ++ entryLines l.2) ++
    p.closing

def helpText : String := "Print this message or the help of the given subcommand(s)"

def programPage (environment : Option String) : HelpPage where
  text := "Compile filter criteria into SQL"
  usage := ("criteria", "[OPTIONS] <COMMAND>")
  lists := [
    ("Commands:", (commandForms.map fun f => ⟨[.literal f.name], f.text⟩) ++
      [⟨[.literal "help"], helpText⟩]),
    ("Options:", rootOptions.map (optionEntry environment))]
  closing := ["", "EXAMPLES:",
    "    criteria compile query.json --schema schema.toml",
    "    criteria entities --schema schema.json",
    "    criteria check 'Order->id.as.oid'"]

def commandPage (environment : Option String) (f : CommandForm) : HelpPage where
  text := f.text
  usage := ("criteria " ++ f.name,
    " ".intercalate ("[OPTIONS]" :: f.operand.toList.map fun o => placeholder o.name))
  lists :=
    (f.operand.toList.map fun o => ("Arguments:", [⟨[.plain (placeholder o.name)], o.text⟩])) ++
    [("Options:", f.options.map (optionEntry environment))]

def helpPage : HelpPage where
  text := helpText
  usage := ("criteria help", "[COMMAND]...")
  lists := [("Arguments:", [⟨[.plain "[COMMAND]..."], "Print help for the subcommand(s)"⟩])]

def Topic.page (environment : Option String) : Topic → HelpPage
  | program => programPage environment
  | command f => commandPage environment f
  | help => helpPage

/-- The help on a topic, with or without emphasis. -/
def Topic.text (environment : Option String) (emphasized : Bool) (t : Topic) : String :=
  let s := (t.page environment).render
  if emphasized then s else shown s

end FilterSql.CommandLine
