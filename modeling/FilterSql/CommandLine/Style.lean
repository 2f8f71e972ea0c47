import FilterSql.Text.Replace
/-!
# Colors of a terminal

A text is painted by putting an escape sequence in front of it and another behind it, which sets
everything back. Where the text itself sets everything back, the paint is put on again.
-/
namespace FilterSql.CommandLine

structure Style where
  codes : String

namespace Style

def heading : Style := ⟨"1;32"⟩
def name : Style := ⟨"1;36"⟩
def failure : Style := ⟨"1;31"⟩
def plain : Style := ⟨"37"⟩
def value : Style := ⟨"33"⟩
def subheading : Style := ⟨"36"⟩
def faint : Style := ⟨"2"⟩
def strong : Style := ⟨"1"⟩
def underlined : Style := ⟨"4"⟩

def opening (s : Style) : String := "\x1b[" ++ s.codes ++ "m"

def reset : String := "\x1b[0m"

end Style

def pad (width : Nat) (s : String) : String :=
  s ++ String.ofList (List.replicate (width - s.length) ' ')

def paintWide (colored : Bool) (style : Style) (width : Nat) (s : String) : String :=
  if colored then
    let inside := Text.replace Style.reset.toList (Style.reset ++ style.opening).toList s.toList
    style.opening ++ pad width (String.ofList inside) ++ Style.reset
  else pad width s

def paint (colored : Bool) (style : Style) (s : String) : String := paintWide colored style 0 s

/-- Whether the environment asks for colors: by force, or because the output is a terminal and
nothing speaks against it. -/
def wantsColor (force noColor color : Option String) (terminal : Bool) : Bool :=
  if force.any (· != "0") then true
  else if noColor.isSome then false
  else color.all (· != "0") && terminal

/-- Whether the environment asks for emphasis in help texts. Here an empty variable says nothing, any
other text in `force` asks for it, and a text in `noColor` goes before that. -/
def wantsEmphasis (force noColor color : Option String) (terminal : Bool) : Bool :=
  if noColor.any (!·.isEmpty) then false
  else if force.any (!·.isEmpty) then true
  else color.all (· != "0") && terminal

end FilterSql.CommandLine
