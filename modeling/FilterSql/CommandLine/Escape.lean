/-!
# Escape sequences

What a text shows on a device that knows no escape sequences. Sequences are left out, and so are
control characters, but for the four that are blanks. A blank control character inside a sequence is
shown, and with it the characters behind it up to the next one that is not shown; there the sequence
goes on.
-/
namespace FilterSql.CommandLine

inductive EscapeState where
  | ground
  | escape
  | intermediate
  | control
  | deviceStart
  | deviceParameter
  | deviceIntermediate
  /-- In a string for a device, the end of which is an escape or the byte `9c`. -/
  | string
  | command
  deriving DecidableEq, Repr

namespace EscapeState

def isBetween (low high c : Char) : Bool := low ≤ c && c ≤ high

def next (s : EscapeState) (c : Char) : EscapeState :=
  if c = '\x1b' then escape
  else if c = '\x18' || c = '\x1a' then ground
  else
    match s with
    | ground => ground
    | escape =>
      if c = '[' then control
      else if c = ']' then command
      else if c = 'P' then deviceStart
      else if c = 'X' || c = '^' || c = '_' then string
      else if isBetween ' ' '/' c then intermediate
      else if isBetween '0' '~' c then ground
      else escape
    | intermediate => if isBetween '0' '~' c then ground else intermediate
    | control => if isBetween '@' '~' c then ground else control
    | deviceStart =>
      if isBetween ' ' '/' c then deviceIntermediate
      else if isBetween '0' '?' c then deviceParameter
      else if isBetween '@' '~' c then string
      else deviceStart
    | deviceParameter =>
      if isBetween ' ' '/' c then deviceIntermediate
      else if isBetween '<' '~' c then string
      else deviceParameter
    | deviceIntermediate => if isBetween '0' '~' c then string else deviceIntermediate
    | string => if (String.utf8EncodeChar c).contains 0x9c then ground else string
    | command => if c = '\x07' then ground else command

def isBlankControl (c : Char) : Bool := c == '\t' || c == '\n' || c == '\x0c' || c == '\r'

def shows (s : EscapeState) (c : Char) : Bool :=
  match s with
  | ground => isBlankControl c || (0x20 ≤ c.toNat && c.toNat != 0x7f)
  | escape | intermediate | control => isBlankControl c
  | _ => false

end EscapeState

/-- What is shown of a text from a state on; `showing` says that the character in front was shown.
A shown character that is not ASCII ends the sequence that it stands in. -/
def shownFrom (showing : Bool) (s : EscapeState) : List Char → List Char
  | [] => []
  | c :: cs =>
    if (if showing then EscapeState.ground else s).shows c then
      c :: shownFrom true (if c.toNat < 0x80 then s else .ground) cs
    else shownFrom false (s.next c) cs

def shown (s : String) : String := String.ofList (shownFrom false .ground s.toList)

end FilterSql.CommandLine
