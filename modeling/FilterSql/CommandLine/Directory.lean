import FilterSql.Text.Blank
import FilterSql.Dictionary
/-!
# Paths and directories

A path is a list of names between slashes. A directory tree held in memory is given by its files;
a path is followed in it name by name.
-/
namespace FilterSql

namespace Path

def names (path : String) : List String :=
  (path.toList.splitOn '/').map String.ofList

def isAbsolute (path : String) : Bool := path.toList.head? == some '/'

def fileName? (path : String) : Option String :=
  match ((names path).filter fun n => n != "" && n != ".").getLast? with
  | some ".." => none
  | n => n

/-- What follows the last point of a file name; a point at the start does not count. -/
def extension? (path : String) : Option String :=
  match (fileName? path).map fun n => (n.toList.reverse.span (· != '.')) with
  | some (e, _ :: _ :: _) => some (String.ofList e.reverse)
  | _ => none

end Path

structure Directory where
  files : List (List String × String)
  folders : List (List String) := []

namespace Directory

def isFile (d : Directory) (place : List String) : Bool := d.files.any (·.1 == place)

/-- A directory is there if it is the root, if a file lies in it, or if it is or holds one of those
that may be empty. -/
def isDirectory (d : Directory) (place : List String) : Bool :=
  place.isEmpty || d.folders.any place.isPrefixOf ||
    d.files.any fun f => place.isPrefixOf f.1 && f.1 != place

def follow? (d : Directory) : List String → List String → Option (List String)
  | place, [] => some place
  | place, n :: ns =>
    if !d.isDirectory place then none
    else if n = "" || n = "." then d.follow? place ns
    else if n = ".." then d.follow? place.dropLast ns
    else
      let next := place ++ [n]
      if d.isFile next || d.isDirectory next then d.follow? next ns else none

def find? (d : Directory) (place : List String) (path : String) : Option (List String) :=
  if path.isEmpty then none
  else d.follow? (if Path.isAbsolute path then [] else place) (Path.names path)

def read? (d : Directory) (place : List String) (path : String) : Option String := do
  d.files.lookup (← d.find? place path)

end Directory
end FilterSql
