import FilterSql.CommandLine.Run
/-!
# The program
-/
open FilterSql.CommandLine

def environmentNames : List String :=
  ["CRITERIA_SCHEMA", "CLICOLOR", "CLICOLOR_FORCE", "NO_COLOR", "XDG_CONFIG_HOME", "HOME"]

/-- The file system and the environment of this process. -/
def systemHost : IO (Host IO) := do
  let environment ← environmentNames.filterMapM fun n => do
    return (← IO.getEnv n).map fun v => (n, v)
  return {
    read? := fun path => try return some (← IO.FS.readFile path) catch _ => return none
    exists? := fun path => try
        let _ ← IO.FS.Handle.mk path .read
        return true
      catch _ => return false
    environment := fun name => environment.lookup name
    terminal := ← (← IO.getStdout).isTty }

def main (args : List String) : IO UInt32 := do
  let report ← run (← systemHost) args
  IO.print report.output
  IO.eprint report.errors
  return report.exit.toUInt32
