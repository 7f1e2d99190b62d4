import LineScope.CommandLine.Run

/-!
# The program

Reads the files that the command line names, runs it, and writes what the run has written.
-/

namespace LineScope.CommandLine

/-- What stands behind a path now. -/
def look (path : String) : IO Found := do
  try
    return .file (← IO.FS.readBinFile path).toList
  catch error =>
    match error with
    | .inappropriateType .. => return .directory
    | _ => return .missing

/-- What stands behind the paths that a command line names. -/
def lookAll (arguments : List String) : IO Files := do
  let paths := (settingsOf arguments).toOption.elim [] Settings.paths
  let found ← paths.mapM fun path => do return (path, ← look path)
  return fun path => (found.lookup path).getD .missing

/-- How the program is called. -/
def usageLine : String :=
  "usage: exscope [-h] [--line LINE] [--definition MODULE FUNCTION] [--fix] " ++
    "[--max-fix-attempts MAX_FIX_ATTEMPTS] [--doc-index DOC_INDEX] [--ast] [-v] file"

/-- What is said about a run without an output. -/
def Stop.notice : Stop → String
  | .usage _ => usageLine
  | .escape _ => "exscope: error: the analysis did not finish"
  | .index _ => "exscope: error: the doc index has the wrong form"
  | .unwritable => "exscope: error: an integer is too long to be written"

end LineScope.CommandLine

open LineScope.CommandLine in
/-- Runs the command line. -/
def main (arguments : List String) : IO UInt32 := do
  let files ← lookAll arguments
  let environment := ⟨files, ← IO.getEnv "NO_COLOR", ← IO.getEnv "EXSCOPE_COLOR"⟩
  match run environment arguments with
  | .ok output =>
    IO.print output.stdout
    IO.eprint output.stderr
    return output.exitCode.toUInt32
  | .error stop =>
    IO.eprintln stop.notice
    return stop.exitCode.toUInt32
