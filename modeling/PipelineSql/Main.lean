import PipelineSql.CommandLine

open PipelineSql PipelineSql.CommandLine

/-- The reason for which the system refuses to read a file. -/
def fileFault : IO.Error → FileFault
  | .inappropriateType _ _ _ => .isADirectory
  | .invalidArgument _ _ _ => .notADirectory
  | _ => .notFound

/-- Files and variables of the running process. -/
def processSurroundings : Surroundings IO where
  readFile := fun path => do
    try return .ok (← IO.FS.readFile path)
    catch e => return .error (fileFault e)
  readVariable := fun name => IO.getEnv name

/-- Prints what a command prints. No database and no layout of SQL are linked in, so what needs one
of them is refused. -/
def main (args : List String) : IO UInt32 := do
  match ← run processSurroundings args with
  | .ok (.print text) =>
    IO.println text
    return 0
  | .ok (.layOut _) =>
    IO.eprintln "no layout is available"
    return 1
  | .ok _ =>
    IO.eprintln "no database is available"
    return 1
  | .error e =>
    IO.eprintln e.message
    return 1
