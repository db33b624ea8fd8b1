import FirewallLists.Config.Problem

/-
  The command line: check a configuration file and report all that is wrong with it.
-/

namespace FirewallLists

/-- Something can be found at the path. -/
def pathExists (path : String) : IO Bool := do
  try
    discard (IO.FS.realPath path)
    return true
  catch _ => return false

/-- Read a configuration file. -/
def readConfig (path : String) : IO (Except Config.Failure Config) := do
  try
    return Config.ofText (← IO.FS.readFile path)
  catch _ => return .error .unreadable

/-- What is wrong with a configuration on this machine. -/
def problemsHere (c : Config) : IO (List Problem) := do
  let directoryExists ← match c.storeDirectory? with
    | some directory => pathExists directory
    | none => pure true
  return c.problems fun _ => directoryExists

end FirewallLists

open FirewallLists in
def main (args : List String) : IO UInt32 := do
  let path := args.headD "edgelist.toml"
  match ← readConfig path with
  | .error failure =>
    IO.eprintln (failure.message ++ ": " ++ path)
    return 1
  | .ok c =>
    let problems ← problemsHere c
    for problem in problems do
      IO.eprintln problem.message
    if problems.isEmpty then
      IO.println (c.server.name ++ " may listen on " ++ c.server.listen.toText)
      return 0
    IO.eprintln (toString problems.length ++ " configuration error(s) in " ++ path)
    return 1
