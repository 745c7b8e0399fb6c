import Datebook.Launch.Program

/-!
# The command line

The first argument names one of the programs, which is started with the others. What it shows or why
it gives up is printed, and the exit code tells which. No broker can be reached from here.
-/

namespace Datebook

/-- The entries of the environment that a program looks at. -/
def readEnvironment : IO (List (String × String)) :=
  ("HOME" :: "CALENDAR_CONFIG" :: Settings.entryNames).filterMapM fun name => do
    return (← IO.getEnv name).map fun value => (name, value)

/-- The file of a path as the only one that there is, if it can be read. -/
def readFolder (path : String) : IO Folder := do
  try
    let content ← IO.FS.readBinFile path
    return Folder.addFile ⟨[]⟩ [] path content.toList
  catch _ => return ⟨[]⟩

/-- What a program that is started here finds. -/
def readSurroundings (arguments : List String) : IO Surroundings := do
  let bare : Surroundings :=
    ⟨arguments, ← readEnvironment, ⟨[]⟩, [], .error (.unavailable "no broker here")⟩
  match Arguments.ofTexts arguments with
  | .run given => return { bare with folder := ← readFolder (bare.configPath given) }
  | _ => return bare

/-- Prints how a start has ended. -/
def report (p : Program) : Launch → IO Unit
  | .shown text => IO.print text
  | .misused => IO.eprint p.help
  | .failed e => IO.eprintln ("Error: " ++ e.message)
  | .running _ => IO.println (p.name ++ " is ready")

end Datebook

open Datebook in
def main (arguments : List String) : IO UInt32 := do
  match arguments with
  | [] => IO.eprintln "name a program: calendar, calendar-scheduler or calendar-storer"; return 2
  | name :: rest =>
    match Program.ofName? name with
    | none => IO.eprintln ("unknown program: " ++ name); return 2
    | some p =>
      let (outcome, _) := p.launch (← readSurroundings rest)
      report p outcome
      return outcome.exitCode.toUInt32
