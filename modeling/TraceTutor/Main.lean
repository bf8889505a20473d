import TraceTutor.CommandLine
import TraceTutor.Viewer.Replay

/-!
# The program

Reads the command line and the files it names, and prints a report or replays the run. The replay
prints the screen and reads the name of a key from each line of input.
-/

namespace TraceTutor

namespace Console

/-- The content of a file. -/
def load (name : String) : IO CommandLine.FileContent := do
  try
    return .ofBytes (← IO.FS.readBinFile name)
  catch
    | .noFileOrDirectory .. => return .missing
    | error => return .unreadable (toString error)

def screenWidth : Nat := 100

def screenHeight : Nat := 30

def printPicture (picture : Viewer.Picture) : IO Unit :=
  for row in picture do
    IO.println (String.ofList (row.map Viewer.Cell.char))

/-- Draws the screen and answers keys until the viewer is closed or the input ends. -/
partial def replay (input : IO.FS.Stream) (r : Viewer.Replay) : IO Unit := do
  let (picture, r) := r.draw screenWidth screenHeight
  printPicture picture
  unless r.closed do
    let line ← input.getLine
    unless line.isEmpty do
      let name := String.ofList (Text.trim line.toList)
      replay input ((Viewer.Replay.Key.ofText? name).elim r.tick r.respond)

/-- Answers a request, in print or as a replay. -/
def simulate (options : CommandLine.Options) : IO UInt32 := do
  let started ← IO.monoMsNow
  match ← (CommandLine.simulate load options).run with
  | .error failure =>
    IO.eprintln failure.message
    return 1
  | .ok (request, report) =>
    if options.json then
      IO.println (report.toDocument ((← IO.monoMsNow) - started)).pretty
    else
      replay (← IO.getStdin) (.start report request.source request.learner.isSome)
    return 0

/-- Does what the arguments ask for, and yields the exit code. -/
def run (args : List String) : IO UInt32 :=
  match CommandLine.parse args with
  | none => do
    IO.eprintln CommandLine.usageText
    return 2
  | some .version => do
    IO.println CommandLine.versionText
    return 0
  | some .help => do
    IO.println CommandLine.usageText
    return 0
  | some (.simulate options) => simulate options

end Console

end TraceTutor

def main (args : List String) : IO UInt32 :=
  TraceTutor.Console.run args
