/-
# The program

Reads the paths of the files of the working directory from standard input, one to a line, and runs
the command that the arguments give on them.
-/
import CodeAtlas.Cli.Bundle
import CodeAtlas.Cli.Run

namespace CodeAtlas.Cli

/-- The lines of standard input up to its end. -/
partial def readLines (input : IO.FS.Stream) (lines : List String) : IO (List String) := do
  let line ← input.getLine
  if line.isEmpty then return lines.reverse
  readLines input (Text.trim line :: lines)

/-- The variables that commands ask for. -/
def readEnvironment : IO (List (String × String)) := do
  let names := ["CMTSCOPE_WORKERS", "CMTSCOPE_NO_PRUNE"]
  names.filterMapM fun name => return (← IO.getEnv name).map (name, ·)

/-- Writes a file and makes the directories above it. -/
def writeFile (file : BundleFile) : IO Unit := do
  IO.FS.createDirAll ("/".intercalate (Path.segments file.path).dropLast)
  IO.FS.writeBinFile file.path file.content

/-- Runs the program; the result is its exit code. -/
def program (args : List String) : IO UInt32 := do
  let paths := (← readLines (← IO.getStdin) []).filter (fun path => !path.isEmpty)
  let files ← paths.mapM fun (path : String) => return BundleFile.mk path (← IO.FS.readBinFile path)
  let environment ← readEnvironment
  let before := Bundle.disk files
  let (outcome, after) := run ⟨Bundle.grammar files, fun name => environment.lookup name⟩ args before
  (Bundle.newFiles before after).forM writeFile
  outcome.lines.forM IO.println
  outcome.failure.forM (fun message => IO.eprintln ("Error: " ++ message))
  return outcome.code.toUInt32

end CodeAtlas.Cli

/-- The program. -/
def main (args : List String) : IO UInt32 :=
  CodeAtlas.Cli.program args
