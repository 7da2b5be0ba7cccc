import CallForest.Command.Run

/-!
# The command

The files that a run may look at are listed on standard input, one path a line, relative to the
working directory. They are read into a workspace, the run is made there, and what it has written
and printed is passed on.
-/

namespace CallForest

/-- The lines of standard input up to its end. -/
partial def inputLines (input : IO.FS.Stream) (read : List String) : IO (List String) := do
  let line ← input.getLine
  if line.isEmpty then return read.reverse
  else inputLines input ((line.dropEndWhile (fun c => c = '\n' || c = '\r')).toString :: read)

/-- The tree with the file at a path, if it can be read. -/
def loadFile (tree : FileTree) (path : String) : IO FileTree := do
  let names := (Path.pieces path).filter fun piece => piece ≠ "" && piece ≠ "."
  try
    let content ← IO.FS.readBinFile path
    return tree.set (.file content.toList) names
  catch _ => return tree

/-- Writes the file that a run was asked to write. -/
def saveFile (workspace : Workspace) (path : String) : IO Unit :=
  match workspace.read path with
  | .ok content => IO.FS.writeBinFile path (ByteArray.mk content.toArray)
  | .error _ => pure ()

end CallForest

open CallForest in
/-- Runs the command on the listed files. -/
def main (arguments : List String) : IO UInt32 := do
  let paths ← inputLines (← IO.getStdin) []
  let files ← paths.foldlM loadFile .empty
  let run : StateM Workspace CommandOutcome := runCommand arguments
  let (outcome, workspace) := run.run (.ofDirectory files none)
  match Invocation.ofArguments arguments with
  | .analyse options =>
    if outcome.status = 0 then options.output.forM (saveFile workspace)
  | _ => pure ()
  IO.print outcome.output
  outcome.complaint.forM fun complaint => IO.eprintln ("Error: " ++ complaint)
  return outcome.status.toUInt32
