import Stencil.Launch

/-!
The command. It takes a picture of the files around it, runs the program on the
picture, prints what the program has written, and carries changed files back.
The picture holds the working directory, the application's directory, the
library and the directory of the program.
-/

namespace Stencil.Main

def pictureDepth : Nat := 64

/-- Adds a file, or a directory with what is in it. What cannot be read is left
out. -/
def addEntry : Nat → FileTree → IO.FS.DirEntry → IO FileTree
  | 0, tree, _ => return tree
  | depth + 1, tree, entry => do
    let path := entry.path.toString
    try
      if ← entry.path.isDir then
        let mut grown := (tree.makeDirectories path).getD tree
        for inner in ← entry.path.readDir do
          grown ← addEntry depth grown inner
        return grown
      else return (tree.overwrite path (← IO.FS.readBinFile entry.path)).getD tree
    catch _ => return tree

def addDirectory (tree : FileTree) (dir : String) : IO FileTree := do
  let path := (← IO.currentDir) / dir
  if ← path.isDir then
    let mut grown := (tree.makeDirectories path.toString).getD tree
    for entry in ← path.readDir do
      grown ← addEntry pictureDepth grown entry
    return grown
  else return tree

def picture : IO FileTree := do
  let names := (Path.names (← IO.currentDir).toString).filter (· ≠ "")
  addDirectory { workingDir := names.reverse, nodes := .empty } "."

def readInput : IO ByteArray := do
  let stream ← IO.getStdin
  let mut bytes := ByteArray.empty
  repeat
    let chunk ← stream.read 65536
    if chunk.isEmpty then break
    bytes := bytes ++ chunk
  return bytes

def surroundings (i : Invocation) : IO Surroundings := do
  let home := (← IO.getEnv "HOME").filter (!·.isEmpty)
  let library ← IO.getEnv "PAD_STDLIB"
  let files ← addDirectory (← picture) (Settings.ofHome home).appDir
  let (settings, _) := Settings.load files home library
  let files ← addDirectory files (i.library.getD settings.library)
  let files ← match i.file.bind Path.parent? with
    | some dir => addDirectory files dir
    | none => pure files
  let input ← if i.file.isSome then pure .empty else readInput
  return { files, home, library, input }

/-- Writes what has changed, directories before what lies in them. -/
def carryBack (before after : FileTree) : IO Unit := do
  for (path, node) in before.changes after do
    match node with
    | .directory => IO.FS.createDirAll path
    | .file content => IO.FS.writeBinFile path content

def run (i : Invocation) : IO UInt32 := do
  let around ← surroundings i
  match i.launch Eval.plenty around with
  | none => return 1
  | some after =>
    carryBack around.files after.files
    IO.print after.out
    IO.eprint after.err
    return after.status.toUInt32

def explain (stop : UsageStop) : IO UInt32 := do
  match stop with
  | .help =>
    IO.println CommandLine.usage
    return 0
  | .version =>
    IO.println CommandLine.version
    return 0
  | stop =>
    IO.eprintln (stop.message ++ "\n\n" ++ CommandLine.usage)
    return 2

end Stencil.Main

def main (words : List String) : IO UInt32 :=
  match Stencil.CommandLine.read ("pad" :: words) with
  | .ok i => Stencil.Main.run i
  | .error stop => Stencil.Main.explain stop
