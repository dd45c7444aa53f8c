import ImportAtlas.Command.Run

/-!
# The program

Commands work on a file tree that is a value. The program fills one with the
files the command line names and, for a report, with those listed on the
standard input, one path a line, each with its compiled sibling. It runs the
command, prints what it says, and writes the files that have changed. No
interpreter is part of the tree, so sources are read from compiled siblings.
-/

namespace ImportAtlas.Main

open Command

/-- The files a command line names: those it may read, and those it may write. -/
def namedFiles (home : Path) (line : CommandLine) : List Path × List Path :=
  let resolve (path : Path) : Path :=
    if path.isAbsolute then path else (line.cwd.getD home).join path
  match line.request with
  | .version => ([], [])
  | .scan request =>
    let file := resolve request.file
    ([file, compiledPath file], [])
  | .report request =>
    let root := resolve (request.root.getD (line.cwd.getD home))
    ([root, compiledPath root, root.join ProjectSettings.fileName],
      request.output.toList.map resolve)
  | .compile request => ([resolve request.file], [resolve request.emit])

/-- Whether a command looks at files that it does not name. -/
def surveys (line : CommandLine) : Bool :=
  match line.request with
  | .report _ => true
  | _ => false

/-- The lines of a stream, without their ends. -/
partial def readLines (stream : IO.FS.Stream) (done : Array String) : IO (List String) := do
  let line ← stream.getLine
  if line.isEmpty then return done.toList
  else readLines stream (done.push (String.ofList (Text.chomp '\n' line.toList)))

/-- Adds a file to the tree if it can be read. -/
def load (tree : FileTree) (path : Path) : IO FileTree := do
  try
    let content ← IO.FS.readBinFile path.text
    return tree.install path (.file { content := content.toList })
  catch _ => return tree

/-- The files below the root of a tree, by absolute paths. -/
def contents (tree : FileTree) : List (Path × RegularFile) :=
  (tree.filesBelow ⟨"/"⟩).toOption.getD []

/-- Writes the files that are new or have changed. -/
def store (before after : FileTree) : IO Unit := do
  let old := contents before
  for (path, file) in contents after do
    unless old.any fun (other, kept) => other == path && kept.content == file.content do
      IO.FS.writeBinFile path.text (ByteArray.mk file.content.toArray)

/-- The tree a command line works on. -/
def snapshot (home : Path) (line : CommandLine) : IO FileTree := do
  let (read, written) := namedFiles home line
  let listed ← if surveys line then readLines (← IO.getStdin) #[] else pure []
  let start : FileTree := FileTree.atDirectory home
  let sources := listed.flatMap fun path => [⟨path⟩, compiledPath ⟨path⟩]
  let tree ← (read ++ sources).foldlM load start
  return written.foldl (fun tree path => tree.install (FileTree.directoryOf path) .empty) tree

end ImportAtlas.Main

open ImportAtlas in
/-- Runs the words of a command line. -/
def main (words : List String) : IO UInt32 := do
  let home : Path := ⟨toString (← IO.currentDir)⟩
  let tree ← match Command.CommandLine.read words with
    | .ok line => Main.snapshot home line
    | .error _ => pure (FileTree.atDirectory home)
  match Command.respond tree 1 home words with
  | .usage =>
    (← IO.getStderr).putStrLn "usage: compage [OPTIONS] [COMMAND]"
    return UInt32.ofNat Command.usageStatus
  | .done outcome =>
    Main.store tree outcome.tree
    (← IO.getStdout).putStr outcome.output
    (← IO.getStderr).putStr (Command.unlines outcome.notes)
    return UInt32.ofNat outcome.status
