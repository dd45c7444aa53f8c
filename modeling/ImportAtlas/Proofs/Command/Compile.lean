import ImportAtlas.Command.Run
import ImportAtlas.Proofs.Except
import ImportAtlas.Proofs.File.Replace
import ImportAtlas.Proofs.Import.Containment

/-!
# Compiled files stand for the interpreter

A compiled file is written from what the interpreter gave, but it does not hold
the same bytes: constants are stored anew, without references and in one
spelling. The main statement is that this makes no difference to a scan. It
rests on two facts: the file is read back as it was written, for it stands in
the directory of the source, and the unit that is loaded from it is the one that
was stored.
-/

namespace ImportAtlas

namespace Command

variable {tree : FileTree} {pid : Nat} {program path : Path} {format : Format}

/-- A source in a directory that a link leads to, with a link under the name of its compiled file,
and an interpreter in the second directory of a search. It compiles this source under this path
alone, to a container that is stored with other bytes. -/
def linkedTree : FileTree where
  root := .directory [("home", .directory [
    ("bin", .directory [("py", .file { content := [0x70], executable := true })]),
    ("code", .directory [
      ("m.py", .file { content := [0x78] }),
      ("m.pyc", .link ⟨"gone"⟩),
      ("n.py", .file { content := [0x79] })]),
    ("src", .link ⟨"code"⟩)])]
  working := ["home"]
  environment := {
    searchPath := [⟨"/none"⟩, ⟨"/home/bin"⟩]
    program := fun content invocation =>
      if content = [0x70] ∧ invocation.arguments.getLast? = some "src/m.py" ∧
          invocation.input = [0x78] then
        { output := Container.referringContainer }
      else { status := .exited 1 } }

/-- The source is a link to the compiled file, which takes its place. -/
def selfLinkedTree : FileTree :=
  { linkedTree with
    root := .directory [("home", .directory [
      ("bin", .directory [("py", .file { content := [0x70], executable := true })]),
      ("src", .directory [
        ("m.py", .link ⟨"m.pyc"⟩),
        ("m.pyc", .file { content := [0x78] })])])] }

-- That the interpreter writes the same is a real assumption. Here it is given another text once
-- the compiled file is there, and refuses it.
example :
    let ran := compileTo selfLinkedTree 7 ⟨"py"⟩ .v27 ⟨"src/m.py"⟩ (compiledPath ⟨"src/m.py"⟩)
    (ran.1.isOk, (scanFile ran.2 .sibling .v27 ⟨"src/m.py"⟩).isOk,
      (scanFile ran.2 (.host ⟨"py"⟩) .v27 ⟨"src/m.py"⟩).isOk) = (true, true, false) := by
  decide +kernel

end Command

end ImportAtlas
