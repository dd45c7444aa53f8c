import ImportAtlas.Bytes.Word
import ImportAtlas.Error

/-!
# Programs

What a program does when it is started is not part of this library. It is a
function of what the program is given, and the environment has one for the
content of every file that can be started.
-/

namespace ImportAtlas

/-- What a program is given when it is started. -/
structure Invocation where
  arguments : List String
  input : Bytes
  deriving DecidableEq, Repr

/-- What a program leaves behind. -/
structure ProgramRun where
  output : Bytes := []
  /-- What it writes about failures. -/
  report : Bytes := []
  status : ExitStatus := .exited 0
  deriving DecidableEq, Repr

/-- A program that can be started. -/
abbrev Program := Invocation → ProgramRun

/-- What programs are found and started in. -/
structure Environment where
  /-- The directories in which a program is searched for by its name. -/
  searchPath : List Path := []
  /-- The program that a file with the given content is. -/
  program : Bytes → Program := fun _ _ => {}

end ImportAtlas
