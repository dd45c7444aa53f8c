/-!
# Name and version of the program
-/

namespace ImportAtlas.Release

def programName : String := "compage"

def version : String := "0.2.0"

/-- Version of the documents written for other programs. -/
def schemaVersion : Nat := 1

/-- The program with its version. -/
def title : String := programName ++ " " ++ version

end ImportAtlas.Release
