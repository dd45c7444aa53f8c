/-!
# Failures of the file system

The reasons for which the operating system refuses an operation on files, with
the text and number it gives for each.
-/

namespace ImportAtlas

inductive SystemError where
  | notFound
  | permissionDenied
  | busy
  | notDirectory
  | isDirectory
  | noSpace
  | nameTooLong
  | tooManyLinks
  /-- A file that was to be read as text is not UTF-8. -/
  | notText
  /-- A path with a zero character, which no file can have. -/
  | nulInPath
  /-- The same in the name or an argument of a program. -/
  | nulInArgument
  deriving DecidableEq, Repr

def SystemError.message : SystemError → String
  | .notFound => "No such file or directory (os error 2)"
  | .permissionDenied => "Permission denied (os error 13)"
  | .busy => "Device or resource busy (os error 16)"
  | .notDirectory => "Not a directory (os error 20)"
  | .isDirectory => "Is a directory (os error 21)"
  | .noSpace => "No space left on device (os error 28)"
  | .nameTooLong => "File name too long (os error 36)"
  | .tooManyLinks => "Too many levels of symbolic links (os error 40)"
  | .notText => "stream did not contain valid UTF-8"
  | .nulInPath => "file name contained an unexpected NUL byte"
  | .nulInArgument => "nul byte found in provided data"

end ImportAtlas
