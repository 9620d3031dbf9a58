/-!
# Paths of files, and why a file operation fails

A path is a text in which slashes separate names.  It starts at the root if it begins with a slash,
and else at the current directory.  `Path.ofString` takes the text apart; `join` and `exported` work
on the text, because a path is shown as it was written.

The causes of failures are those of the operating system, with its words and its numbers.
-/

namespace TransferCost
namespace Files

/-! ## Paths -/

/-- A path taken apart. -/
structure Path where
  isAbsolute : Bool
  /-- The names, the innermost first.  Empty names are left out. -/
  names : List String
  /-- The path ends in a slash, which only a directory may have behind it. -/
  endsInSlash : Bool
deriving DecidableEq

/-- A path with this text starts at the root. -/
def isAbsolute (path : String) : Bool :=
  path.toList.head? = some '/'

/-- Takes a path apart. -/
def Path.ofString (path : String) : Path where
  isAbsolute := Files.isAbsolute path
  names := (((path.toList.splitOn '/').filter (· ≠ [])).map String.ofList).reverse
  endsInSlash := path.toList.getLast? = some '/'

/-- A path inside a directory.  A path that starts at the root stays as it is, and inside a
directory without name so does every path. -/
def join (directory path : String) : String :=
  if isAbsolute path || directory.isEmpty then path
  else if directory.toList.getLast? = some '/' then directory ++ path
  else directory ++ "/" ++ path

/-- The name with an extension, which is appended unless the name ends in it. -/
def withExtension (name ext : String) : String :=
  if ('.' :: ext.toList).isSuffixOf name.toList then name else name ++ "." ++ ext

/-- The path of an exported file: its name with the extension, inside the output directory. -/
def exported (directory name ext : String) : String :=
  join directory (withExtension name ext)

/-! ## Failures -/

/-- Why a file operation fails. -/
inductive FileError where
  | notFound
  | alreadyExists
  | notDirectory
  | isDirectory
  | nameTooLong
  /-- A directory whose parents cannot be made either. -/
  | noRoot
  /-- A file that is wanted as text, but whose bytes are none. -/
  | notText
  /-- Anything else that a host reports. -/
  | other (text : String)
deriving DecidableEq

/-- A cause in words. -/
def FileError.message : FileError → String
  | notFound => "No such file or directory (os error 2)"
  | alreadyExists => "File exists (os error 17)"
  | notDirectory => "Not a directory (os error 20)"
  | isDirectory => "Is a directory (os error 21)"
  | nameTooLong => "File name too long (os error 36)"
  | noRoot => "failed to create whole tree"
  | notText => "stream did not contain valid UTF-8"
  | other text => text

end Files
end TransferCost
