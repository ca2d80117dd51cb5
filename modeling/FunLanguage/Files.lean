import FunLanguage.Text.Utf8

/-!
# Files

A file system is a directory with files and further directories, as seen from the directory that
paths start in. A path is followed name by name; each name needs a directory to be looked up in.
What lies outside of the starting directory is not known, except that the directories around it are
directories.
-/

namespace FunLanguage

/-- Why the text of a file could not be read. -/
inductive ReadFailure where
  | notFound
  | isDirectory
  | notDirectory
  | nameTooLong
  | nullInName
  | notUtf8
  /-- Any other reason, in the words of the system. -/
  | other (message : String)
  deriving DecidableEq, Repr

/-- The failure in the words of the system. -/
def ReadFailure.message : ReadFailure → String
  | notFound => "No such file or directory (os error 2)"
  | isDirectory => "Is a directory (os error 21)"
  | notDirectory => "Not a directory (os error 20)"
  | nameTooLong => "File name too long (os error 36)"
  | nullInName => "file name contained an unexpected NUL byte"
  | notUtf8 => "stream did not contain valid UTF-8"
  | other message => message

/-- Whether the failure means that there is nothing at the path. -/
def ReadFailure.isAbsence : ReadFailure → Bool
  | notFound | notDirectory | nameTooLong | nullInName => true
  | isDirectory | notUtf8 | other _ => false

/-- The files below a directory, each by the names that lead to it, and the directories known
besides those that hold files. -/
structure FileSystem where
  files : List (List String × List UInt8) := []
  directories : List (List String) := []

namespace FileSystem

/-- Where a path has led to. -/
inductive Place where
  /-- The directory reached from the start by the names, the last name first. -/
  | directory (names : List String)
  | file (content : List UInt8)
  /-- A directory outside of the starting one. -/
  | outside
  deriving DecidableEq, Repr

/-- The names that a path is made of. -/
def namesOf (path : String) : List String :=
  path.splitToList (· == '/')

/-- A file system from paths of files with their contents and paths of directories. -/
def ofPaths (files : List (String × List UInt8)) (directories : List String) : FileSystem :=
  ⟨files.map fun (path, content) => (namesOf path, content), directories.map namesOf⟩

/-- Whether the names lead to a directory. -/
def isDirectory (fs : FileSystem) (names : List String) : Bool :=
  names.isEmpty || fs.directories.any names.isPrefixOf
    || fs.files.any fun (file, _) => names.isPrefixOf file && names != file

/-- The most bytes that a name can have. -/
def nameLimit : Nat := 255

/-- The number of bytes from which on a path is too long. -/
def pathLimit : Nat := 4096

/-- Looks a name up in a place. -/
def lookUp (fs : FileSystem) (place : Place) (name : String) : Except ReadFailure Place :=
  match place with
  | .file _ => .error .notDirectory
  | .outside =>
    if name = "" ∨ name = "." ∨ name = ".." then .ok .outside
    else if name.utf8ByteSize > nameLimit then .error .nameTooLong
    else .error .notFound
  | .directory names =>
    if name = "" ∨ name = "." then .ok place
    else if name = ".." then
      .ok (match names with
        | [] => .outside
        | _ :: names => .directory names)
    else if name.utf8ByteSize > nameLimit then .error .nameTooLong
    else
      let reached := (name :: names).reverse
      match fs.files.lookup reached with
      | some content => .ok (.file content)
      | none =>
        if fs.isDirectory reached then .ok (.directory (name :: names)) else .error .notFound

/-- Follows a path. A path that starts with a slash leads outside. -/
def follow (fs : FileSystem) (path : String) : Except ReadFailure Place :=
  if path.toList.contains '\x00' then .error .nullInName
  else if path = "" then .error .notFound
  else if path.utf8ByteSize ≥ pathLimit then .error .nameTooLong
  else
    let start : Place := if path.toList.head? = some '/' then .outside else .directory []
    (namesOf path).foldlM fs.lookUp start

/-- The text of the file at a path. -/
def read (fs : FileSystem) (path : String) : Except ReadFailure String := do
  match ← fs.follow path with
  | .file content =>
    match Text.Utf8.decode? content with
    | some text => return String.ofList text
    | none => throw .notUtf8
  | _ => throw .isDirectory

end FileSystem

/-- How the text of the file at a path is got. -/
abbrev Reader := String → Except ReadFailure String

end FunLanguage
