import Std.Data.ExtTreeMap

/-! Files as the command sees them: their bytes, or the reason why they cannot be read. A tree
of files in memory answers as a file system does. -/

set_option autoImplicit false

namespace Reclaim

/-- Why a file cannot be read: an error of the system with its number, or bytes that are not text. -/
inductive FileError where
  | system (number : Nat) (text : String)
  | notText
  deriving DecidableEq, Repr

namespace FileError

def notFound : FileError := .system 2 "No such file or directory"

def notDirectory : FileError := .system 20 "Not a directory"

def isDirectory : FileError := .system 21 "Is a directory"

def nameTooLong : FileError := .system 36 "File name too long"

def message : FileError → String
  | .system number text => s!"{text} (os error {number})"
  | .notText => "stream did not contain valid UTF-8"

end FileError

structure FileTree where
  files : List (List String × ByteArray)

namespace FileTree

def ofList (files : List (String × ByteArray)) : FileTree where
  files := files.map fun (path, content) => (path.splitOn "/", content)

def file? (tree : FileTree) (path : List String) : Option ByteArray :=
  (tree.files.find? (·.1 == path)).map (·.2)

/-- A directory is a proper beginning of the path to a file, or the root. -/
def isDirectory (tree : FileTree) (path : List String) : Bool :=
  path.isEmpty || tree.files.any fun (full, _) => path.isPrefixOf full && path != full

/-- Follow names from a directory of the tree. `above` counts the levels above the root, where
only directories on the way up are known. -/
def follow (tree : FileTree) (above : Nat) (path : List String) :
    List String → Except FileError ByteArray
  | [] =>
    if above > 0 || tree.isDirectory path then .error .isDirectory
    else match tree.file? path with
      | some content => .ok content
      | none => .error .notFound
  | name :: rest =>
    if above = 0 && !tree.isDirectory path then
      .error (if (tree.file? path).isSome then .notDirectory else .notFound)
    else if name = "" || name = "." then tree.follow above path rest
    else if name = ".." then
      if path.isEmpty then tree.follow (above + 1) [] rest else tree.follow above path.dropLast rest
    else if name.utf8ByteSize > 255 then .error .nameTooLong
    else if above > 0 then .error .notFound
    else tree.follow above (path ++ [name]) rest

/-- The bytes of the file at a path. An absolute path leads out of the tree. -/
def read (tree : FileTree) (path : String) : Except FileError ByteArray :=
  if path.isEmpty then .error .notFound
  else if path.utf8ByteSize ≥ 4096 then .error .nameTooLong
  else tree.follow (if path.startsWith "/" then 1 else 0) [] (path.splitOn "/")

end FileTree

end Reclaim
