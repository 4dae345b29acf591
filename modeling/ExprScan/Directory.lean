import ExprScan.ReadFailure

/-! # A directory of files

  A directory is known by the files in it, each with the names that lead to
  it. Names are looked up by a path relative to the directory, one name after
  the other. What lies outside the directory is not known: a path that leaves
  it finds directories only.
-/

namespace ExprScan

/-- A file in a directory. -/
structure File where
  /-- The names that lead to the file, the last one its own. -/
  path : List String
  bytes : ByteArray

/-- The files in a directory. -/
structure Directory where
  files : List File

namespace Directory

/-- The file that a list of names leads to. -/
def file? (directory : Directory) (path : List String) : Option File :=
  directory.files.find? fun file => file.path == path

/-- Whether a list of names leads to a directory. -/
def isFolder (directory : Directory) (path : List String) : Bool :=
  path.isEmpty || directory.files.any fun file => path != file.path && path.isPrefixOf file.path

/-- Whether a name stays in a directory or goes up from it. -/
def isMove (name : String) : Bool := name == "" || name == "." || name == ".."

/-- Follows names beyond what is known of. -/
def walkOutside (names : List String) : Except ReadFailure (List String) :=
  if names.all isMove then .error .isDirectory else .error .missing

/-- Follows names from a place in the directory. -/
def walk (directory : Directory) (here : List String) : List String →
    Except ReadFailure (List String)
  | [] => .ok here
  | name :: more =>
    if (directory.file? here).isSome then .error .notDirectory
    else if name == "" || name == "." then directory.walk here more
    else if name == ".." then
      if here.isEmpty then walkOutside more else directory.walk here.dropLast more
    else
      let there := here ++ [name]
      if (directory.file? there).isSome || directory.isFolder there then
        directory.walk there more
      else .error .missing

/-- The names in a path, which has a slash between each two of them. -/
def namesOf (path : String) : List String := (path.toList.splitOn '/').map String.ofList

/-- The place that a path leads to. -/
def placeOf (directory : Directory) (path : String) : Except ReadFailure (List String) :=
  let names := namesOf path
  if path.isEmpty then .error .missing
  else if names.head? == some "" then walkOutside names
  else directory.walk [] names

/-- The bytes of the file at a path. -/
def read (directory : Directory) (path : String) : Except ReadFailure ByteArray := do
  let place ← directory.placeOf path
  match directory.file? place with
  | some file => return file.bytes
  | none => throw .isDirectory

end Directory

end ExprScan
