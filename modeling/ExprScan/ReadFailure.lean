/-! # Failures to read a source

  A source is named by a path and has to be text. This module lists why
  reading one can fail, and how each failure is put into words.
-/

namespace ExprScan

/-- Why a source could not be read. -/
inductive ReadFailure where
  /-- There is nothing of that name. -/
  | missing
  /-- The path names a directory. -/
  | isDirectory
  /-- The path goes on behind a file. -/
  | notDirectory
  /-- Reading is not permitted. -/
  | denied
  /-- The bytes are not UTF-8. -/
  | notText
  /-- Some other failure, in the words of the system. -/
  | other (description : String)
deriving DecidableEq, Repr

/-- The failure in words. -/
def ReadFailure.describe : ReadFailure → String
  | missing => "No such file or directory (os error 2)"
  | isDirectory => "Is a directory (os error 21)"
  | notDirectory => "Not a directory (os error 20)"
  | denied => "Permission denied (os error 13)"
  | notText => "stream did not contain valid UTF-8"
  | other description => description

end ExprScan
