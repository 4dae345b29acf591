import ExprScan.Command
import ExprScan.Elapsed

/-! # The program

  The outermost layer: it reads the file that is asked for, prints what the
  run gives, and measures the time between.
-/

namespace ExprScan

/-- The failure that an error of the system stands for. -/
def ReadFailure.ofError : IO.Error → ReadFailure
  | .noFileOrDirectory .. => .missing
  | .inappropriateType _ 21 _ => .isDirectory
  | .inappropriateType .. => .notDirectory
  | .permissionDenied .. => .denied
  | error => .other error.toString

/-- The bytes of the file that a request names. -/
def Request.contents (request : Request) : IO (Except ReadFailure ByteArray) := do
  match request with
  | .file name =>
    try
      return .ok (← IO.FS.readBinFile name)
    catch error =>
      return .error (.ofError error)
  | .sample | .usage => return .error .missing

end ExprScan

open ExprScan in
/-- Runs the command. -/
def main (arguments : List String) : IO UInt32 := do
  let request := Request.ofArguments arguments
  let contents ← request.contents
  let start ← IO.monoNanosNow
  let run := request.run fun _ => contents
  IO.print (unlines run.lines)
  let stop ← IO.monoNanosNow
  IO.print (unlines (run.ending.closing (elapsedText (stop - start))))
  IO.eprint (unlines run.ending.complaint)
  return run.ending.code
