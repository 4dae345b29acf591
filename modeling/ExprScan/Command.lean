import ExprScan.Diagnostic
import ExprScan.Lexer
import ExprScan.ReadFailure

/-! # The command line

  The command scans the source that its argument names, or a built-in sample
  without an argument. It prints a line for each token and a diagnostic for
  each illegal character, in the order of the source, and last how long the
  scan took and how many errors it found. Illegal characters do not make a
  run fail; only a wrong call or a source that cannot be read does.
-/

namespace ExprScan

/-! ### What is asked for -/

/-- What the arguments ask for. -/
inductive Request where
  /-- To scan the built-in sample. -/
  | sample
  /-- To scan a file. -/
  | file (name : String)
  /-- Something that the command cannot do. -/
  | usage
deriving DecidableEq, Repr

/-- The request that the arguments make. -/
def Request.ofArguments : List String → Request
  | [] => sample
  | [name] => file name
  | _ => usage

/-- The name under which the sample is shown. -/
def sampleName : String := "<sample>"

/-- The sample. -/
def sampleSource : String :=
  "\n[25/(3*40) + \x7b300-20\x7d -16.5]\n\x7b(300-250)<(400-500)\x7d\n20 & 30 | 50\n# This is a comment\n"

/-! ### What comes of it -/

/-- How a run ends. -/
inductive Ending where
  /-- The source was scanned to its end, with a number of errors. -/
  | scanned (errors : Nat)
  /-- The arguments made no sense. -/
  | usage
  /-- The source could not be read. -/
  | unreadable (name : String) (failure : ReadFailure)
  /-- The run was cut short. -/
  | faulted (fault : Fault)
deriving DecidableEq, Repr

/-- The lines that a run prints before it ends, and how it ends. -/
structure Run where
  lines : List String
  ending : Ending
deriving DecidableEq, Repr

/-- The greatest number of errors that is counted. -/
def mostErrors : Nat := 0x7FFFFFFF

/-- Scans on from a lexer. The lines printed before are kept in reverse. -/
def transcribe (name : String) (lexer : Lexer) (errors : Nat) (printed : List String) : Run :=
  match _h : lexer.next with
  | .error fault => ⟨printed.reverse, .faulted fault⟩
  | .ok reading =>
    match _hitem : reading.item with
    | none => ⟨printed.reverse, .scanned errors⟩
    | some (.token token) => transcribe name reading.lexer errors (token.display :: printed)
    | some (.illegal illegal) =>
      let diagnostic := Diagnostic.ofIllegal name lexer.source illegal
      let above := diagnostic.opening.reverse ++ printed
      match diagnostic.caretLine with
      | .error fault => ⟨above.reverse, .faulted fault⟩
      | .ok caret =>
        if errors < mostErrors then
          transcribe name reading.lexer (errors + 1) (caret :: above)
        else ⟨(caret :: above).reverse, .faulted .tooManyErrors⟩
termination_by lexer.rest.length
decreasing_by all_goals exact Lexer.length_rest_lt _h _hitem

/-- Scans a named source. -/
def scanSource (name source : String) : Run := transcribe name (.ofSource source) 0 []

/-- The text of a file. -/
def decode (bytes : ByteArray) : Except ReadFailure String :=
  match String.fromUTF8? bytes with
  | some source => .ok source
  | none => .error .notText

/-- Carries out a request, with a way to read files by name. -/
def Request.run (request : Request) (read : String → Except ReadFailure ByteArray) : Run :=
  match request with
  | .sample => scanSource sampleName sampleSource
  | .usage => ⟨[], .usage⟩
  | .file name =>
    match read name >>= decode with
    | .ok source => scanSource name source
    | .error failure => ⟨[], .unreadable name failure⟩

/-! ### What is printed -/

/-- Lines as text, each with its line feed. -/
def unlines (lines : List String) : String := String.join (lines.map (· ++ "\n"))

/-- The exit code for an ending. -/
def Ending.code : Ending → UInt32
  | scanned _ => 0
  | usage | unreadable .. => 1
  | faulted _ => 101

/-- The lines that close the output, given how long the run took. -/
def Ending.closing (elapsed : String) : Ending → List String
  | scanned errors =>
    ["Tokenized in " ++ elapsed ++ " (" ++ toString errors ++ " errors)"]
  | usage | unreadable .. | faulted _ => []

/-- What is said on the error output about an ending. -/
def Ending.complaint : Ending → List String
  | scanned _ => []
  | usage => ["Error: Usage: lexer [source-file]"]
  | unreadable name failure =>
    ["Error: Failed to read " ++ name, "", "Caused by:", "    " ++ failure.describe]
  | faulted fault => ["Error: " ++ fault.describe]

/-- What can be seen of a run from outside. -/
structure Report where
  code : UInt32
  stdout : String
  stderr : String
deriving DecidableEq, Repr

/-- The report on a run, given how long it took. -/
def Run.report (run : Run) (elapsed : String) : Report :=
  { code := run.ending.code
    stdout := unlines (run.lines ++ run.ending.closing elapsed)
    stderr := unlines run.ending.complaint }

end ExprScan
