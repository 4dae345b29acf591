import ExprScan.Command
import ExprScan.Directory
import ExprScan.Elapsed
import ExprScan.Main
import ExprScan.Proofs.Coverage
import ExprScan.Proofs.Erasure
import ExprScan.Proofs.Lookahead
import ExprScan.Proofs.Munch
import ExprScan.Proofs.Separators
import ExprScan.Proofs.Step
import ExprScan.Proofs.Stream
import ExprScan.Session
import ExprScan.Proofs.Seams
import ExprScan.Proofs.LineNumbers
import ExprScan.Proofs.Stray
import ExprScan.Proofs.Calls
import ExprScan.Proofs.Sessions
import ExprScan.Proofs.Carets
import ExprScan.Proofs.Returns
import ExprScan.Proofs.RoundTrip
import ExprScan.Proofs.Log
import ExprScan.Proofs.Columns
import ExprScan.Proofs.Layout
import ExprScan.Proofs.Comments
import ExprScan.Proofs.OneLine
import ExprScan.Proofs.Output
import ExprScan.Proofs.Trimming
import ExprScan.Proofs.Cursors
import ExprScan.Proofs.Integers
import ExprScan.Proofs.Merging
import ExprScan.Proofs.Restarts
import ExprScan.Proofs.TokenLines
import ExprScan.Proofs.Rounding
import ExprScan.Proofs.Floats
import ExprScan.Proofs.Patterns
import ExprScan.Proofs.Directories
