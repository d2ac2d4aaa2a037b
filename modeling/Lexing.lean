import Lexing.Main
import Lexing.Proofs.Brace.Partition
import Lexing.Proofs.Brace.Classification
import Lexing.Proofs.Brace.Checked
import Lexing.Proofs.Brace.Safety
import Lexing.Proofs.ScansLike
import Lexing.Proofs.Pushback
import Lexing.Proofs.Position
import Lexing.Proofs.Location
import Lexing.Proofs.Brace.Location
import Lexing.Proofs.Brace.Derivation
import Lexing.Proofs.Brace.Quotes
import Lexing.Proofs.Reading
import Lexing.Proofs.Brace.Termination
import Lexing.Proofs.Brace.Lines
import Lexing.Proofs.Brace.Comments
import Lexing.Proofs.Brace.Printing
import Lexing.Proofs.Integer
import Lexing.Proofs.Brace.Numbers
import Lexing.Proofs.Command.Stopping
import Lexing.Proofs.FirstFit
import Lexing.Proofs.Stops
import Lexing.Proofs.Excerpt
import Lexing.Proofs.StopSet
import Lexing.Proofs.Offsets
import Lexing.Proofs.Transaction
import Lexing.Proofs.Brace.Resuming
import Lexing.Proofs.Command.Listing
import Lexing.Proofs.Command.Output
import Lexing.Proofs.Brace.Collecting
import Lexing.Proofs.Brace.Expecting
import Lexing.Proofs.Brace.Quoting
import Lexing.Proofs.Command.Arguments
import Lexing.Proofs.Command.Directory
import Lexing.Proofs.Table
