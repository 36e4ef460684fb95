import CatScript.Main
import CatScript.Command.Folder
import CatScript.Proofs.Arena.Holding
import CatScript.Proofs.Evaluation.Cover
import CatScript.Proofs.Evaluation.Soundness
import CatScript.Proofs.Grammar.Whole
import CatScript.Proofs.Machine.Programs
import CatScript.Proofs.Typing.Shape
import CatScript.Proofs.Typing.Clean
import CatScript.Proofs.Typing.Acceptance
import CatScript.Proofs.Accepted
import CatScript.Proofs.Machine.Safety
import CatScript.Proofs.Evaluation.Runs
import CatScript.Proofs.Engines
import CatScript.Proofs.Machine.Functions
import CatScript.Proofs.Evaluation.Work
import CatScript.Proofs.Halting
import CatScript.Proofs.Grammar.Spelling
import CatScript.Proofs.Grammar.Passing
import CatScript.Proofs.Grammar.Written.Expression
import CatScript.Proofs.Grammar.Written.Statement
import CatScript.Proofs.Grammar.Written.Program
import CatScript.Proofs.Grammar.Complete.Reader
import CatScript.Proofs.Grammar.Complete.Expression
import CatScript.Proofs.Grammar.Complete.Statement
import CatScript.Proofs.Grammar.Complete.Attempt
import CatScript.Proofs.Grammar.Complete.Program
import CatScript.Proofs.Grammar.Printing.Words
import CatScript.Proofs.Grammar.Printing.Spelled
import CatScript.Proofs.Grammar.Printing.Scanned
import CatScript.Proofs.Grammar.Printing.RoundTrip
import CatScript.Proofs.Grammar.Printing.Relexed
import CatScript.Proofs.Token.Tiling
import CatScript.Proofs.Arena.PostOrder
import CatScript.Proofs.Typing.Totality
import CatScript.Proofs.Arena.Typed
import CatScript.Proofs.Typing.Checking.Program
import CatScript.Proofs.Code.References
import CatScript.Proofs.Code.Integrity
import CatScript.Proofs.Machine.Integrity
import CatScript.Proofs.Failures
import CatScript.Proofs.Evaluation.Frames
import CatScript.Proofs.Evaluation.Counting
import CatScript.Proofs.Typing.Paths
import CatScript.Proofs.Returning
import CatScript.Proofs.Grammar.Form
import CatScript.Proofs.Typing.Spots
import CatScript.Proofs.Typing.Resolution
import CatScript.Proofs.Typing.Arrivals
import CatScript.Proofs.Code.Arrivals
import CatScript.Proofs.Code.Emission
import CatScript.Proofs.Scoping
import CatScript.Proofs.Arena.Links
import CatScript.Proofs.Arena.PreOrder
import CatScript.Proofs.Arena.Diagnostics
import CatScript.Proofs.Grammar.Entries
import CatScript.Proofs.Arena.Spans
import CatScript.Proofs.Machine.Lists
import CatScript.Proofs.Typing.Covering
import CatScript.Proofs.Enclosing
import CatScript.Proofs.Grammar.Descent.Program
import CatScript.Proofs.Typing.Least
import CatScript.Proofs.Void
