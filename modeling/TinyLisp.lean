import TinyLisp.Completion
import TinyLisp.Eval.Depth
import TinyLisp.Main
import TinyLisp.Outline
import TinyLisp.Paren.Highlight
import TinyLisp.Proofs.Assignment
import TinyLisp.Proofs.Attribution
import TinyLisp.Proofs.Completions
import TinyLisp.Proofs.Entries
import TinyLisp.Proofs.Exact
import TinyLisp.Proofs.Flattening
import TinyLisp.Proofs.Globals
import TinyLisp.Proofs.Growth
import TinyLisp.Proofs.Highlighting
import TinyLisp.Proofs.Isolation
import TinyLisp.Proofs.Layout
import TinyLisp.Proofs.Locations
import TinyLisp.Proofs.Parameters
import TinyLisp.Proofs.Parens
import TinyLisp.Proofs.Readback
import TinyLisp.Proofs.Refusals
import TinyLisp.Proofs.Remainders
import TinyLisp.Proofs.Renaming
import TinyLisp.Proofs.RoundTrip
import TinyLisp.Proofs.Scripts
import TinyLisp.Proofs.Sequencing
import TinyLisp.Proofs.Slices
import TinyLisp.Proofs.Termination
import TinyLisp.Proofs.Tokenization
import TinyLisp.Proofs.Unmentioned
import TinyLisp.Proofs.Visibility
import TinyLisp.Repl.Run
import TinyLisp.Script.Run
