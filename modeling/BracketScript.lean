import BracketScript.Main
import BracketScript.Node.Agreement
import BracketScript.Proofs.Derivation
import BracketScript.Proofs.Moves
import BracketScript.Proofs.Completeness
import BracketScript.Proofs.Demand
import BracketScript.Proofs.Soundness
import BracketScript.Proofs.Exactness
import BracketScript.Proofs.Viability
import BracketScript.Proofs.Gap
import BracketScript.Proofs.Closing
import BracketScript.Proofs.Rounding
import BracketScript.Proofs.Layout
import BracketScript.Proofs.Apart
import BracketScript.Proofs.Relabelling
import BracketScript.Proofs.Seam
import BracketScript.Proofs.Concatenation
import BracketScript.Proofs.Lockstep
import BracketScript.Proofs.Expectation
import BracketScript.Proofs.Composition
import BracketScript.Proofs.Image
import BracketScript.Proofs.Respacing
import BracketScript.Proofs.Mentions
import BracketScript.Proofs.Escapes
import BracketScript.Proofs.Diagnostics
import BracketScript.Proofs.Painting
import BracketScript.Proofs.Labels
import BracketScript.Proofs.Drawing
import BracketScript.Proofs.Outlines
import BracketScript.Proofs.Branches
import BracketScript.Proofs.Precedence
import BracketScript.Proofs.Quotation
import BracketScript.Proofs.Scientific
import BracketScript.Proofs.Dumps
import BracketScript.Proofs.Writing
import BracketScript.Proofs.Condensing
import BracketScript.Proofs.Documents
import BracketScript.Proofs.Agreement
import BracketScript.Proofs.Priority
import BracketScript.Proofs.Rejection
import BracketScript.Proofs.Words
import BracketScript.Proofs.Rows
import BracketScript.Proofs.Reading
import BracketScript.Proofs.Cursor
import BracketScript.Proofs.ExpressionStatements
import BracketScript.Proofs.Spacing
import BracketScript.Proofs.OpenComments
import BracketScript.Proofs.Traversal
import BracketScript.Proofs.Descent
import BracketScript.Proofs.Statistics
import BracketScript.Proofs.FrontEnd
import BracketScript.Proofs.Listings
import BracketScript.Proofs.Traces
