import Codebox.Patch
import Codebox.Syntax.Flaw
import Codebox.Proofs.Boundary
import Codebox.Proofs.Splice
import Codebox.Proofs.EditLists
import Codebox.Proofs.Layout
import Codebox.Proofs.ScopeEdits
import Codebox.Proofs.Rendering
import Codebox.Proofs.Direct
import Codebox.Proofs.Faults
import Codebox.Proofs.Printer
import Codebox.Proofs.Nested
import Codebox.Proofs.Modes
import Codebox.Proofs.Strictness
import Codebox.Proofs.FlatPass
import Codebox.Proofs.Expansion
import Codebox.Proofs.InPlace
import Codebox.Proofs.Parsing.Cursor
import Codebox.Proofs.Parsing.Pieces
import Codebox.Proofs.Parsing.Meets
import Codebox.Proofs.Parsing.Pattern
import Codebox.Proofs.Parsing.Member
import Codebox.Proofs.Parsing.Expression
import Codebox.Proofs.Parsing.Shapes
import Codebox.Proofs.Parsing.Statement
import Codebox.Proofs.Parsing.Program
import Codebox.Proofs.Synthesis
import Codebox.Proofs.History
import Codebox.Proofs.Earliest
import Codebox.Proofs.Ignored
import Codebox.Proofs.Window
import Codebox.Proofs.Slots
import Codebox.Proofs.Signature
import Codebox.Proofs.Relocation
import Codebox.Proofs.Placement
import Codebox.Proofs.Outputs
import Codebox.Proofs.Trivia
import Codebox.Proofs.Parsing.Leading
import Codebox.Proofs.Parsing.Depth
import Codebox.Proofs.Pragmas
import Codebox.Proofs.LeadingComments
import Codebox.Proofs.Places
import Codebox.Proofs.ScopeWalk
import Codebox.Proofs.FirstFlaw
import Codebox.Proofs.KeywordEdits
