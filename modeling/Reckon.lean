import Reckon.Proofs.Calculator.Fault
import Reckon.Proofs.Calculator.Magnitude
import Reckon.Proofs.Calculator.Minuses
import Reckon.Proofs.Calculator.Spacing
import Reckon.Proofs.Enclosure.Layers
import Reckon.Proofs.Expression.Sequence
import Reckon.Proofs.Expression.Value
import Reckon.Proofs.Folding.Fixpoint
import Reckon.Proofs.Session
import Reckon.Proofs.Split.Argmin
import Reckon.Proofs.Tree.InOrder
import Reckon.Proofs.Tree.Splitter
import Reckon.Settings.Load
import Reckon.Proofs.Decimal.Significant
import Reckon.Proofs.Decimal.Places
import Reckon.Proofs.Machine.Rounding
import Reckon.Proofs.Expression.Exact
import Reckon.Proofs.Decimal.Comparison
import Reckon.Proofs.Calculator.Comparison
import Reckon.Proofs.Expression.Mirror
import Reckon.Proofs.Decimal.Codec
import Reckon.Proofs.Settings.Validation
import Reckon.Proofs.Settings.Loading
import Reckon.Proofs.Nesting.Nested
import Reckon.Proofs.Tree.Node
import Reckon.Proofs.Tree.Excerpt
