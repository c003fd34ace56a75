import Tabula.Main
import Tabula.Proofs.Assignment
import Tabula.Proofs.Fork
import Tabula.Proofs.Importer
import Tabula.Proofs.Isolation
import Tabula.Proofs.KeyOrder
import Tabula.Proofs.Merging.Reference
import Tabula.Proofs.Merging.Source
import Tabula.Proofs.OperandOrder
import Tabula.Proofs.RoundTrip
import Tabula.Proofs.Trace
import Tabula.Proofs.Invocation
import Tabula.Proofs.Iteration
import Tabula.Proofs.Equality
import Tabula.Proofs.Traversal
import Tabula.Proofs.Materialization
import Tabula.Proofs.Sequences
import Tabula.Proofs.Targets
import Tabula.Proofs.Arguments
import Tabula.Proofs.Grammar
import Tabula.Proofs.Resolution
