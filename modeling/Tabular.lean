import Tabular.Main
import Tabular.Proofs.Calculations
import Tabular.Proofs.CodePoints
import Tabular.Proofs.Comparisons
import Tabular.Proofs.Counts
import Tabular.Proofs.Disjunctions
import Tabular.Proofs.Lines
import Tabular.Proofs.Lookups
import Tabular.Proofs.Pairing
import Tabular.Proofs.Progress
import Tabular.Proofs.Projections
import Tabular.Proofs.Records
import Tabular.Proofs.Removing
import Tabular.Proofs.Rendering
import Tabular.Proofs.Replacing
import Tabular.Proofs.Restoring
import Tabular.Proofs.Splitting
import Tabular.Proofs.Stores
import Tabular.Proofs.Views
