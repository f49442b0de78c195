import Polyglot.Admin.Surface
import Polyglot.Json.Printer
import Polyglot.Json.Reader
import Polyglot.Json.Text
import Polyglot.Proofs.Admin.Discretion
import Polyglot.Proofs.Creation.Endings
import Polyglot.Proofs.Creation.Overtaking
import Polyglot.Proofs.Engine.Account
import Polyglot.Proofs.Engine.Deletion
import Polyglot.Proofs.Engine.Editing
import Polyglot.Proofs.Engine.Provenance
import Polyglot.Proofs.Office.Books
import Polyglot.Proofs.Office.Whole
import Polyglot.Proofs.Pool.LostEdit
import Polyglot.Proofs.Pool.StalePass
import Polyglot.Proofs.Propagation.Verdict
import Polyglot.Proofs.Setup.Registration
import Polyglot.Proofs.Store.History
import Polyglot.Setup.Config
import Polyglot.Setup.Retry
import Polyglot.Setup.Schedule
import Polyglot.Sql.Database
import Polyglot.Store.Intervention
import Polyglot.Proofs.Reconciliation.Course
import Polyglot.Proofs.Reconciliation.Effect
import Polyglot.Proofs.Reconciliation.Ledger
import Polyglot.Proofs.Reconciliation.Healing
import Polyglot.Proofs.Reconciliation.Recovery
import Polyglot.Proofs.Sql.Interchange
import Polyglot.Proofs.Sql.Faithful
import Polyglot.Proofs.Sql.Template
import Polyglot.Proofs.Admin.Unlocking
import Polyglot.Proofs.Directory.Codes
import Polyglot.Proofs.Flow.Gaps
import Polyglot.Proofs.Flow.Sweep
import Polyglot.Proofs.Setup.Retrying
