import LockAudit.Main
import LockAudit.Proofs.Batch.Modes
import LockAudit.Proofs.Config.Effective
import LockAudit.Proofs.Extraction
import LockAudit.Proofs.Lifecycle.Interleaving
import LockAudit.Proofs.Payload.Levels
import LockAudit.Proofs.Payload.Reordering
import LockAudit.Proofs.Range.Prerelease
import LockAudit.Proofs.Session.Lifecycle
import LockAudit.Proofs.Session.Malformed
import LockAudit.Proofs.Session.Records
import LockAudit.Proofs.Session.Standard
import LockAudit.Proofs.Range.Partials
import LockAudit.Proofs.Range.Refusals
import LockAudit.Proofs.Range.Union
import LockAudit.Proofs.Range.Acceptance
import LockAudit.Proofs.Version.Numbered
import LockAudit.Proofs.Range.Precedence
import LockAudit.Proofs.Range.Ends
import LockAudit.Proofs.Payload.Canonical
import LockAudit.Proofs.Payload.History
import LockAudit.Proofs.Payload.Acceptance
import LockAudit.Proofs.Mapping.Reported
import LockAudit.Proofs.Extraction.FirstLine
import LockAudit.Proofs.Advisory.Respelling
import LockAudit.Proofs.Session.Answered
import LockAudit.Proofs.Payload.Requires
import LockAudit.Proofs.Report.Views
import LockAudit.Proofs.Batch.Crew
import LockAudit.Proofs.Discovery.Limit
import LockAudit.Proofs.Program.Supervision
