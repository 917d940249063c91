import Guardian.Versioning.Grammar
import Guardian.Versioning.Limit
import Guardian.Versioning.RangeReference
import Guardian.Authorization.Client
import Guardian.Authorization.Verification
import Guardian.Signing.Replay
import Guardian.Auth.PasswordReset
import Guardian.Findings.Overlap
import Guardian.Findings.EngineKey
import Guardian.Dast.Answers
import Guardian.Apisec.Scope
import Guardian.Evidence.Chain
import Guardian.Correlation.Arrival
import Guardian.Triage.Override
import Guardian.Triage.Drift
import Guardian.Webhooks.Delivery
import Guardian.AttackGraph.Radius
import Guardian.AttackPaths.Ranked
import Guardian.Correlation.Reconcile
import Guardian.Sast.Swap
import Guardian.Sast.Fixpoint
import Guardian.Remediation.Verified
import Guardian.Remediation.Loop
import Guardian.Discovery.Merge
import Guardian.Discovery.Stale
import Guardian.Images.Overlay
import Guardian.Cloud.Coverage
import Guardian.Reports.Approval
import Guardian.Scheduling.Cadence
import Guardian.Scheduling.Publication
import Guardian.Scans.Admission
import Guardian.Scans.Broker
import Guardian.RateLimit.Calls
import Guardian.RateLimit.Client
import Guardian.Listing.Pages
import Guardian.Governance.Dispatch
import Guardian.Versioning.Rpmvercmp
import Guardian.Versioning.Affected
import Guardian.Versioning.Compatible
import Guardian.Intel.Watermark
import Guardian.Requests.BodyLimit
import Guardian.Triage.Writers
import Guardian.ScanPlane.Offload
import Guardian.Cloud.Judgements
import Guardian.Sbom.References
import Guardian.Sbom.Arrival
import Guardian.Sast.Quotes
import Guardian.Sast.ScanFile
import Guardian.Authorization.DomainName
import Guardian.Webhooks.Signature
import Guardian.Intel.Matchers
import Guardian.Images.Stanzas
import Guardian.Secrets.History
import Guardian.Mobile.Axml
import Guardian.Iac.Literal
import Guardian.Sca.Typosquat
import Guardian.Scans.Settings
import Guardian.Tools.Binding
import Guardian.K8s.Reach
import Guardian.Templates.Refusals
import Guardian.Redaction.Vault
