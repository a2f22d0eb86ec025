import NsxManager.Lib.Program
import NsxManager.Lib.Fips180
import NsxManager.Lib.Glob
import NsxManager.Lib.Log
import NsxManager.Lib.Order
import NsxManager.Lib.Origin
import NsxManager.Lib.Paired
import NsxManager.Lib.Regex
import NsxManager.Lib.Slot
import NsxManager.Lib.Unwinding
import NsxManager.Core.Text
import NsxManager.Core.Sha256
import NsxManager.Core.Sha256Standard
import NsxManager.Core.Json
import NsxManager.Core.Handoff
import NsxManager.Core.JsonCodec
import NsxManager.Core.MergeMarker
import NsxManager.Card
import NsxManager.Stdio
import NsxManager.Forwarder.Swap
import NsxManager.Forwarder.Steps
import NsxManager.Forwarder.Safety
import NsxManager.Forwarder.Runs
import NsxManager.Forwarder.Faultless
import NsxManager.Forwarder.Reports
import NsxManager.Forwarder.Spent
import NsxManager.Forwarder.Aliases
import NsxManager.Forwarder.Attempts
import NsxManager.Forwarder.Rewrites
import NsxManager.Infra.Errors
import NsxManager.Core.SemVer
import NsxManager.Core.SemVerText
import NsxManager.Core.SemVerOrder
import NsxManager.Core.Manifest
import NsxManager.Core.Checked
import NsxManager.Core.Accepted
import NsxManager.Core.Backoff
import NsxManager.Core.ManifestCache
import NsxManager.Core.UpdatePolicy
import NsxManager.Core.PreserveRules
import NsxManager.Core.Glob
import NsxManager.Core.PathPatterns
import NsxManager.Core.PreserveText
import NsxManager.Core.Extraction
import NsxManager.Core.Resolver
import NsxManager.Core.Within
import NsxManager.Ports
import NsxManager.Infra.ZipExtractor
import NsxManager.Infra.ZipWriter
import NsxManager.Infra.DeclaredSizes
import NsxManager.Infra.CurlClient
import NsxManager.Core.FirmwareSet
import NsxManager.Cfw.Install
import NsxManager.Cfw.Workspace
import NsxManager.Cfw.Merge
import NsxManager.Cfw.Prepare
import NsxManager.Cfw.Fetch
import NsxManager.Cfw.RollBack
import NsxManager.Cfw.Atomic
import NsxManager.Cfw.Recovery
import NsxManager.Cfw.WriteAhead
import NsxManager.Cfw.Reached
import NsxManager.Cfw.Failing
import NsxManager.Cfw.CutOff
import NsxManager.Cfw.Retry
import NsxManager.Cfw.Report
import NsxManager.Cfw.Preserved
import NsxManager.Cfw.Records
import NsxManager.Maintenance.Cleanup
import NsxManager.Catalog.Document
import NsxManager.Firmware.Stage
import NsxManager.Firmware.Replace
import NsxManager.Firmware.Visitors
import NsxManager.SelfUpdate.Stage
import NsxManager.SelfUpdate.Handover
import NsxManager.SelfUpdate.Pending
import NsxManager.SelfUpdate.Check
import NsxManager.SelfUpdate.Cache
import NsxManager.SelfUpdate.Conditional
import NsxManager.SelfUpdate.Throttle
import NsxManager.SelfUpdate.Stored
import NsxManager.SelfUpdate.Informed
import NsxManager.SelfUpdate.AtomicWrites
import NsxManager.SelfUpdate.Retries
import NsxManager.SelfUpdate.ForwarderCopies
import NsxManager.Preflight
import NsxManager.Catalog.Service
import NsxManager.Catalog.Protocol
import NsxManager.Catalog.Lockstep
import NsxManager.Catalog.Equivalence
import NsxManager.Catalog.Independence
import NsxManager.Documents.Exact
import NsxManager.Documents.Faultless
import NsxManager.Documents.RoundTrip
import NsxManager.Release.Document
import NsxManager.Release.Patterns
import NsxManager.Release.Schema
import NsxManager.Release.Validator
import NsxManager.Release.Published
import NsxManager.Documents.Tag
import NsxManager.Release.Strict
import NsxManager.Lib.Signed
import NsxManager.Core.Delays
import NsxManager.Core.Deadlines
import NsxManager.Catalog.Mirror
import NsxManager.Catalog.Items
import NsxManager.Catalog.WorkingPaths
import NsxManager.Infra.Redirects
import NsxManager.Infra.Chunks
import NsxManager.Maintenance.Overlap
import NsxManager.Firmware.Leftovers
import NsxManager.Sysmodules
import NsxManager.Motd
import NsxManager.Lib.Worklist
import NsxManager.Directories
import NsxManager.SelfUpdate.Trees
import NsxManager.Lib.Steady
import NsxManager.Platform.ArchiveBit
import NsxManager.Platform.Recreated
import NsxManager.Platform.Processed
import NsxManager.Platform.Aborts
import NsxManager.Platform.Kept
import NsxManager.SelfUpdate.Lifetime
import NsxManager.Lib.Interference
import NsxManager.Ui.BackgroundJob
import NsxManager.Core.FileLogger
