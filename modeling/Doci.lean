import Doci.TokenBucket
import Doci.RateLaw
import Doci.Coroutine
import Doci.Interleaving
import Doci.Reconciliation
import Doci.Mime
import Doci.RelyGuarantee
import Doci.ReadCommitted
import Doci.Store
import Doci.Documents
import Doci.ServiceCalls
import Doci.Custody
import Doci.Closing
import Doci.CallContracts
import Doci.Deletion
import Doci.Sweep
import Doci.PurgeWindow
import Doci.Executions
import Doci.Tasks
import Doci.Worker
import Doci.Conduct
import Doci.Agreement
import Doci.Bystanders
import Doci.Finality
import Doci.Lifecycle
import Doci.Backfill
import Doci.AuditChain
import Doci.Checkpoint
import Doci.CheckpointHistory
import Doci.CheckpointReads
import Doci.CheckpointExpiry
import Doci.ThreadDeletion
import Doci.Monitor
import Doci.MonitorOrder
import Doci.RuleLinks
import Doci.LinkOrder
import Doci.ConsumerGroup
import Doci.Exits
import Doci.Stages
import Doci.Binary64
import Doci.Money
import Doci.MoneyFormats
import Doci.MoneySoundness
import Doci.Characters
import Doci.Dates
import Doci.DateForms
import Doci.DateOrder
import Doci.Vat
import Doci.VatWritings
import Doci.Names
import Doci.NameKeys
import Doci.Verdicts
import Doci.Retries
import Doci.ClockSteps
import Doci.BucketExpiry
import Doci.LoneWaiter
import Doci.CheckpointDeadline
import Doci.WriteOverlap
import Doci.MonitorIndex
import Doci.CacheLife
import Doci.DocumentView
import Doci.PartRace
import Doci.OnePart
import Doci.DeleteCalls
import Doci.SoftDelete
import Doci.FinalizeCalls
import Doci.FinalizeOnce
import Doci.Original
import Doci.Refusal
import Doci.UploadWindow
import Doci.Validation
import Doci.TextUploads
import Doci.SlugKeys
import Doci.Uuids
import Doci.CheckpointKeys
import Doci.Paging
import Doci.Listings
import Doci.JsonValues
import Doci.ChatModel
import Doci.Base64
import Doci.PageImage
import Doci.DossierSpec
import Doci.PageKinds
import Doci.PageRuns
import Doci.IsoTimes
import Doci.Blobs
import Doci.BlobDrift
import Doci.Reruns
import Doci.RerunOnce
import Doci.ChannelVersions
import Doci.StoreRows
import Doci.Retention
import Doci.SerialCalls
import Doci.SerialRuns
import Doci.TaskGroups
import Doci.TaskBounds
import Doci.JsonText
import Doci.Filing
import Doci.FilingCalls
import Doci.Annotations
import Doci.Results
import Doci.PdfMining
import Doci.PdfRuns
import Doci.PdfContracts
import Doci.PdfNodes
import Doci.PdfGraphs
import Doci.PdfSystem
import Doci.PageIndex
import Doci.PageTools
import Doci.PageBounds
import Doci.SoftKeys
import Doci.RuleBook
import Doci.RuleBookRuns
