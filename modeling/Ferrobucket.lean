import Ferrobucket.Encode
import Ferrobucket.Layout
import Ferrobucket.Lib.Base64
import Ferrobucket.Lib.Lexical
import Ferrobucket.Lib.PercentEncoding
import Ferrobucket.Lib.Posix
import Ferrobucket.Lib.Program
import Ferrobucket.Lib.Syscall
import Ferrobucket.Lib.Text
import Ferrobucket.Listing
import Ferrobucket.Records
import Ferrobucket.Storage
import Ferrobucket.Lib.Look
import Ferrobucket.Lib.Machine
import Ferrobucket.Files
import Ferrobucket.Names
import Ferrobucket.Store
import Ferrobucket.Abstract
import Ferrobucket.Refinement
import Ferrobucket.UploadRefinement
import Ferrobucket.Lib.Grouping
import Ferrobucket.Pagination
import Ferrobucket.ListingLoop
import Ferrobucket.Json
import Ferrobucket.Reference
import Ferrobucket.KeyLimit
import Ferrobucket.MapModel
import Ferrobucket.MapRefinement
import Ferrobucket.Requests
import Ferrobucket.Assembly
import Ferrobucket.Binding
import Ferrobucket.Lib.Concurrent
import Ferrobucket.Lib.Steps
import Ferrobucket.Confinement
import Ferrobucket.KeyNames
import Ferrobucket.KeyPaths
import Ferrobucket.ChangingListing
import Ferrobucket.BucketLife
import Ferrobucket.Lib.Fault
import Ferrobucket.BucketFaults
import Ferrobucket.Lib.Ownership
import Ferrobucket.Lib.Sharing
import Ferrobucket.Writers
import Ferrobucket.Independence
import Ferrobucket.Traffic
import Ferrobucket.Clients
import Ferrobucket.Durability
import Ferrobucket.Versions
import Ferrobucket.LastWriters
import Ferrobucket.BucketRaces
import Ferrobucket.RangedReads
import Ferrobucket.ServerFns
import Ferrobucket.BucketTotals
import Ferrobucket.BatchDelete
import Ferrobucket.Completion
import Ferrobucket.Lib.Folders
import Ferrobucket.FolderWalk
import Ferrobucket.Lib.Url
import Ferrobucket.Links
import Ferrobucket.Presign
import Ferrobucket.BodyFaults
import Ferrobucket.DeadUploads
import Ferrobucket.Lib.Hidden
import Ferrobucket.Lib.Stopped
import Ferrobucket.Readers
import Ferrobucket.HalfWritten
import Ferrobucket.StrayFiles
import Ferrobucket.Aftermath
import Ferrobucket.AllOrNothing
import Ferrobucket.Lib.Passing
import Ferrobucket.ListingRaces
import Ferrobucket.BesideWriters
import Ferrobucket.Lib.Segments
import Ferrobucket.QueryLinks
import Ferrobucket.Breadcrumb
import Ferrobucket.Lib.Calendar
import Ferrobucket.Clock
import Ferrobucket.Lib.Header
import Ferrobucket.Download
import Ferrobucket.UploadZone
import Ferrobucket.UploadPanel
import Ferrobucket.Lib.Slices
import Ferrobucket.BrowserUpload
import Ferrobucket.Reassembly
import Ferrobucket.Lib.Linear
import Ferrobucket.Registers
import Ferrobucket.Linearizable
import Ferrobucket.PartRaces
import Ferrobucket.S3Adapter
import Ferrobucket.S3Model
import Ferrobucket.S3Refinement
import Ferrobucket.S3Conversations
import Ferrobucket.Lib.Retold
import Ferrobucket.Mirror
import Ferrobucket.WebModel
import Ferrobucket.WebRefinement
import Ferrobucket.BucketListing
