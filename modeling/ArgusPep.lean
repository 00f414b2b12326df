import ArgusPep.Lib.Run
import ArgusPep.Lib.Consumes
import ArgusPep.Lib.Utf8
import ArgusPep.Lib.BigEndian
import ArgusPep.Lib.Keyed
import ArgusPep.Lib.Exits
import ArgusPep.Lib.Refines
import ArgusPep.Lib.Lifetime
import ArgusPep.Lib.Slots
import ArgusPep.Lib.Sextets
import ArgusPep.Lib.Lines
import ArgusPep.Lib.Store
import ArgusPep.Lib.Walk
import ArgusPep.Lib.Tape
import ArgusPep.Lib.Cells
import ArgusPep.Util.Bytes
import ArgusPep.Util.Base64
import ArgusPep.Util.Base64Digits
import ArgusPep.Util.Base64Lines
import ArgusPep.Util.Buffer
import ArgusPep.Util.BufferQueue
import ArgusPep.Util.Capacity
import ArgusPep.Util.GrowthFailure
import ArgusPep.Util.LinkedList
import ArgusPep.Util.ListCells
import ArgusPep.Util.DeleteElements
import ArgusPep.Util.Log
import ArgusPep.Hessian.Types
import ArgusPep.Hessian.Refs
import ArgusPep.Hessian.Serialize
import ArgusPep.Hessian.Wire
import ArgusPep.Hessian.Positions
import ArgusPep.Hessian.Headers
import ArgusPep.Hessian.Deserialize
import ArgusPep.Hessian.Reads
import ArgusPep.Hessian.TreeCodec
import ArgusPep.Hessian.Grammar
import ArgusPep.Hessian.StringCodec
import ArgusPep.Hessian.ChunkTexts
import ArgusPep.Hessian.SafeSteps
import ArgusPep.Hessian.Survival
import ArgusPep.Hessian.ChunkTags
import ArgusPep.Hessian.Cuts
import ArgusPep.Hessian.Truncation
import ArgusPep.Hessian.Ledger
import ArgusPep.Hessian.Payload
import ArgusPep.Hessian.Acceptance
import ArgusPep.Hessian.CutTrees
import ArgusPep.Hessian.Stored
import ArgusPep.Hessian.Deletions
import ArgusPep.Hessian.ListRefs
import ArgusPep.Hessian.MapRefs
import ArgusPep.Hessian.Destructors
import ArgusPep.Argus.Xacml
import ArgusPep.Argus.Profiles
import ArgusPep.Argus.Unmarshal
import ArgusPep.Argus.CutMessages
import ArgusPep.Argus.Records
import ArgusPep.Argus.Marshal
import ArgusPep.Argus.RequestCodec
import ArgusPep.Argus.Decision
import ArgusPep.Argus.EntryOrder
import ArgusPep.Argus.Mandatory
import ArgusPep.Argus.OwnedStrings
import ArgusPep.Argus.UnmarshalCalls
import ArgusPep.Argus.Pep
import ArgusPep.Argus.Ownership
import ArgusPep.Argus.Acquisition
import ArgusPep.Argus.Transmission
import ArgusPep.Argus.Transfer
import ArgusPep.Argus.Conversation
import ArgusPep.Argus.Amplification
import ArgusPep.Argus.PipAdapter
import ArgusPep.Argus.AttributeObjects
import ArgusPep.Argus.PipObjects
import ArgusPep.Argus.PosixMapping
import ArgusPep.Argus.GroupNames
import ArgusPep.Argus.Verdict
import ArgusPep.Argus.ExactIds
import ArgusPep.Argus.Handle
import ArgusPep.Argus.Lifecycle
import ArgusPep.Argus.Options
import ArgusPep.Argus.Secrecy
import ArgusPep.Argus.SharedLog
import ArgusPep.Argus.OptionSync
import ArgusPep.Argus.HandleMemory
import ArgusPep.Argus.HandleRuns
import ArgusPep.Argus.Passwords
import ArgusPep.Argus.KeptStrings
