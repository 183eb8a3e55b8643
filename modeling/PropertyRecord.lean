import PropertyRecord.Wire.Reading
import PropertyRecord.Session.Calls
import PropertyRecord.Proofs.Editor.Table
import PropertyRecord.Proofs.Editor.Contents
import PropertyRecord.Proofs.Editor.Refinement
import PropertyRecord.Proofs.Import.Walk
import PropertyRecord.Proofs.Import.Copying
import PropertyRecord.Proofs.Import.Opening
import PropertyRecord.Proofs.Import.Reference
import PropertyRecord.Proofs.Import.Charge
import PropertyRecord.Proofs.Editor.Reached
import PropertyRecord.Proofs.Editor.BoundedMap
import PropertyRecord.Proofs.Editor.Encoding
import PropertyRecord.Proofs.Import.Canonical
import PropertyRecord.Proofs.Reopen
import PropertyRecord.Proofs.Representation
import PropertyRecord.Proofs.Record.EditCycle
import PropertyRecord.Proofs.Wire.Grammar
import PropertyRecord.Proofs.Wire.Typed
import PropertyRecord.Proofs.Wire.RoundTrip
import PropertyRecord.Proofs.Record.Memory
import PropertyRecord.Proofs.Record.Commit
import PropertyRecord.Proofs.Record.Lookup
import PropertyRecord.Proofs.Shrinking
import PropertyRecord.Proofs.Store.Map
import PropertyRecord.Proofs.Editor.Ranges
import PropertyRecord.Proofs.Import.Ranges
import PropertyRecord.Proofs.Wire.Writing
import PropertyRecord.Wire.Encoder
import PropertyRecord.Proofs.Wire.Encoder
import PropertyRecord.Proofs.Wire.Shortest
import PropertyRecord.Proofs.Wire.Cursor
import PropertyRecord.Proofs.Wire.Decoding
import PropertyRecord.Proofs.Session.User
import PropertyRecord.Proofs.Session.Users
import PropertyRecord.Proofs.LongerBuffer
import PropertyRecord.Proofs.Settled
import PropertyRecord.Proofs.Truncation
import PropertyRecord.Proofs.Session.Sharing
import PropertyRecord.Proofs.Wire.OneItem
import PropertyRecord.Proofs.Wire.Written
import PropertyRecord.Proofs.Record.Locate
import PropertyRecord.Proofs.Record.Agreement
import PropertyRecord.Editor.PlacedTable
import PropertyRecord.Proofs.Editor.PlacedTable
import PropertyRecord.Editor.Layout
import PropertyRecord.Editor.LayoutCalls
import PropertyRecord.Record.LayoutCommit
import PropertyRecord.Proofs.Wire.CutItem
import PropertyRecord.Proofs.Import.Extent
import PropertyRecord.Proofs.Record.Delivery
import PropertyRecord.Proofs.Import.Layout
import PropertyRecord.Proofs.Editor.Placed
import PropertyRecord.Proofs.Editor.Embedded
import PropertyRecord.Proofs.Editor.LayoutCalls
import PropertyRecord.Proofs.Record.LayoutCommit
import PropertyRecord.Proofs.Import.Undisturbed
import PropertyRecord.Wire.Packed
import PropertyRecord.Proofs.Wire.Packed
import PropertyRecord.Proofs.Wire.Capped
import PropertyRecord.Proofs.ClaimedCounts
