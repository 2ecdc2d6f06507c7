import ObjectMemory.Arena.Basic
import ObjectMemory.Arena.Bytes
import ObjectMemory.Arena.Lemmas
import ObjectMemory.ByteArrayObject
import ObjectMemory.CodePoints
import ObjectMemory.Config
import ObjectMemory.Container
import ObjectMemory.Context
import ObjectMemory.Failure
import ObjectMemory.Header
import ObjectMemory.Journal
import ObjectMemory.Json.Reader
import ObjectMemory.Json.Writer
import ObjectMemory.ListObject
import ObjectMemory.Machine
import ObjectMemory.Primitive
import ObjectMemory.Proofs.Access
import ObjectMemory.Proofs.Appending
import ObjectMemory.Proofs.Blindness
import ObjectMemory.Proofs.ByteArrays
import ObjectMemory.Proofs.ByteCalls
import ObjectMemory.Proofs.ByteRuns
import ObjectMemory.Proofs.ByteViews
import ObjectMemory.Proofs.Capacities
import ObjectMemory.Proofs.Carrying
import ObjectMemory.Proofs.CleanStrings
import ObjectMemory.Proofs.Closure
import ObjectMemory.Proofs.Content
import ObjectMemory.Proofs.Cost
import ObjectMemory.Proofs.CountWords
import ObjectMemory.Proofs.Draws
import ObjectMemory.Proofs.Dumps
import ObjectMemory.Proofs.Editing
import ObjectMemory.Proofs.Encoding
import ObjectMemory.Proofs.FailureSlot
import ObjectMemory.Proofs.Filling
import ObjectMemory.Proofs.Following
import ObjectMemory.Proofs.Footprint
import ObjectMemory.Proofs.Frame
import ObjectMemory.Proofs.Heedless
import ObjectMemory.Proofs.History
import ObjectMemory.Proofs.Indexables
import ObjectMemory.Proofs.Invocation
import ObjectMemory.Proofs.Issues
import ObjectMemory.Proofs.Joining
import ObjectMemory.Proofs.Kinds
import ObjectMemory.Proofs.Ledger
import ObjectMemory.Proofs.Limits
import ObjectMemory.Proofs.ListHeap
import ObjectMemory.Proofs.ListRuns
import ObjectMemory.Proofs.Lists
import ObjectMemory.Proofs.LogLines
import ObjectMemory.Proofs.Making
import ObjectMemory.Proofs.Matches
import ObjectMemory.Proofs.Moves
import ObjectMemory.Proofs.Numerals
import ObjectMemory.Proofs.Operation
import ObjectMemory.Proofs.Padding
import ObjectMemory.Proofs.Parts
import ObjectMemory.Proofs.Picks
import ObjectMemory.Proofs.Pieces
import ObjectMemory.Proofs.Places
import ObjectMemory.Proofs.Plan
import ObjectMemory.Proofs.Reading
import ObjectMemory.Proofs.Records
import ObjectMemory.Proofs.Refusal
import ObjectMemory.Proofs.Relocation
import ObjectMemory.Proofs.Rows
import ObjectMemory.Proofs.SameSlots
import ObjectMemory.Proofs.Searching
import ObjectMemory.Proofs.Segmentation
import ObjectMemory.Proofs.Sequences
import ObjectMemory.Proofs.Session
import ObjectMemory.Proofs.Settings
import ObjectMemory.Proofs.Slicing
import ObjectMemory.Proofs.SmallNumbers
import ObjectMemory.Proofs.SpareSlots
import ObjectMemory.Proofs.Spelling
import ObjectMemory.Proofs.Splitting
import ObjectMemory.Proofs.StatedCounts
import ObjectMemory.Proofs.Statistics
import ObjectMemory.Proofs.Stopping
import ObjectMemory.Proofs.Storing
import ObjectMemory.Proofs.StringRuns
import ObjectMemory.Proofs.Strings
import ObjectMemory.Proofs.TextReadings
import ObjectMemory.Proofs.Texts
import ObjectMemory.Proofs.Tiling
import ObjectMemory.Proofs.Twins
import ObjectMemory.Proofs.Warnings
import ObjectMemory.Random.ChaCha
import ObjectMemory.Random.Source
import ObjectMemory.Reference
import ObjectMemory.Selector
import ObjectMemory.Size
import ObjectMemory.Stats
import ObjectMemory.Stats.Json
import ObjectMemory.Stop
import ObjectMemory.Store
import ObjectMemory.Store.Block
import ObjectMemory.StringObject
import ObjectMemory.Text.Blank
import ObjectMemory.Text.Combining
import ObjectMemory.Text.Ignorable
import ObjectMemory.Text.Numeral
import ObjectMemory.Text.Quoted
import ObjectMemory.Text.Ranges
import ObjectMemory.Text.Search
import ObjectMemory.Text.Unprintable
import ObjectMemory.Text.Utf8
import ObjectMemory.Word
