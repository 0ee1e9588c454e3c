import DynamicObjects.Arguments
import DynamicObjects.Buffer
import DynamicObjects.ByteSequences.Arrays
import DynamicObjects.ByteSequences.Basic
import DynamicObjects.ByteSequences.Methods
import DynamicObjects.Bytes.Basic
import DynamicObjects.Bytes.Hex
import DynamicObjects.Bytes.LetterCase
import DynamicObjects.Bytes.Search
import DynamicObjects.Bytes.Shape
import DynamicObjects.Bytes.Split
import DynamicObjects.Codec
import DynamicObjects.Codec.Utf8
import DynamicObjects.Dicts.Basic
import DynamicObjects.Dicts.Slots
import DynamicObjects.Dicts.Views
import DynamicObjects.Dispatch.Dispatcher
import DynamicObjects.Dispatch.Policy
import DynamicObjects.Dispatch.Registry
import DynamicObjects.Dispatch.Thunk
import DynamicObjects.Document
import DynamicObjects.Document.Records
import DynamicObjects.Double
import DynamicObjects.Double.Shortest
import DynamicObjects.Double.Text
import DynamicObjects.Error
import DynamicObjects.HashCode
import DynamicObjects.Iterator
import DynamicObjects.Kind
import DynamicObjects.Lists.Basic
import DynamicObjects.Lists.Slots
import DynamicObjects.Lists.Sort
import DynamicObjects.MergeSort
import DynamicObjects.Monitor
import DynamicObjects.Numbers
import DynamicObjects.Operation
import DynamicObjects.Proofs.Atomicity.Containers
import DynamicObjects.Proofs.Atomicity.Spared
import DynamicObjects.Proofs.Conduct.Basic
import DynamicObjects.Proofs.Conduct.ByteSequences
import DynamicObjects.Proofs.Conduct.Callbacks
import DynamicObjects.Proofs.Conduct.Dicts
import DynamicObjects.Proofs.Conduct.Failures
import DynamicObjects.Proofs.Conduct.Lists
import DynamicObjects.Proofs.Conduct.Programs
import DynamicObjects.Proofs.Conduct.Protocol
import DynamicObjects.Proofs.Conduct.Sets
import DynamicObjects.Proofs.Conduct.Slots
import DynamicObjects.Proofs.Dicts.Association
import DynamicObjects.Proofs.Dicts.Calls
import DynamicObjects.Proofs.Dicts.Changes
import DynamicObjects.Proofs.Dicts.IntegerKeys
import DynamicObjects.Proofs.Dicts.Iteration
import DynamicObjects.Proofs.Dicts.Reentrancy
import DynamicObjects.Proofs.Dicts.Refinement
import DynamicObjects.Proofs.Dicts.Searching
import DynamicObjects.Proofs.Dispatch
import DynamicObjects.Proofs.Dispatch.Bookkeeping
import DynamicObjects.Proofs.Dispatch.Courses
import DynamicObjects.Proofs.Dispatch.Freshness
import DynamicObjects.Proofs.Dispatch.Receivers
import DynamicObjects.Proofs.Dispatch.Sites
import DynamicObjects.Proofs.Equality.Alike
import DynamicObjects.Proofs.Equality.Calm
import DynamicObjects.Proofs.Equality.Codes
import DynamicObjects.Proofs.Equality.Collections
import DynamicObjects.Proofs.Equality.Laws
import DynamicObjects.Proofs.Equality.Verdicts
import DynamicObjects.Proofs.Equality.Views
import DynamicObjects.Proofs.Levels
import DynamicObjects.Proofs.Lists.Changes
import DynamicObjects.Proofs.Lists.Order
import DynamicObjects.Proofs.Lists.Sorting
import DynamicObjects.Proofs.MergeSort
import DynamicObjects.Proofs.Numbers
import DynamicObjects.Proofs.Objects
import DynamicObjects.Proofs.Protocol
import DynamicObjects.Proofs.Runs
import DynamicObjects.Proofs.Sets.Algebra
import DynamicObjects.Proofs.Sets.Operators
import DynamicObjects.Proofs.Slices.Walk
import DynamicObjects.Proofs.Slices.Words
import DynamicObjects.Proofs.Slices.Deletion
import DynamicObjects.Proofs.Tables
import DynamicObjects.Proofs.Termination.Comparing
import DynamicObjects.Proofs.Termination.Data
import DynamicObjects.Proofs.Termination.Finishing
import DynamicObjects.Proofs.Termination.Fuel
import DynamicObjects.Proofs.Termination.Nesting
import DynamicObjects.Proofs.Termination.Printing
import DynamicObjects.Protocol
import DynamicObjects.Run
import DynamicObjects.Script.Execution
import DynamicObjects.Script.Interpreter
import DynamicObjects.Script.Program
import DynamicObjects.Script.Report
import DynamicObjects.Script.Variables
import DynamicObjects.Script.Verbs
import DynamicObjects.Sets.Basic
import DynamicObjects.Sets.Slots
import DynamicObjects.Sets.Snapshot
import DynamicObjects.Slice
import DynamicObjects.Slots
import DynamicObjects.Snapshot
import DynamicObjects.Store
import DynamicObjects.Table
import DynamicObjects.Text.Blank
import DynamicObjects.Text.Printable
import DynamicObjects.Text.Quoted
import DynamicObjects.Texts
import DynamicObjects.Tuples
import DynamicObjects.Value
import DynamicObjects.Value.Debug
import DynamicObjects.Word
import DynamicObjects.Proofs.Slices.Cursors
import DynamicObjects.Proofs.Dispatch.Counting
import DynamicObjects.Proofs.Lists.Links
import DynamicObjects.Proofs.Lists.Room
import DynamicObjects.Proofs.Lists.Capacity
import DynamicObjects.Proofs.Arithmetic
import DynamicObjects.Proofs.Slices.Assignment
import DynamicObjects.Proofs.Slices.Paths
import DynamicObjects.Proofs.Slices.Sequences
import DynamicObjects.Proofs.Bytes.Occurrences
import DynamicObjects.Proofs.Bytes.Windows
import DynamicObjects.Proofs.ByteSequences.Searching
import DynamicObjects.Proofs.ByteSequences.Cutting
import DynamicObjects.Proofs.Powers
import DynamicObjects.Proofs.Lists.Growth
import DynamicObjects.Proofs.Repetition
import DynamicObjects.Proofs.InPlace.Sequences
import DynamicObjects.Proofs.InPlace.Dicts
import DynamicObjects.Proofs.InPlace.Operators
import DynamicObjects.Proofs.Dispatch.Recorders
import DynamicObjects.Proofs.Dispatch.Tracing
import DynamicObjects.Proofs.Equality.Shortcut
import DynamicObjects.Proofs.Equality.Sequences
import DynamicObjects.Proofs.Termination.Walks
import DynamicObjects.Proofs.Termination.Hashable
import DynamicObjects.Proofs.Dicts.Views
import DynamicObjects.Proofs.Bytes.Hexadecimal
import DynamicObjects.Proofs.Exhaustion
import DynamicObjects.Proofs.Dispatch.Triggers
import DynamicObjects.Proofs.Doubles.Residues
import DynamicObjects.Proofs.Literals
import DynamicObjects.Proofs.Codecs.Utf8
import DynamicObjects.Proofs.Codecs.Inverses
import DynamicObjects.Proofs.Bytes.Runs
import DynamicObjects.Proofs.Bytes.Lines
import DynamicObjects.Proofs.Bytes.LetterCase
import DynamicObjects.Proofs.Tables.Consistency
