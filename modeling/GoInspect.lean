import GoInspect.Analysis
import GoInspect.Architecture
import GoInspect.Bisection
import GoInspect.Bytes
import GoInspect.CommandLine
import GoInspect.CommandLine.Help
import GoInspect.Confidence
import GoInspect.Configuration
import GoInspect.Double
import GoInspect.Double.Decimal
import GoInspect.Elf
import GoInspect.Enumeration
import GoInspect.Extract
import GoInspect.Extract.Basic
import GoInspect.Extract.Map
import GoInspect.FileTree
import GoInspect.FunctionTable
import GoInspect.FunctionTable.Decode
import GoInspect.FunctionTable.Locate
import GoInspect.GoType
import GoInspect.GoType.Render
import GoInspect.GoType.Syntax
import GoInspect.GuessCache
import GoInspect.Image
import GoInspect.Inference
import GoInspect.Log
import GoInspect.LogFile
import GoInspect.Main
import GoInspect.Memory
import GoInspect.Program
import GoInspect.Remark
import GoInspect.Session
import GoInspect.Settings
import GoInspect.StackWalk
import GoInspect.Text
import GoInspect.Text.Escape
import GoInspect.Text.Number
import GoInspect.Text.Utf16
import GoInspect.Text.Utf8
import GoInspect.Text.Wrap
import GoInspect.TypeGraph
import GoInspect.TypeGraph.Closure
import GoInspect.TypeGraph.Descriptor
import GoInspect.TypeGraph.Module
import GoInspect.Value
import GoInspect.Value.Render
import GoInspect.Varint
import GoInspect.Version
import GoInspect.Proofs.Analysis
import GoInspect.Proofs.Bytes
import GoInspect.Proofs.Extract.Calls
import GoInspect.Proofs.Extract.Conformance
import GoInspect.Proofs.Extract.Reading
import GoInspect.Proofs.Extract.Sound
import GoInspect.Proofs.Extract.Steps
import GoInspect.Proofs.Extract.Termination
import GoInspect.Proofs.FunctionTable.Layout
import GoInspect.Proofs.FunctionTable.RoundTrip
import GoInspect.Proofs.FunctionTable.Serialize
import GoInspect.Proofs.FunctionTable.StackMap
import GoInspect.Proofs.GoType.Render
import GoInspect.Proofs.GoType.Plain
import GoInspect.Proofs.GoType.Syntax
import GoInspect.Proofs.GoType.Term
import GoInspect.Proofs.GuessCache
import GoInspect.Proofs.GuessCache.Recency
import GoInspect.Proofs.Inference
import GoInspect.Proofs.Memory
import GoInspect.Proofs.Remark
import GoInspect.Proofs.Session
import GoInspect.Proofs.Text
import GoInspect.Proofs.Text.Number
import GoInspect.Proofs.Traversal
import GoInspect.Proofs.TypeGraph.Basic
import GoInspect.Proofs.TypeGraph.Descriptor
import GoInspect.Proofs.TypeGraph.Layout
import GoInspect.Proofs.TypeGraph.Module
import GoInspect.Proofs.TypeGraph.Reachable
import GoInspect.Proofs.TypeGraph.RoundTrip
import GoInspect.Proofs.Utf8
import GoInspect.Proofs.Varint
import GoInspect.Proofs.Extract.RoundTrip
import GoInspect.Proofs.GoType.Scan
import GoInspect.Proofs.GoType.Parse
import GoInspect.Proofs.GoType.RoundTrip
import GoInspect.Proofs.Extract.Stored
import GoInspect.Proofs.Extract.LegacyMap
import GoInspect.Proofs.Extract.SwissMap
import GoInspect.Proofs.Extract.AddressSpace
import GoInspect.Proofs.Session.Support
import GoInspect.Proofs.Bisection
import GoInspect.Proofs.FunctionTable.Relocation
import GoInspect.Proofs.Elf
import GoInspect.Proofs.FunctionTable.Nearest
import GoInspect.Proofs.TypeGraph.HeaderBounds
import GoInspect.Proofs.Extract.Directory
import GoInspect.Proofs.Extract.Depth
import GoInspect.Proofs.Extract.MapDepth
import GoInspect.Proofs.GoType.StructLayout
import GoInspect.Proofs.GoType.Calls
import GoInspect.Proofs.Extract.Overflow
import GoInspect.Proofs.GuessCache.Keys
import GoInspect.Proofs.Remark.Direct
import GoInspect.Proofs.Remark.Effect
import GoInspect.Proofs.TypeGraph.Growth
import GoInspect.Proofs.FunctionTable.Candidates
import GoInspect.Proofs.FunctionTable.WellFormed
import GoInspect.Proofs.StackWalk
import GoInspect.Proofs.CommandLine
import GoInspect.Proofs.Elf.Reads
import GoInspect.Proofs.CommandLine.Spelling
import GoInspect.Proofs.CommandLine.Accounting
import GoInspect.Proofs.Utf8.Table
import GoInspect.Proofs.Utf8.Locality
import GoInspect.Proofs.Utf16
import GoInspect.Proofs.Extract.ArraySize
import GoInspect.Proofs.Text.Escape
import GoInspect.Proofs.TypeGraph.Indexes
import GoInspect.Proofs.Text.Literal
import GoInspect.Proofs.Inference.Receiver
import GoInspect.Proofs.Text.Wrap
import GoInspect.Proofs.Varint.Stream
import GoInspect.Proofs.FunctionTable.Pairs
