import Bytecode.Main
import Bytecode.Proofs.Buffer.Growth
import Bytecode.Proofs.Instruction.Tiling
import Bytecode.Session.Buffer
import Bytecode.Session.Chunk
import Bytecode.Proofs.Chunk.Operations
import Bytecode.Proofs.Chunk.Program
import Bytecode.Proofs.Chunk.History
import Bytecode.Proofs.Chunk.Constants
import Bytecode.Proofs.Text.Characters
import Bytecode.Proofs.Text.Lines
import Bytecode.Proofs.Listing.Line
import Bytecode.Proofs.Chunk.Reachable
import Bytecode.Proofs.Listing.Traversal
import Bytecode.Proofs.Listing.Reading
import Bytecode.Proofs.Instruction.Concatenation
import Bytecode.Proofs.Listing.Extension
import Bytecode.Proofs.Session.Sequence
import Bytecode.Proofs.Chunk.EvenLines
import Bytecode.Proofs.Listing.Marks
import Bytecode.Proofs.Listing.SourceLines
import Bytecode.Proofs.Listing.Offsets
import Bytecode.Proofs.CommandLine.Answers
import Bytecode.Proofs.Listing.NewConstant
import Bytecode.Proofs.CommandLine.FirstFault
import Bytecode.Proofs.CommandLine.Spelling
import Bytecode.Proofs.Decimal.Positional
import Bytecode.Proofs.Value.RoundTrip
import Bytecode.Proofs.Binary64.Rounding
import Bytecode.Proofs.Decimal.FewestDigits
import Bytecode.Proofs.Listing.FullSink
import Bytecode.Proofs.Session.Logging
import Bytecode.Proofs.Buffer.Limit
import Bytecode.Proofs.Session.GrowthLog
import Bytecode.Proofs.Listing.Layout
import Bytecode.Proofs.Error.Causes
import Bytecode.Proofs.Buffer.Overlap
