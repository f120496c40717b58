import PycListing.Code.Change
import PycListing.Main
import PycListing.Proofs.Marshal.Descent
import PycListing.Proofs.Marshal.Refinement
import PycListing.Proofs.Decimal.Limbs
import PycListing.Proofs.LittleEndian
import PycListing.Proofs.Marshal.Encoding
import PycListing.Proofs.Text.Utf8
import PycListing.Proofs.Marshal.RoundTrip
import PycListing.Proofs.Marshal.Session
import PycListing.Proofs.Marshal.Record
import PycListing.Proofs.Marshal.BackReference
import PycListing.Proofs.Marshal.Depth
import PycListing.Proofs.Marshal.Composition
import PycListing.Proofs.Marshal.SelfDelimiting
import PycListing.Proofs.Fallible
import PycListing.Proofs.Traversal.Occurrence
import PycListing.Proofs.Traversal.Orders
import PycListing.Proofs.Listing.Sections
import PycListing.Proofs.Listing.Metadata
import PycListing.Proofs.Container.Load
import PycListing.Proofs.Code.Within
import PycListing.Proofs.Marshal.Fit
import PycListing.Proofs.Text.Quoted
import PycListing.Proofs.Text.Numeral
import PycListing.Proofs.Decimal.Scaling
import PycListing.Proofs.Marshal.LongInteger
import PycListing.Proofs.Code.Literal
import PycListing.Proofs.Text.Words
import PycListing.Proofs.Opcode.Mnemonics
import PycListing.Proofs.Text.Lines
import PycListing.Proofs.Code.OneLine
import PycListing.Proofs.Instruction.Row
import PycListing.Proofs.Instruction.Tiling
import PycListing.Proofs.Instruction.Meaning
import PycListing.Proofs.Instruction.Extension
import PycListing.Proofs.Instruction.LineStarts
import PycListing.Proofs.Instruction.Split
import PycListing.Proofs.Instruction.Rejection
import PycListing.Proofs.Instruction.JumpMarks
import PycListing.Proofs.Instruction.Shown
import PycListing.Proofs.Instruction.Listing
import PycListing.Proofs.Instruction.Layout
import PycListing.Proofs.Checked.Word
import PycListing.Proofs.Checked.Stream
import PycListing.Proofs.Checked.Decode
import PycListing.Proofs.Checked.Order
import PycListing.Proofs.Traversal.PostOrder
import PycListing.Proofs.Traversal.Levels
import PycListing.Proofs.Checked.Loaded
import PycListing.Proofs.Checked.Render
import PycListing.Proofs.Files.Tree
import PycListing.Proofs.Files.Actions
import PycListing.Proofs.Command.AllOrNothing
import PycListing.Proofs.Marshal.Progress
import PycListing.Proofs.Marshal.Culprit
import PycListing.Proofs.Marshal.Diagnosis
import PycListing.Proofs.Files.Path
import PycListing.Proofs.Files.Artifact
import PycListing.Proofs.Text.Hexadecimal
import PycListing.Proofs.Code.Flags
import PycListing.Proofs.Version
import PycListing.Proofs.Instruction.Concatenation
import PycListing.Proofs.Marshal.Accounting
import PycListing.Proofs.Opcode.Coherence
import PycListing.Proofs.Requests
import PycListing.Proofs.Code.Change
