import Dwarf2.Main
import Dwarf2.Register
import Dwarf2.Proofs.Build.Reference
import Dwarf2.Proofs.Build.Body
import Dwarf2.Proofs.Build.Parts
import Dwarf2.Proofs.Build.Bounds
import Dwarf2.Proofs.Entry.Values
import Dwarf2.Proofs.Session.Table
import Dwarf2.Proofs.Symbol.Operation
import Dwarf2.Proofs.Symbol.AddressIndex
import Dwarf2.Proofs.Symbol.LineOrder
import Dwarf2.Proofs.Symbol.Attachment
import Dwarf2.Proofs.Symbol.Repetition
import Dwarf2.Proofs.Symbol.Relocation
import Dwarf2.Proofs.Build.Relocation.Type
import Dwarf2.Proofs.Build.Relocation.Function
import Dwarf2.Proofs.Build.Relocation.Unit
import Dwarf2.Proofs.Section.Carried
import Dwarf2.Proofs.Line.Instruction
import Dwarf2.Proofs.Line.Prologue
import Dwarf2.Proofs.Line.Compression
import Dwarf2.Proofs.Line.Relocation
import Dwarf2.Proofs.CompilationUnit.Relocation
import Dwarf2.Proofs.Session.Reachable
import Dwarf2.Proofs.Session.Relocation
import Dwarf2.Proofs.Line.Repetition
import Dwarf2.Proofs.Location.Operation
import Dwarf2.Proofs.Checked.Step
import Dwarf2.Proofs.Checked.Number
import Dwarf2.Proofs.Checked.Read
import Dwarf2.Proofs.Checked.Unit
import Dwarf2.Proofs.Checked.Entry
import Dwarf2.Proofs.Checked.Location
import Dwarf2.Proofs.Checked.Symbol
import Dwarf2.Proofs.Checked.Line.Instruction
import Dwarf2.Proofs.Checked.Line.Program
import Dwarf2.Proofs.Checked.Session
import Dwarf2.Proofs.Location.Register
import Dwarf2.Proofs.Line.Closing
import Dwarf2.Proofs.Entry.Continued
import Dwarf2.Proofs.CompilationUnit.Own
import Dwarf2.Proofs.Number.Spelling
import Dwarf2.Proofs.Section.Taken
import Dwarf2.Proofs.Location.Encoding
import Dwarf2.Proofs.Location.Expression
import Dwarf2.Proofs.Abbreviation
import Dwarf2.Proofs.Encoding.Indirection
import Dwarf2.Proofs.Line.Encoding
import Dwarf2.Proofs.Line.Sequence
import Dwarf2.Proofs.Line.Truncation
import Dwarf2.Proofs.Line.Transparency
import Dwarf2.Proofs.Symbol.Source
import Dwarf2.Proofs.Symbol.History
import Dwarf2.Proofs.Path
import Dwarf2.Proofs.Line.Files
import Dwarf2.Proofs.Symbol.Walk
import Dwarf2.Proofs.Build.Waiting.Step
import Dwarf2.Proofs.Build.Waiting.Type
import Dwarf2.Proofs.Build.Waiting.Function
import Dwarf2.Proofs.Build.Waiting.Unit
import Dwarf2.Proofs.Build.BitField
import Dwarf2.Proofs.Build.Placement
import Dwarf2.Proofs.Number.Padding
import Dwarf2.Proofs.Session.Names
import Dwarf2.Proofs.Section.Primitive
