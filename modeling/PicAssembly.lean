import PicAssembly.Main
import PicAssembly.Sandbox
import PicAssembly.Proofs.Token.Spelling
import PicAssembly.Proofs.Token.Scanning
import PicAssembly.Proofs.Token.Printing
import PicAssembly.Proofs.Operand.Lexemes
import PicAssembly.Proofs.Operand.Printing
import PicAssembly.Proofs.Operand.Climbing
import PicAssembly.Proofs.Operand.RoundTrip
import PicAssembly.Proofs.Operand.Reading
import PicAssembly.Proofs.Operand.Preservation
import PicAssembly.Proofs.Operand.Grammar
import PicAssembly.Proofs.Text.Edges
import PicAssembly.Proofs.Line.Printing
import PicAssembly.Proofs.Line.Statement
import PicAssembly.Proofs.Line.Reading
import PicAssembly.Proofs.Line.Directive
import PicAssembly.Proofs.Line.RoundTrip
import PicAssembly.Proofs.Program.RoundTrip
import PicAssembly.Proofs.Line.Preservation
import PicAssembly.Proofs.Program.Correspondence
import PicAssembly.Proofs.Edit.Frames
import PicAssembly.Proofs.Edit.Rendition
import PicAssembly.Proofs.Edit.DeviceName
import PicAssembly.Proofs.Project.Files
import PicAssembly.Proofs.Project.Components
import PicAssembly.Proofs.Project.Paths
import PicAssembly.Proofs.Project.IncludedFiles
import PicAssembly.Proofs.Project.DefinesHeader
import PicAssembly.Proofs.Token.Places
import PicAssembly.Proofs.Token.Splitting
import PicAssembly.Proofs.Operand.Faults
import PicAssembly.Proofs.Operand.Agreement
import PicAssembly.Proofs.Operand.Names
import PicAssembly.Proofs.Program.Faults
import PicAssembly.Proofs.Line.Agreement
import PicAssembly.Proofs.Edit.Names
import PicAssembly.Proofs.Token.Partition
import PicAssembly.Proofs.CommandLine.Sessions
import PicAssembly.Proofs.Edit.SectionAddresses
import PicAssembly.Proofs.Project.Independence
import PicAssembly.Proofs.CommandLine.Conversion
import PicAssembly.Proofs.Context.PairFile
import PicAssembly.Proofs.Text.Case
import PicAssembly.Proofs.Context.Registers
import PicAssembly.Proofs.Device.BitNames
import PicAssembly.Proofs.CommandLine.NameBuilding
import PicAssembly.Proofs.Operand.Trimming
import PicAssembly.Proofs.Line.Tokens
import PicAssembly.Proofs.Line.Spacing
import PicAssembly.Proofs.Program.Spacing
import PicAssembly.Proofs.Edit.Nesting
import PicAssembly.Proofs.Edit.PoundSigns
import PicAssembly.Proofs.Edit.ConfigSettings
import PicAssembly.Proofs.Edit.SectionLines
import PicAssembly.Proofs.Text.Numerals
import PicAssembly.Proofs.Operand.Numerals
import PicAssembly.Proofs.Edit.NumberSpellings
import PicAssembly.Proofs.Project.ExactIncludes
import PicAssembly.Proofs.Operand.Positions
import PicAssembly.Proofs.Program.Visits
import PicAssembly.Proofs.Edit.Renaming
import PicAssembly.Proofs.Edit.MappedBits
import PicAssembly.Proofs.Program.Columns
import PicAssembly.Proofs.Text.EditDistance
import PicAssembly.Proofs.Context.PairFormat
import PicAssembly.Proofs.Device.FieldNames
import PicAssembly.Proofs.Device.BitBlocks
import PicAssembly.Proofs.Device.DescriptionFormat
import PicAssembly.Proofs.Context.LastWord
import PicAssembly.Proofs.Project.Injection
import PicAssembly.Proofs.Token.Progress
import PicAssembly.Proofs.Operand.Progress
import PicAssembly.Proofs.Operand.Invariants
import PicAssembly.Proofs.Program.Invariants
