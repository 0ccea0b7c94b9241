import SymbolRenaming.Text.Alphabet
import SymbolRenaming.Text.Lines
import SymbolRenaming.Text.Split
import SymbolRenaming.SymbolError
import SymbolRenaming.Identifier
import SymbolRenaming.ClassName
import SymbolRenaming.VmType
import SymbolRenaming.Descriptor
import SymbolRenaming.Member
import SymbolRenaming.Table
import SymbolRenaming.Notice
import SymbolRenaming.Mappings
import SymbolRenaming.Composition
import SymbolRenaming.Format.Codec
import SymbolRenaming.Data.Symbols
import SymbolRenaming.Workbench
import SymbolRenaming.LogFilter
import SymbolRenaming.Outcome
import SymbolRenaming.Data.ChainFile
import SymbolRenaming.Main
import SymbolRenaming.Proofs.Composition.Kinds
import SymbolRenaming.Proofs.Composition.Run
import SymbolRenaming.Proofs.Composition.Law
import SymbolRenaming.Proofs.Composition.Success
import SymbolRenaming.Proofs.Composition.Sequential
import SymbolRenaming.Proofs.Symbols.Reading
import SymbolRenaming.Proofs.Symbols.Spelling
import SymbolRenaming.Proofs.Table.Writes
import SymbolRenaming.Proofs.Mappings.Names
import SymbolRenaming.Proofs.Mappings.History
import SymbolRenaming.Proofs.Mappings.Agreement
import SymbolRenaming.Proofs.Format.Reading
import SymbolRenaming.Proofs.Format.Representable
import SymbolRenaming.Proofs.Format.RoundTrip
import SymbolRenaming.Proofs.Format.Conversion
import SymbolRenaming.Proofs.Format.CompactForm
import SymbolRenaming.Proofs.Format.Changes
import SymbolRenaming.Proofs.Format.Reordering
import SymbolRenaming.Proofs.Mappings.Inverse
import SymbolRenaming.Proofs.Mappings.Return
import SymbolRenaming.Proofs.Mappings.Admission
import SymbolRenaming.Proofs.Composition.Inverse
import SymbolRenaming.Proofs.Format.Inverse
import SymbolRenaming.Proofs.Program.AllOrNothing
import SymbolRenaming.Proofs.Composition.Account
import SymbolRenaming.Proofs.Composition.Stale
import SymbolRenaming.Proofs.Composition.Trailing
import SymbolRenaming.Proofs.Composition.Neutral
import SymbolRenaming.Proofs.Program.Arguments
import SymbolRenaming.Proofs.Text.Pieces
import SymbolRenaming.Proofs.Program.PackagePairs
import SymbolRenaming.Proofs.Program.ChainRequest
import SymbolRenaming.Proofs.Symbols.TypeSpelling
import SymbolRenaming.Proofs.Symbols.Renamed
import SymbolRenaming.Proofs.Text.LineBreaks
import SymbolRenaming.Proofs.Format.Refusal
import SymbolRenaming.Proofs.Format.Overrides
import SymbolRenaming.Proofs.Symbols.MemberSpelling
import SymbolRenaming.Proofs.Mappings.PackageRules
import SymbolRenaming.Proofs.Program.Checking
import SymbolRenaming.Proofs.Format.Interruption
import SymbolRenaming.Proofs.LogFilter.Environment
