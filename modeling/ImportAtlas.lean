import ImportAtlas.Bytes.Word
import ImportAtlas.Code.Assembler
import ImportAtlas.Code.Format
import ImportAtlas.Code.LineTable
import ImportAtlas.Code.Unit
import ImportAtlas.Code.Walk
import ImportAtlas.Command.Document
import ImportAtlas.Command.Request
import ImportAtlas.Command.Run
import ImportAtlas.Command.Words
import ImportAtlas.Compile
import ImportAtlas.Container.Basic
import ImportAtlas.Container.Object
import ImportAtlas.Container.Reader
import ImportAtlas.Container.Tag
import ImportAtlas.Container.Writer
import ImportAtlas.Digest.Blake3
import ImportAtlas.Error
import ImportAtlas.File.Discovery
import ImportAtlas.File.Order
import ImportAtlas.File.Path
import ImportAtlas.File.Program
import ImportAtlas.File.Replace
import ImportAtlas.File.SystemError
import ImportAtlas.File.Tree
import ImportAtlas.Import.Extract
import ImportAtlas.Import.Record
import ImportAtlas.Import.Scan
import ImportAtlas.Import.Source
import ImportAtlas.Index.Basic
import ImportAtlas.Index.Keyed
import ImportAtlas.Json.Reader
import ImportAtlas.Json.Value
import ImportAtlas.Main
import ImportAtlas.Number.Binary64
import ImportAtlas.Number.Decimal
import ImportAtlas.Proofs.Code.Assembler
import ImportAtlas.Proofs.Code.Coverage
import ImportAtlas.Proofs.Code.Disassembly
import ImportAtlas.Proofs.Code.Equality
import ImportAtlas.Proofs.Code.Extension
import ImportAtlas.Proofs.Code.LineTable
import ImportAtlas.Proofs.Code.Lookup
import ImportAtlas.Proofs.Code.Progress
import ImportAtlas.Proofs.Code.StartedLines
import ImportAtlas.Proofs.Code.Walk
import ImportAtlas.Proofs.Command.Compile
import ImportAtlas.Proofs.Command.Precedence
import ImportAtlas.Proofs.Command.Warnings
import ImportAtlas.Proofs.Container.Agreement
import ImportAtlas.Proofs.Container.Bind
import ImportAtlas.Proofs.Container.Descent
import ImportAtlas.Proofs.Container.Framed
import ImportAtlas.Proofs.Container.Framing
import ImportAtlas.Proofs.Container.Interning
import ImportAtlas.Proofs.Container.Machine
import ImportAtlas.Proofs.Container.Reads
import ImportAtlas.Proofs.Container.RoundTrip
import ImportAtlas.Proofs.Container.Safety
import ImportAtlas.Proofs.Container.Spelling
import ImportAtlas.Proofs.Container.Storable
import ImportAtlas.Proofs.Except
import ImportAtlas.Proofs.File.Atomic
import ImportAtlas.Proofs.File.Below
import ImportAtlas.Proofs.File.Discovery
import ImportAtlas.Proofs.File.Parts
import ImportAtlas.Proofs.File.Replace
import ImportAtlas.Proofs.File.Tree
import ImportAtlas.Proofs.Import.Containment
import ImportAtlas.Proofs.Import.Emission
import ImportAtlas.Proofs.Import.Preorder
import ImportAtlas.Proofs.Import.Program
import ImportAtlas.Proofs.Import.Records
import ImportAtlas.Proofs.Import.Recovery
import ImportAtlas.Proofs.Index.Grouping
import ImportAtlas.Proofs.Index.Keyed
import ImportAtlas.Proofs.Index.Permutation
import ImportAtlas.Proofs.Index.TopLevel
import ImportAtlas.Proofs.Layout.Filling
import ImportAtlas.Proofs.Layout.Splitting
import ImportAtlas.Proofs.Layout.Wrap
import ImportAtlas.Proofs.Report.Dependencies
import ImportAtlas.Proofs.Report.Rank
import ImportAtlas.Proofs.Sample.Alignment
import ImportAtlas.Proofs.Sample.Program
import ImportAtlas.Proofs.Text.Lines
import ImportAtlas.Proofs.Text.Lossy
import ImportAtlas.Proofs.Text.Pieces
import ImportAtlas.Proofs.Text.Utf8
import ImportAtlas.Proofs.Text.Words
import ImportAtlas.Release
import ImportAtlas.Report.Dependencies
import ImportAtlas.Report.Imports
import ImportAtlas.Report.Rank
import ImportAtlas.Sample
import ImportAtlas.Settings
import ImportAtlas.Text.Blank
import ImportAtlas.Text.Layout
import ImportAtlas.Text.Pieces
import ImportAtlas.Text.Quoted
import ImportAtlas.Text.Utf8
