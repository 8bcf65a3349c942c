import DeclArchive.CommandLine.Arguments
import DeclArchive.CommandLine.Run
import DeclArchive.Container.Build
import DeclArchive.Container.Header
import DeclArchive.Container.Json
import DeclArchive.Container.Load
import DeclArchive.Container.Save
import DeclArchive.Container.Stream
import DeclArchive.Declaration
import DeclArchive.Declaration.Forest
import DeclArchive.Declaration.Forest.Json
import DeclArchive.Declaration.Json
import DeclArchive.Directory
import DeclArchive.Error
import DeclArchive.Files
import DeclArchive.Heap
import DeclArchive.Heap.Image
import DeclArchive.Heap.Writer
import DeclArchive.Json
import DeclArchive.Json.Print
import DeclArchive.Json.Read
import DeclArchive.Json.Token
import DeclArchive.LittleEndian
import DeclArchive.Log
import DeclArchive.Main
import DeclArchive.NameIndex
import DeclArchive.NameIndex.Capacity
import DeclArchive.NameIndex.Hash
import DeclArchive.Proofs.Container.Build
import DeclArchive.Proofs.Container.Extension
import DeclArchive.Proofs.Container.FixedStream
import DeclArchive.Proofs.Container.InPlace
import DeclArchive.Proofs.Container.Load
import DeclArchive.Proofs.Container.NulNames
import DeclArchive.Proofs.Container.References
import DeclArchive.Proofs.Container.Refusal
import DeclArchive.Proofs.Container.Reordering
import DeclArchive.Proofs.Container.RoundTrip
import DeclArchive.Proofs.Container.Safety
import DeclArchive.Proofs.Container.Save
import DeclArchive.Proofs.Container.Stream
import DeclArchive.Proofs.Container.Widening
import DeclArchive.Proofs.Declaration
import DeclArchive.Proofs.Declaration.Json
import DeclArchive.Proofs.Extension
import DeclArchive.Proofs.Files
import DeclArchive.Proofs.Foretold
import DeclArchive.Proofs.Found
import DeclArchive.Proofs.Image
import DeclArchive.Proofs.Image.Text
import DeclArchive.Proofs.Interning
import DeclArchive.Proofs.Json
import DeclArchive.Proofs.NameIndex
import DeclArchive.Proofs.NameIndex.Capacity
import DeclArchive.Proofs.NameIndex.Entries
import DeclArchive.Proofs.Planting
import DeclArchive.Proofs.Reaches
import DeclArchive.Proofs.Record
import DeclArchive.Proofs.Record.Initializers
import DeclArchive.Proofs.Record.VersionByte
import DeclArchive.Proofs.Refusal
import DeclArchive.Proofs.Register
import DeclArchive.Proofs.Registration
import DeclArchive.Proofs.Runs
import DeclArchive.Proofs.Safety
import DeclArchive.Proofs.Session
import DeclArchive.Proofs.Stored
import DeclArchive.Proofs.StoredCounts
import DeclArchive.Proofs.Subtypes
import DeclArchive.Proofs.TypeExpr
import DeclArchive.Proofs.TypeExpr.Cost
import DeclArchive.Proofs.TypeExpr.Found
import DeclArchive.Proofs.TypeExpr.Layout
import DeclArchive.Proofs.TypeExpr.Node
import DeclArchive.Proofs.TypeExpr.Passes
import DeclArchive.Proofs.TypeExpr.Refusal
import DeclArchive.Proofs.TypeExpr.Rewriting
import DeclArchive.Proofs.TypeExpr.RoundTrip
import DeclArchive.Proofs.Utf8
import DeclArchive.Proofs.Utf8.Flaws
import DeclArchive.Proofs.Widening
import DeclArchive.Proofs.Writer
import DeclArchive.Record.Flags
import DeclArchive.Record.Initializers
import DeclArchive.Record.Register
import DeclArchive.Record.Session
import DeclArchive.Record.VersionByte
import DeclArchive.Record.Write
import DeclArchive.Stored
import DeclArchive.Stored.Json
import DeclArchive.Stored.Read
import DeclArchive.Text.Decimal
import DeclArchive.Text.Decimal.Range
import DeclArchive.Text.Utf8
import DeclArchive.TypeExpr
import DeclArchive.TypeExpr.Decode
import DeclArchive.TypeExpr.Encode
import DeclArchive.TypeExpr.Json
import DeclArchive.TypeExpr.Tag
import DeclArchive.Widths
