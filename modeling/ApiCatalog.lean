import ApiCatalog.Text.RangeTable
import ApiCatalog.Text.Alphabetic
import ApiCatalog.Text.Blank
import ApiCatalog.Text.Printable
import ApiCatalog.Text.Quoted
import ApiCatalog.Text.Position
import ApiCatalog.Number.Integer
import ApiCatalog.Number.Binary64
import ApiCatalog.Number.Shortest
import ApiCatalog.NameMap
import ApiCatalog.OrderedMap
import ApiCatalog.Problem
import ApiCatalog.Form.Basic
import ApiCatalog.Form.Token
import ApiCatalog.Form.Lexer
import ApiCatalog.Form.Reader
import ApiCatalog.Form.Printer
import ApiCatalog.Form.Layout
import ApiCatalog.Form.Fault
import ApiCatalog.TypeExpr.Basic
import ApiCatalog.TypeExpr.OfForm
import ApiCatalog.TypeExpr.ToForm
import ApiCatalog.Declaration.Basic
import ApiCatalog.Declaration.OfForm
import ApiCatalog.Declaration.ToForm
import ApiCatalog.Catalog.Basic
import ApiCatalog.Catalog.Inheritance
import ApiCatalog.Catalog.Members
import ApiCatalog.Catalog.Assignable
import ApiCatalog.Catalog.Validation
import ApiCatalog.Loading
import ApiCatalog.Slots
import ApiCatalog.Snapshot.MessagePack
import ApiCatalog.Snapshot.Encode
import ApiCatalog.Snapshot.Decode
import ApiCatalog.Bundled.Dom
import ApiCatalog.Bundled.WebAudio
import ApiCatalog.Bundled.ServiceWorker
import ApiCatalog.Bundled.Collection
import ApiCatalog.Proofs.Placement
import ApiCatalog.Proofs.Spelling
import ApiCatalog.Proofs.DeclarationParts
import ApiCatalog.Proofs.ExpressibleDeclarations
import ApiCatalog.Proofs.OrderedMaps
import ApiCatalog.Proofs.Collecting
import ApiCatalog.Proofs.WrittenDeclarations
import ApiCatalog.Proofs.Lineage
import ApiCatalog.Proofs.Lexing
import ApiCatalog.Proofs.SearchOrder
import ApiCatalog.Proofs.ShadowedMembers
import ApiCatalog.Proofs.PlacedReading
import ApiCatalog.Proofs.Concatenation
import ApiCatalog.Proofs.DecimalText
import ApiCatalog.Proofs.SpelledReading
import ApiCatalog.Proofs.PrintableDeclarations
import ApiCatalog.Proofs.PrintedAtoms
import ApiCatalog.Proofs.PrintedForms
import ApiCatalog.Proofs.Indentation
import ApiCatalog.Proofs.RepeatedClauses
import ApiCatalog.Proofs.Rereading
import ApiCatalog.Proofs.Layouts
import ApiCatalog.Proofs.LargeNumbers
import ApiCatalog.Proofs.SourceRoundTrip
import ApiCatalog.Proofs.Comparison
import ApiCatalog.Proofs.AssignableChains
import ApiCatalog.Proofs.AliasPaths
import ApiCatalog.Proofs.Expansion
import ApiCatalog.Proofs.TransparentAliases
import ApiCatalog.Proofs.Values
import ApiCatalog.Proofs.Soundness
import ApiCatalog.Proofs.ProblemPlaces
import ApiCatalog.Proofs.Cycles
import ApiCatalog.Proofs.Substitution
import ApiCatalog.Proofs.CallableShapes
import ApiCatalog.Proofs.MapHistories
import ApiCatalog.Proofs.MemberQueries
import ApiCatalog.Proofs.ReadonlyProperties
import ApiCatalog.Proofs.SpecificMembers
import ApiCatalog.Proofs.KeptDeclarations
import ApiCatalog.Proofs.UnseenChanges
import ApiCatalog.Proofs.SameDeclarations
import ApiCatalog.Proofs.SourceOrder
import ApiCatalog.Proofs.DiscardedForms
import ApiCatalog.Proofs.UnknownEscapes
import ApiCatalog.Proofs.RecoveryRounds
import ApiCatalog.Proofs.Grammar
import ApiCatalog.Proofs.FaultlessReading
import ApiCatalog.Proofs.TokenTiling
import ApiCatalog.Proofs.Excerpts
import ApiCatalog.Proofs.ExactSpans
import ApiCatalog.Proofs.FirstForms
import ApiCatalog.Proofs.WrittenValues
import ApiCatalog.Proofs.Unpacking
import ApiCatalog.Proofs.PackedDeclarations
import ApiCatalog.Proofs.SnapshotContents
import ApiCatalog.Proofs.SnapshotRoundTrip
import ApiCatalog.Proofs.UncheckedSnapshots
import ApiCatalog.Proofs.ByteOffsets
import ApiCatalog.Proofs.IndexedAnalysis
import ApiCatalog.Proofs.IndexedLayout
import ApiCatalog.Proofs.IndexedLoading
