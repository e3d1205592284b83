import CodeAtlas.Cache
import CodeAtlas.Command.Outcome
import CodeAtlas.Facts.Encoding
import CodeAtlas.Json.Parser
import CodeAtlas.Json.Printer
import CodeAtlas.Main
import CodeAtlas.Query.Encoding
import CodeAtlas.Repository
import CodeAtlas.Service.Api
import CodeAtlas.Service.FormData
import CodeAtlas.Service.MediaType
import CodeAtlas.Service.RequestBody
import CodeAtlas.Text.Numeral
import CodeAtlas.Text.Utf8
import CodeAtlas.Tree.Fingerprint
import CodeAtlas.Proofs.Attribution
import CodeAtlas.Proofs.CallGraph
import CodeAtlas.Proofs.Merge
import CodeAtlas.Proofs.SymbolTable
import CodeAtlas.Proofs.Build
import CodeAtlas.Proofs.Analysis
import CodeAtlas.Proofs.Counts
import CodeAtlas.Proofs.Walks
import CodeAtlas.Proofs.Reachable
import CodeAtlas.Proofs.Paths
import CodeAtlas.Proofs.Answers
import CodeAtlas.Proofs.RecentMap
import CodeAtlas.Proofs.Scan
import CodeAtlas.Proofs.SharedCache
import CodeAtlas.Proofs.View
import CodeAtlas.Proofs.UnitOrder
import CodeAtlas.Proofs.CacheHistory
import CodeAtlas.Proofs.SeveralSettings
import CodeAtlas.Proofs.SyntaxTree
import CodeAtlas.Proofs.Judgement
import CodeAtlas.Proofs.Spans
import CodeAtlas.Proofs.PythonFiles
import CodeAtlas.Proofs.JsonCodec
import CodeAtlas.Proofs.RoundTrip
import CodeAtlas.Proofs.DirectedPaths
import CodeAtlas.Proofs.SimplePaths
import CodeAtlas.Proofs.Packages
import CodeAtlas.Proofs.Diagram
import CodeAtlas.Proofs.LineOwners
import CodeAtlas.Proofs.QueryBounds
import CodeAtlas.Proofs.PathOrder
import CodeAtlas.Proofs.Partition
import CodeAtlas.Proofs.FirstOffence
import CodeAtlas.Proofs.ByteOrder
import CodeAtlas.Proofs.Dependencies
import CodeAtlas.Proofs.CallSites
import CodeAtlas.Proofs.RuleYields
import CodeAtlas.Proofs.Grammatical
import CodeAtlas.Proofs.ImportNames
import CodeAtlas.Proofs.Signatures
import CodeAtlas.Proofs.OwnNames
import CodeAtlas.Proofs.MoreUnits
import CodeAtlas.Proofs.DeclarationCounts
import CodeAtlas.Proofs.LinesDown
import CodeAtlas.Proofs.RowsDown
import CodeAtlas.Proofs.ModuleNames
import CodeAtlas.Proofs.ScanBytes
import CodeAtlas.Proofs.ScannedFiles
import CodeAtlas.Proofs.MarkedSubtrees
import CodeAtlas.Proofs.MarkedStacks
import CodeAtlas.Proofs.MarkedSlices
import CodeAtlas.Proofs.MarkedReductions
import CodeAtlas.Proofs.MarkedActions
import CodeAtlas.Proofs.PlainReading
import CodeAtlas.Proofs.ByteOrderMark
import CodeAtlas.Proofs.PackageNames
import CodeAtlas.Proofs.PathQueue
import CodeAtlas.Proofs.DecodedBytes
import CodeAtlas.Proofs.PathTexts
import CodeAtlas.Proofs.Lists
import CodeAtlas.Proofs.ReachQueue
