import Inspector.Artifact
import Inspector.Backend
import Inspector.Backend.Editor
import Inspector.Backend.Printer
import Inspector.Command
import Inspector.CommandLine
import Inspector.Decimal.Binary64
import Inspector.Decimal.Shortest
import Inspector.Descriptor
import Inspector.DescriptorFile
import Inspector.DescriptorFile.Json
import Inspector.DescriptorFile.Part
import Inspector.DescriptorFile.Yaml
import Inspector.Diagnostic
import Inspector.Emission
import Inspector.Failure
import Inspector.Glob.CharClass
import Inspector.Glob.Expand
import Inspector.Glob.Pattern
import Inspector.Json.Decode
import Inspector.Json.Draft
import Inspector.Json.Numeral
import Inspector.Json.Quoted
import Inspector.Json.Read
import Inspector.Json.Value
import Inspector.Load
import Inspector.Location
import Inspector.Log
import Inspector.Main
import Inspector.Names
import Inspector.Path
import Inspector.Primitive
import Inspector.Proofs.Agreement
import Inspector.Proofs.Banner
import Inspector.Proofs.Batch
import Inspector.Proofs.BodyLines
import Inspector.Proofs.BodyTokens
import Inspector.Proofs.ByteOrder
import Inspector.Proofs.Calls
import Inspector.Proofs.ClassBody
import Inspector.Proofs.ClosedTables
import Inspector.Proofs.Components
import Inspector.Proofs.Coverage
import Inspector.Proofs.Cycles
import Inspector.Proofs.DeepPattern
import Inspector.Proofs.Deletion
import Inspector.Proofs.Delivery
import Inspector.Proofs.Dependency
import Inspector.Proofs.DependencySets
import Inspector.Proofs.DepthBound
import Inspector.Proofs.DepthLimit
import Inspector.Proofs.DiagnosticsGate
import Inspector.Proofs.Embedding
import Inspector.Proofs.EmissionOrder
import Inspector.Proofs.Expansion
import Inspector.Proofs.FieldAccess
import Inspector.Proofs.Forecast
import Inspector.Proofs.InputOrder
import Inspector.Proofs.InputPaths
import Inspector.Proofs.Interleaving
import Inspector.Proofs.JsonText
import Inspector.Proofs.JsonToken
import Inspector.Proofs.Lexer
import Inspector.Proofs.Lines
import Inspector.Proofs.Linkage
import Inspector.Proofs.Listing
import Inspector.Proofs.Loading
import Inspector.Proofs.Marking
import Inspector.Proofs.Matching
import Inspector.Proofs.Output
import Inspector.Proofs.PathOrder
import Inspector.Proofs.Reach
import Inspector.Proofs.Redeclaration
import Inspector.Proofs.ReportRecovery
import Inspector.Proofs.Requests
import Inspector.Proofs.Resolution
import Inspector.Proofs.RoundTrip
import Inspector.Proofs.Segments
import Inspector.Proofs.Spelling
import Inspector.Proofs.Tokens
import Inspector.Proofs.TreeChange
import Inspector.Proofs.VisitStates
import Inspector.Proofs.Walk
import Inspector.Register
import Inspector.Report
import Inspector.Report.Json
import Inspector.Resolver
import Inspector.Settings
import Inspector.Table
import Inspector.Table.Dump
import Inspector.Text.Invisible
import Inspector.Text.Lines
import Inspector.Text.Quoted
import Inspector.Tree
import Inspector.Tree.Walk
import Inspector.Yaml.Character
import Inspector.Yaml.Decode
import Inspector.Yaml.Document
import Inspector.Yaml.Node
import Inspector.Yaml.Scalar
import Inspector.Yaml.Token
