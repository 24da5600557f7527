import TypeAtlas.Table
import TypeAtlas.Json.Reader
import TypeAtlas.Json.Decode
import TypeAtlas.Text.Uppercase
import TypeAtlas.Ty.Basic
import TypeAtlas.Ty.Equality
import TypeAtlas.Ty.Format
import TypeAtlas.Ty.Codec
import TypeAtlas.Object
import TypeAtlas.Universe.Satisfaction
import TypeAtlas.Export.Codec
import TypeAtlas.Export.Directory
import TypeAtlas.Entity.Catalog
import TypeAtlas.Entity.Extraction
import TypeAtlas.Files.Walk
import TypeAtlas.Registry.ImportGraph
import TypeAtlas.Registry.Load
import TypeAtlas.Proofs.Arrivals
import TypeAtlas.Proofs.EmbeddingPaths
import TypeAtlas.Proofs.Tables
import TypeAtlas.Proofs.SelectorRule
import TypeAtlas.Proofs.CheckedExports
import TypeAtlas.Proofs.Directories
import TypeAtlas.Proofs.EmbeddedInterfaces
import TypeAtlas.Proofs.Extraction
import TypeAtlas.Proofs.Loading
import TypeAtlas.Proofs.Registration
import TypeAtlas.Proofs.ImplementsRelation
import TypeAtlas.Proofs.RootOrder
import TypeAtlas.Proofs.Pruning
import TypeAtlas.Proofs.FileNames
import TypeAtlas.Proofs.RepeatedPackages
import TypeAtlas.Proofs.FailedLoads
import TypeAtlas.Proofs.AnalyzedPackages
import TypeAtlas.Proofs.Locality
import TypeAtlas.Proofs.SearchExtent
import TypeAtlas.Proofs.StagedLoads
import TypeAtlas.Proofs.Lifecycle
import TypeAtlas.Proofs.ComparisonDepth
import TypeAtlas.Proofs.LocalQueries
import TypeAtlas.Proofs.CatalogAgreement
import TypeAtlas.Proofs.RecordedMethods
import TypeAtlas.Proofs.DefinedNames
import TypeAtlas.Proofs.WrittenText
import TypeAtlas.Proofs.ExportText
import TypeAtlas.Proofs.LocalDeclarations
import TypeAtlas.Proofs.RepeatedLoads
import TypeAtlas.Proofs.TypeIdentity
import TypeAtlas.Proofs.InterfaceSatisfaction
import TypeAtlas.Proofs.PointerForms
import TypeAtlas.Proofs.CheckOutcomes
import TypeAtlas.Proofs.PackageLists
import TypeAtlas.Proofs.ExtractedPackages
import TypeAtlas.Proofs.DirectoryWalks
import TypeAtlas.Proofs.ImportGraphs
import TypeAtlas.Proofs.LoadOutcomes
import TypeAtlas.Proofs.DefinitionChains
import TypeAtlas.Proofs.SearchRounds
import TypeAtlas.Proofs.CatalogHistories
import TypeAtlas.Proofs.UnderlyingTypes
