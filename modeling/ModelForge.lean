import ModelForge.Analysis
import ModelForge.Analysis.Arguments
import ModelForge.Analysis.Classification
import ModelForge.Analysis.Composition
import ModelForge.Analysis.Context
import ModelForge.Analysis.Failure
import ModelForge.Analysis.Inheritance
import ModelForge.Annotation
import ModelForge.Annotation.Json
import ModelForge.CommandLine
import ModelForge.CommandLine.Display
import ModelForge.CommandLine.Usage
import ModelForge.Config
import ModelForge.Declaration
import ModelForge.Declaration.Json
import ModelForge.FileTree
import ModelForge.Generation
import ModelForge.Generation.Factory
import ModelForge.Generation.Types
import ModelForge.Index
import ModelForge.Json
import ModelForge.Json.Decode
import ModelForge.Json.Numeral
import ModelForge.Json.Printer
import ModelForge.Json.Reader
import ModelForge.Kotlin.Code
import ModelForge.Kotlin.Imports
import ModelForge.Kotlin.Printer
import ModelForge.Kotlin.Spelling
import ModelForge.Library.Declarations
import ModelForge.Library.Sources
import ModelForge.Loading
import ModelForge.Main
import ModelForge.Model
import ModelForge.Model.Json
import ModelForge.Names
import ModelForge.Path
import ModelForge.Problem
import ModelForge.Proofs.AbsentValues
import ModelForge.Proofs.AliasFlags
import ModelForge.Proofs.AliasUnfolding
import ModelForge.Proofs.AliasedSupertypes
import ModelForge.Proofs.AnalyzedModels
import ModelForge.Proofs.AnnotationRoundTrip
import ModelForge.Proofs.AnnotationWalk
import ModelForge.Proofs.BracketNesting
import ModelForge.Proofs.BuilderOutcome
import ModelForge.Proofs.CacheTransparency
import ModelForge.Proofs.CheckedSearch
import ModelForge.Proofs.ClassificationProblems
import ModelForge.Proofs.ClassificationRules
import ModelForge.Proofs.CodePieces
import ModelForge.Proofs.CodeVocabulary
import ModelForge.Proofs.CodeWriting
import ModelForge.Proofs.CompactText
import ModelForge.Proofs.ComposedFields
import ModelForge.Proofs.CompositionCycles
import ModelForge.Proofs.DeclaredTypes
import ModelForge.Proofs.DecodedParts
import ModelForge.Proofs.Decoding
import ModelForge.Proofs.DerivedNames
import ModelForge.Proofs.DottedNames
import ModelForge.Proofs.EscapedKeywords
import ModelForge.Proofs.Evaluation
import ModelForge.Proofs.ExpansionLimit
import ModelForge.Proofs.FactoryOutcome
import ModelForge.Proofs.FactoryScopes
import ModelForge.Proofs.FactoryTypes
import ModelForge.Proofs.FailureType
import ModelForge.Proofs.FailureVariants
import ModelForge.Proofs.HiddenNames
import ModelForge.Proofs.ImportNames
import ModelForge.Proofs.IndexAgreement
import ModelForge.Proofs.IndexConstruction
import ModelForge.Proofs.InheritedOverrides
import ModelForge.Proofs.InterfaceWalk
import ModelForge.Proofs.LinkLevels
import ModelForge.Proofs.LoadOrder
import ModelForge.Proofs.MentionedNames
import ModelForge.Proofs.OutputDirectory
import ModelForge.Proofs.OutputPaths
import ModelForge.Proofs.PrevalidatedProperties
import ModelForge.Proofs.PropertyOrder
import ModelForge.Proofs.PropertyResult
import ModelForge.Proofs.ReaderSteps
import ModelForge.Proofs.RecordRoundTrip
import ModelForge.Proofs.ReferenceEncodings
import ModelForge.Proofs.Regeneration
import ModelForge.Proofs.RepeatedProperties
import ModelForge.Proofs.ReportAgreement
import ModelForge.Proofs.Reserialization
import ModelForge.Proofs.RunIndependence
import ModelForge.Proofs.ScopeHygiene
import ModelForge.Proofs.SpelledUses
import ModelForge.Proofs.SpelledVocabulary
import ModelForge.Proofs.StoredTypes
import ModelForge.Proofs.SubstitutedTypes
import ModelForge.Proofs.SubstitutionLaws
import ModelForge.Proofs.SuppliedNames
import ModelForge.Proofs.TemplateOccurrences
import ModelForge.Proofs.TreeWriting
import ModelForge.Proofs.TypeArguments
import ModelForge.Proofs.TypeParameters
import ModelForge.Proofs.TypeParsing
import ModelForge.Proofs.TypeTokens
import ModelForge.Proofs.UnionBodies
import ModelForge.Proofs.UnmentionedDeclarations
import ModelForge.Proofs.ValidatorChain
import ModelForge.Proofs.ValidatorSearch
import ModelForge.Proofs.VariantNames
import ModelForge.Proofs.VisitOrder
import ModelForge.Proofs.WrittenDeclarations
import ModelForge.Proofs.WrittenNames
import ModelForge.Property
import ModelForge.Run
import ModelForge.Text.Blank
import ModelForge.Text.Capital
import ModelForge.Text.Letter
import ModelForge.TypeName
import ModelForge.TypeRef
import ModelForge.TypeRef.Json
import ModelForge.TypeRef.Parser
import ModelForge.Warning
