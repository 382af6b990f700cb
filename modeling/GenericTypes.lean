import GenericTypes.Json.Declarations
import GenericTypes.Config.Document
import GenericTypes.Config.Filter
import GenericTypes.Config.Schema
import GenericTypes.Spelling
import GenericTypes.TypeStore.Seeded
import GenericTypes.Resolver.Report
import GenericTypes.Resolver.Depth
import GenericTypes.Proofs.Memo
import GenericTypes.Proofs.WellFormed
import GenericTypes.Proofs.Chain
import GenericTypes.Proofs.Search
import GenericTypes.Proofs.Conversion
import GenericTypes.Proofs.Members
import GenericTypes.Proofs.Checking
import GenericTypes.Proofs.Regular
import GenericTypes.Proofs.Climb
import GenericTypes.Proofs.Arena
import GenericTypes.Proofs.Upkeep
import GenericTypes.Proofs.History
import GenericTypes.Proofs.Comparison
import GenericTypes.Proofs.Admission
import GenericTypes.Proofs.Reflexivity
import GenericTypes.Proofs.Ancestors
import GenericTypes.Proofs.DirectSupertypes
import GenericTypes.Proofs.Pruning
import GenericTypes.Proofs.MemberShapes
import GenericTypes.Proofs.Plan
import GenericTypes.Proofs.Questions
import GenericTypes.Proofs.Turns
import GenericTypes.Proofs.Termination
import GenericTypes.Proofs.Renaming
import GenericTypes.Proofs.Lockstep
import GenericTypes.Proofs.Independence
import GenericTypes.Proofs.Composition
import GenericTypes.Proofs.Settling
import GenericTypes.Proofs.Verdict
import GenericTypes.Proofs.Completeness
import GenericTypes.Proofs.Covariance
import GenericTypes.Proofs.Bounds
import GenericTypes.Proofs.Hereditary
import GenericTypes.Proofs.Provenance
import GenericTypes.Proofs.Answers
import GenericTypes.Proofs.Scoping
import GenericTypes.Proofs.Failures
import GenericTypes.Proofs.ArraySpelling
import GenericTypes.Proofs.Upcasting
import GenericTypes.Proofs.OwnerChains
import GenericTypes.Proofs.GroundTypes
import GenericTypes.Proofs.Transitivity
import GenericTypes.Proofs.ExactSupertypes
import GenericTypes.Proofs.SearchSubstitution
import GenericTypes.Proofs.TwoPhase
import GenericTypes.Proofs.BreadthFirst
import GenericTypes.Proofs.Assignability
import GenericTypes.Proofs.NamedMembers
import GenericTypes.Proofs.WaysUp
import GenericTypes.Proofs.SearchEnds
import GenericTypes.Proofs.TypeArguments
import GenericTypes.Proofs.ImplicitMembers
import GenericTypes.Proofs.CapturedSides
import GenericTypes.Proofs.CompleteArenas
import GenericTypes.Proofs.TopSupertype
import GenericTypes.Proofs.CapturedArguments
import GenericTypes.Proofs.WildcardTops
import GenericTypes.Proofs.SubstitutionLaws
import GenericTypes.Proofs.FreshNumbers
import GenericTypes.Proofs.BoundingClasses
import GenericTypes.Proofs.OneCapture
import GenericTypes.Proofs.UnboundVariables
import GenericTypes.Proofs.DeclaringClasses
import GenericTypes.Proofs.WrittenForm
