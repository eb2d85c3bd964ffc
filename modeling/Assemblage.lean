import Assemblage.Definition.Blueprint
import Assemblage.Pattern.Reader
import Assemblage.Script.Settings
import Assemblage.Script.Assembly
import Assemblage.Proofs.Pattern.Search
import Assemblage.Proofs.Tree.Inside
import Assemblage.Proofs.Tree.Labels
import Assemblage.Proofs.Tree.Substitution
import Assemblage.Proofs.Lowering.Passes
import Assemblage.Proofs.Lowering.Closed
import Assemblage.Proofs.Model.CacheView
import Assemblage.Proofs.Model.NamedTypes
import Assemblage.Proofs.Model.Worklist
import Assemblage.Proofs.Model.Construction
import Assemblage.Proofs.Model.Requests
import Assemblage.Proofs.Model.Settled
import Assemblage.Proofs.Model.OrderIndependence
import Assemblage.Proofs.Definition.Nesting
import Assemblage.Proofs.Definition.FullNames
import Assemblage.Proofs.Definition.Bodies
import Assemblage.Proofs.Definition.Rebodied
import Assemblage.Proofs.Graph.Loaded
import Assemblage.Proofs.Graph.OwnModules
import Assemblage.Proofs.Graph.Search
import Assemblage.Proofs.Graph.Hashed
import Assemblage.Proofs.Graph.Bodies
import Assemblage.Proofs.Graph.References
import Assemblage.Proofs.Graph.EnumValues
import Assemblage.Proofs.Graph.Ancestry
import Assemblage.Proofs.Graph.Assignability
import Assemblage.Proofs.Graph.BaseChain
import Assemblage.Proofs.Evaluation.Access
import Assemblage.Proofs.Evaluation.Similarity
import Assemblage.Proofs.Evaluation.Runs
import Assemblage.Proofs.Evaluation.Visits
import Assemblage.Proofs.Evaluation.Agreement
import Assemblage.Proofs.Evaluation.Move
import Assemblage.Proofs.Lowering.Reach
import Assemblage.Proofs.Lowering.Move
import Assemblage.Proofs.Lowering.Elimination
import Assemblage.Proofs.Lowering.Preservation
import Assemblage.Proofs.Lowering.Accounts
import Assemblage.Proofs.Lowering.Aliasing
import Assemblage.Proofs.Text.Decimal
import Assemblage.Proofs.Identity.TypeForm
import Assemblage.Proofs.Identity.Overloads
import Assemblage.Proofs.Identity.DisplayName
import Assemblage.Proofs.Tree.Everywhere
import Assemblage.Proofs.Tree.Rewriting
import Assemblage.Proofs.Tree.Counting
import Assemblage.Proofs.Tree.Visit
import Assemblage.Proofs.Lowering.FreeNames
import Assemblage.Proofs.Lowering.NormalForms
import Assemblage.Proofs.Lowering.Idempotence
import Assemblage.Proofs.Lowering.OperatorRules
import Assemblage.Proofs.Lowering.OperatorMeaning
import Assemblage.Proofs.Lowering.Shortening
import Assemblage.Proofs.Lowering.FirstUses
import Assemblage.Proofs.Lowering.LocalNames
import Assemblage.Proofs.Lowering.WrittenNames
import Assemblage.Proofs.Lowering.PassCounts
import Assemblage.Proofs.Model.Service
import Assemblage.Proofs.Model.Completed
import Assemblage.Proofs.Model.Ignoring
import Assemblage.Proofs.Model.LateProxies
import Assemblage.Proofs.Model.Groups
import Assemblage.Proofs.Model.Grouping
import Assemblage.Proofs.Model.Bodies
import Assemblage.Proofs.Model.Provenance
import Assemblage.Proofs.Model.StaticFields
import Assemblage.Proofs.Model.Patches
import Assemblage.Proofs.Model.Tables
import Assemblage.Proofs.Model.Merging
import Assemblage.Proofs.Model.Inheritance
import Assemblage.Proofs.Load.Reading
import Assemblage.Proofs.Load.Closure
import Assemblage.Proofs.Load.Resolution
import Assemblage.Proofs.Load.Strictness
import Assemblage.Proofs.Script.Stage
import Assemblage.Proofs.Script.Contract
import Assemblage.Proofs.Script.Members
import Assemblage.Proofs.Script.Walk
import Assemblage.Proofs.Script.Completion
import Assemblage.Proofs.Script.Ledger
import Assemblage.Proofs.Script.BaseOrder
import Assemblage.Proofs.Script.NamespaceOrder
import Assemblage.Proofs.Script.Phases
import Assemblage.Proofs.Script.Contributions
import Assemblage.Proofs.Script.Naming
import Assemblage.Proofs.Script.Bodies
import Assemblage.Proofs.Script.Comparison
import Assemblage.Proofs.Script.SideBySide
import Assemblage.Proofs.Script.Identifier
import Assemblage.Proofs.Script.Spelling
import Assemblage.Proofs.Script.Turns
import Assemblage.Proofs.Script.Gap
import Assemblage.Proofs.Script.Isolation
import Assemblage.Proofs.Script.MethodNames
import Assemblage.Proofs.Script.Passages
import Assemblage.Proofs.Script.FirstValues
import Assemblage.Proofs.Script.OwnedFields
import Assemblage.Proofs.Script.Attribution
import Assemblage.Proofs.Script.EnumTables
import Assemblage.Proofs.Script.TypePaths
import Assemblage.Proofs.Script.Steady
import Assemblage.Proofs.Script.AssemblyOrder
import Assemblage.Proofs.Script.Gains
import Assemblage.Proofs.Script.Sealing
