import CelTyping.Assignability
import CelTyping.Bindings
import CelTyping.Check
import CelTyping.Container
import CelTyping.Decimal.Shortest
import CelTyping.Declaration
import CelTyping.Descriptor.Decode
import CelTyping.Descriptor.DefaultText
import CelTyping.Descriptor.Layout
import CelTyping.Descriptor.Link
import CelTyping.Descriptor.Names
import CelTyping.Descriptor.Options
import CelTyping.Descriptor.Pool
import CelTyping.Descriptor.Spec
import CelTyping.Descriptor.WellKnown
import CelTyping.Descriptor.Wire
import CelTyping.Environment
import CelTyping.Expr.Basic
import CelTyping.Expr.Build
import CelTyping.Expr.Tree
import CelTyping.Name
import CelTyping.Proofs.Absorption
import CelTyping.Proofs.Accumulators
import CelTyping.Proofs.Acyclic
import CelTyping.Proofs.Agreement
import CelTyping.Proofs.Annotations
import CelTyping.Proofs.Budget
import CelTyping.Proofs.Canonical
import CelTyping.Proofs.Closing
import CelTyping.Proofs.Comparisons
import CelTyping.Proofs.Compatibility
import CelTyping.Proofs.Declaring
import CelTyping.Proofs.Derivation
import CelTyping.Proofs.DottedNames
import CelTyping.Proofs.ErrorTypes
import CelTyping.Proofs.Exactness
import CelTyping.Proofs.FieldLookups
import CelTyping.Proofs.Flattening
import CelTyping.Proofs.FreshIds
import CelTyping.Proofs.Generality
import CelTyping.Proofs.Hygiene
import CelTyping.Proofs.Ingredients
import CelTyping.Proofs.Instances
import CelTyping.Proofs.LeafLists
import CelTyping.Proofs.Levels
import CelTyping.Proofs.Lexical
import CelTyping.Proofs.ListLiterals
import CelTyping.Proofs.Lockstep
import CelTyping.Proofs.Macros
import CelTyping.Proofs.Malformed
import CelTyping.Proofs.Matching
import CelTyping.Proofs.Merging
import CelTyping.Proofs.MessageLiterals
import CelTyping.Proofs.OverloadIds
import CelTyping.Proofs.OverloadOrder
import CelTyping.Proofs.Plain
import CelTyping.Proofs.Records
import CelTyping.Proofs.ReferenceEquality
import CelTyping.Proofs.RootNames
import CelTyping.Proofs.Run
import CelTyping.Proofs.SelectionChains
import CelTyping.Proofs.Shadowing
import CelTyping.Proofs.SideTables
import CelTyping.Proofs.Solutions
import CelTyping.Proofs.Steps
import CelTyping.Proofs.Substituting
import CelTyping.Proofs.Supply
import CelTyping.Proofs.Symmetry
import CelTyping.Proofs.Termination
import CelTyping.Proofs.Trace
import CelTyping.Proofs.TypingRules
import CelTyping.Proofs.Visits
import CelTyping.Proofs.Widening
import CelTyping.Proofs.Writes
import CelTyping.Reference
import CelTyping.Registry.Basic
import CelTyping.Registry.Catalogue
import CelTyping.Registry.Reflection
import CelTyping.Resolution
import CelTyping.Scope
import CelTyping.Session
import CelTyping.Standard
import CelTyping.Substitution
import CelTyping.Table
import CelTyping.Text
import CelTyping.Ty.Basic
import CelTyping.Ty.Equality
import CelTyping.Ty.Order
import CelTyping.Ty.Params
import CelTyping.Ty.Text
import CelTyping.Value
