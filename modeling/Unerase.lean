import Unerase.ItemName
import Unerase.Float64
import Unerase.Table
import Unerase.Run
import Unerase.Ty.Basic
import Unerase.Ty.Equality
import Unerase.Ty.Text
import Unerase.Ty.Match
import Unerase.Ty.Bindings
import Unerase.Ty.Fit
import Unerase.Ty.Subst
import Unerase.Body
import Unerase.Item
import Unerase.Crate
import Unerase.Visitor.Basic
import Unerase.Visitor.Ty
import Unerase.Visitor.Body
import Unerase.Visitor.Crate
import Unerase.Visitor.Log
import Unerase.Visitor.Count
import Unerase.Expansion.Error
import Unerase.Expansion.ImplBinding
import Unerase.Expansion.Index
import Unerase.Expansion.Expand
import Unerase.Expansion.Pass
import Unerase.Proofs.Relation.List
import Unerase.Proofs.Relation.Ty
import Unerase.Proofs.Relation.Erased
import Unerase.Proofs.Relation.Body
import Unerase.Proofs.Relation.Crate
import Unerase.Proofs.Relation.Index
import Unerase.Proofs.Comparison
import Unerase.Proofs.Substitution
import Unerase.Proofs.Matching.Findings
import Unerase.Proofs.Matching.Instance
import Unerase.Proofs.Matching.Free
import Unerase.Proofs.Matching.Binding
import Unerase.Proofs.Walk.Ty
import Unerase.Proofs.Walk.Body
import Unerase.Proofs.Walk.Reachable
import Unerase.Proofs.Walk.Crate
import Unerase.Proofs.Expansion.Expands
import Unerase.Proofs.Expansion.Unfolding
import Unerase.Proofs.Expansion.Lookup
import Unerase.Proofs.Expansion.Pass
import Unerase.Proofs.Expansion.Reference
import Unerase.Proofs.Expansion.Frame
import Unerase.Proofs.Expansion.Memoization
import Unerase.Proofs.Expansion.Resolution
import Unerase.Proofs.Expansion.Instantiation
import Unerase.Proofs.Expansion.Agreement
import Unerase.Proofs.Relation.Parts
import Unerase.Proofs.Relation.Places
import Unerase.Proofs.Walk.Ending
import Unerase.Proofs.Walk.Completion
import Unerase.Proofs.Expansion.Height
import Unerase.Proofs.Expansion.Limit
import Unerase.Proofs.Expansion.Overlap
import Unerase.Proofs.Relation.Reordered
import Unerase.Proofs.Walk.Places
import Unerase.Proofs.Expansion.Tally
import Unerase.Proofs.Relation.ReorderedIndex
import Unerase.Proofs.Expansion.Order
import Unerase.Proofs.Expansion.LargerLimit
import Unerase.Proofs.Walk.Acyclic
import Unerase.Proofs.Expansion.Termination
import Unerase.Proofs.Expansion.Nesting
import Unerase.Proofs.Expansion.Idempotence
import Unerase.Proofs.Expansion.Selection
import Unerase.Proofs.Relation.SameBodies
import Unerase.Proofs.Expansion.Separation
import Unerase.Proofs.Relation.Addition
import Unerase.Proofs.Expansion.Addition
import Unerase.Proofs.Matching.Bounds
import Unerase.Proofs.Relation.BoundsIndex
import Unerase.Proofs.Expansion.Bounds
import Unerase.Proofs.Matching.Occurrences
import Unerase.Proofs.Matching.Valuation
import Unerase.Proofs.Matching.Calls
import Unerase.Proofs.Substitution.Composition
import Unerase.Proofs.Substitution.Coverage
import Unerase.Proofs.Matching.Fitting
import Unerase.Proofs.Matching.LastBinding
import Unerase.Proofs.Expansion.Receiver
import Unerase.Proofs.Expansion.InBounds
import Unerase.Proofs.Items.Insertion
import Unerase.Proofs.Items.Refusal
import Unerase.Proofs.Items.Functions
import Unerase.Proofs.Matching.Repetition
import Unerase.Proofs.Expansion.Watch
import Unerase.Proofs.Expansion.Accounting
import Unerase.Proofs.Matching.Alignment
import Unerase.Proofs.Matching.Sequence
import Unerase.Proofs.Walk.Hooks
import Unerase.Proofs.Walk.Stopping
import Unerase.Proofs.Walk.Written
import Unerase.Proofs.Walk.Tour
import Unerase.Proofs.Walk.Ways
import Unerase.Proofs.Items.BodyEquality
import Unerase.Proofs.Items.Equality
import Unerase.Proofs.Items.CrateEquality
import Unerase.Proofs.Matching.Disagreement
import Unerase.Proofs.Walk.Observer
import Unerase.Proofs.Expansion.EarlyExit
import Unerase.Proofs.Expansion.ActiveKeys
