import OpGraph.Compare.Verdict
import OpGraph.Graph.Equality
import OpGraph.Graph.Load
import OpGraph.Graph.Render
import OpGraph.Proofs.Scoping.Definitions
import OpGraph.Proofs.Scoping.Nesting
import OpGraph.Proofs.Scoping.WellFormed
import OpGraph.Proofs.Scoping.Enclosing
import OpGraph.Proofs.Scoping.Violations
import OpGraph.Proofs.Scoping.Mentioned
import OpGraph.Proofs.Scoping.Ranks
import OpGraph.Proofs.Scoping.Seeking
import OpGraph.Proofs.Scoping.Depths
import OpGraph.Proofs.Scoping.Heights
import OpGraph.Proofs.Matching.Relation
import OpGraph.Proofs.Matching.Counting
import OpGraph.Proofs.Matching.Agreement
import OpGraph.Proofs.Matching.Isomorphism
import OpGraph.Proofs.Matching.Tandem
import OpGraph.Proofs.Matching.Reflexivity
import OpGraph.Proofs.Matching.Symmetry
import OpGraph.Proofs.Matching.Renaming
import OpGraph.Proofs.Matching.Rearrangement
import OpGraph.Proofs.Descent.Calls
import OpGraph.Proofs.Descent.Growth
import OpGraph.Proofs.Descent.Runs
import OpGraph.Proofs.Descent.Execution
import OpGraph.Proofs.Descent.Steps
import OpGraph.Proofs.Descent.Termination
import OpGraph.Proofs.Descent.Settling
import OpGraph.Proofs.Descent.Lockstep
import OpGraph.Proofs.Descent.Verdicts
import OpGraph.Proofs.Descent.Invariants
import OpGraph.Proofs.Descent.Coverage
import OpGraph.Proofs.Descent.Levels
import OpGraph.Proofs.Descent.Plans
import OpGraph.Proofs.Descent.Reach
import OpGraph.Proofs.Descent.Filling
import OpGraph.Proofs.Descent.Soundness
import OpGraph.Proofs.Descent.Guarantees
import OpGraph.Proofs.Descent.Completeness
import OpGraph.Proofs.Descent.Confirmation
import OpGraph.Proofs.Descent.Commitments
import OpGraph.Proofs.Descent.Depth
import OpGraph.Proofs.Descent.Reflexivity
import OpGraph.Proofs.Descent.Symmetry
import OpGraph.Proofs.Descent.Renaming
import OpGraph.Proofs.Descent.Recursion
import OpGraph.Proofs.Descent.Ahead
import OpGraph.Proofs.Descent.Refinement
import OpGraph.Proofs.Descent.Lexical
import OpGraph.Proofs.Descent.Presented
import OpGraph.Proofs.Descent.Presentation
import OpGraph.Proofs.Descent.Independence
import OpGraph.Proofs.Meaning.Evaluation
import OpGraph.Proofs.Meaning.Preservation
import OpGraph.Proofs.Descent.Tracing
import OpGraph.Proofs.Descent.Characterization
import OpGraph.Proofs.Descent.ReachedNodes
import OpGraph.Proofs.Descent.Composition
import OpGraph.Proofs.Descent.Reordering
import OpGraph.Proofs.Matching.Padding
import OpGraph.Proofs.Descent.Padding
import OpGraph.Proofs.Descent.Moments
import OpGraph.Proofs.Descent.Halting
import OpGraph.Proofs.Descent.Failures
import OpGraph.Proofs.Descent.Observation
import OpGraph.Proofs.Descent.Uses
import OpGraph.Proofs.Matching.Unmatchable
import OpGraph.Proofs.Descent.Accounting
import OpGraph.Proofs.Descent.Conservatism
import OpGraph.Proofs.Descent.Cutoffs
import OpGraph.Proofs.Descent.Limits
import OpGraph.Proofs.Scoping.SelfContained
import OpGraph.Proofs.Descent.Raising
import OpGraph.Proofs.Descent.Carriers
import OpGraph.Proofs.Machine.Safety
import OpGraph.Proofs.Machine.Returns
import OpGraph.Proofs.Attributes.Sets
import OpGraph.Proofs.Attributes.CallTrace
import OpGraph.Proofs.Json.AsRead
import OpGraph.Proofs.Json.Written
import OpGraph.Proofs.Json.Rewriting
import OpGraph.Proofs.Json.Reading
import OpGraph.Proofs.Json.Slots
import OpGraph.Proofs.Json.Presentations
import OpGraph.Proofs.Json.RoundTrip
import OpGraph.Proofs.Matching.Bijections
import OpGraph.Proofs.Scoping.Index
import OpGraph.Proofs.Descent.Walks
import OpGraph.Proofs.Descent.Unpaired
