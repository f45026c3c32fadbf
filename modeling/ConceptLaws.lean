import ConceptLaws.Proofs.Arena.Threaded
import ConceptLaws.Proofs.Arena.Tidy
import ConceptLaws.Proofs.Arithmetic.Grammar
import ConceptLaws.Proofs.Catalog.Naming
import ConceptLaws.Proofs.Catalog.Persistence
import ConceptLaws.Proofs.Command.Ordering
import ConceptLaws.Proofs.Command.Printing
import ConceptLaws.Proofs.Command.Protection
import ConceptLaws.Proofs.Command.Reaching
import ConceptLaws.Proofs.Command.Templates
import ConceptLaws.Proofs.Command.Tidiness
import ConceptLaws.Proofs.Correspondence.Alternatives
import ConceptLaws.Proofs.Correspondence.Assignments
import ConceptLaws.Proofs.Correspondence.Basic
import ConceptLaws.Proofs.Correspondence.Bookkeeping
import ConceptLaws.Proofs.Correspondence.Branches
import ConceptLaws.Proofs.Correspondence.Budget
import ConceptLaws.Proofs.Correspondence.Completeness
import ConceptLaws.Proofs.Correspondence.Conservation
import ConceptLaws.Proofs.Correspondence.Deep
import ConceptLaws.Proofs.Correspondence.Flags
import ConceptLaws.Proofs.Correspondence.Grounding
import ConceptLaws.Proofs.Correspondence.Growth
import ConceptLaws.Proofs.Correspondence.Halves
import ConceptLaws.Proofs.Correspondence.InPlace
import ConceptLaws.Proofs.Correspondence.Interruption
import ConceptLaws.Proofs.Correspondence.Moves
import ConceptLaws.Proofs.Correspondence.Orientation
import ConceptLaws.Proofs.Correspondence.Planning
import ConceptLaws.Proofs.Correspondence.Rederivation
import ConceptLaws.Proofs.Correspondence.Registry
import ConceptLaws.Proofs.Correspondence.Repeating
import ConceptLaws.Proofs.Correspondence.Undoing
import ConceptLaws.Proofs.Correspondence.Uniqueness
import ConceptLaws.Proofs.Correspondence.Unmatched
import ConceptLaws.Proofs.Past.Activation
import ConceptLaws.Proofs.Past.Arena
import ConceptLaws.Proofs.Past.Cascade
import ConceptLaws.Proofs.Past.Execution
import ConceptLaws.Proofs.Past.History
import ConceptLaws.Proofs.Past.Resolution
import ConceptLaws.Proofs.Past.Tree
import ConceptLaws.Proofs.Payload.Inclusion
import ConceptLaws.Proofs.Payload.Reading
import ConceptLaws.Proofs.Propagation.Accumulation
import ConceptLaws.Proofs.Propagation.Adding
import ConceptLaws.Proofs.Propagation.Clearing
import ConceptLaws.Proofs.Propagation.Closure
import ConceptLaws.Proofs.Propagation.Deactivation
import ConceptLaws.Proofs.Propagation.Exporting
import ConceptLaws.Proofs.Propagation.Fallback
import ConceptLaws.Proofs.Propagation.Frame
import ConceptLaws.Proofs.Propagation.Linkage
import ConceptLaws.Proofs.Propagation.Manual
import ConceptLaws.Proofs.Propagation.Termination
import ConceptLaws.Proofs.Relation.Forest
import ConceptLaws.Proofs.Relation.Freshness
import ConceptLaws.Proofs.Relation.Loading
import ConceptLaws.Proofs.Session.Calls
import ConceptLaws.Proofs.Session.Grounding
import ConceptLaws.Proofs.Session.Incremental
import ConceptLaws.Proofs.Session.Inferring
import ConceptLaws.Proofs.Session.Overwriting
import ConceptLaws.Proofs.Session.Reachable
import ConceptLaws.Proofs.Session.Suggestions
import ConceptLaws.Proofs.Session.Tidiness
import ConceptLaws.Report.Command
import ConceptLaws.Report.Network
import ConceptLaws.Report.Session
