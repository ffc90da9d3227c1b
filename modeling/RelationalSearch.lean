import RelationalSearch.Script.Slots
import RelationalSearch.Script.Stream
import RelationalSearch.Term.Census
import RelationalSearch.Proofs.Subst.Unifier
import RelationalSearch.Proofs.Stream.Map
import RelationalSearch.Proofs.Search.Finite
import RelationalSearch.Proofs.Search.Exactness
import RelationalSearch.Proofs.Subst.Extension
import RelationalSearch.Proofs.Search.Persistence
import RelationalSearch.Proofs.Search.Arrangement
import RelationalSearch.Proofs.Search.Answers
import RelationalSearch.Proofs.Subst.Binding
import RelationalSearch.Proofs.Relation.Call
import RelationalSearch.Proofs.Relation.Enumeration
import RelationalSearch.Proofs.Relation.Walk
import RelationalSearch.Proofs.Relation.Reach
import RelationalSearch.Proofs.Search.Alike
import RelationalSearch.Proofs.Search.Reading
import RelationalSearch.Proofs.Relation.Linking
import RelationalSearch.Proofs.Relation.Ending
import RelationalSearch.Proofs.Relation.Elementwise
import RelationalSearch.Proofs.Relation.Choice
import RelationalSearch.Proofs.Relation.Application
import RelationalSearch.Proofs.Relation.Recursion
import RelationalSearch.Proofs.Relation.Visit
import RelationalSearch.Proofs.Relation.Expansion
import RelationalSearch.Proofs.Relation.Reassembly
import RelationalSearch.Proofs.Relation.Refusal
import RelationalSearch.Proofs.Search.Succession
import RelationalSearch.Proofs.Search.Sharing
import RelationalSearch.Proofs.Relation.Alignment
import RelationalSearch.Proofs.Relation.Checking
import RelationalSearch.Proofs.Search.Tied
import RelationalSearch.Proofs.Search.Companion
import RelationalSearch.Proofs.Search.Abreast
import RelationalSearch.Proofs.Relation.Equivariance
import RelationalSearch.Proofs.Subst.Reopening
import RelationalSearch.Proofs.Relation.Reuse
import RelationalSearch.Proofs.Relation.Readiness
import RelationalSearch.Proofs.Search.Merging
import RelationalSearch.Proofs.Relation.Composition
import RelationalSearch.Proofs.Relation.Postponement
import RelationalSearch.Proofs.Relation.Rearrangement
import RelationalSearch.Proofs.Relation.Cut
import RelationalSearch.Proofs.Relation.Cutting
import RelationalSearch.Proofs.Relation.Chain
import RelationalSearch.Proofs.Relation.Lengths
import RelationalSearch.Proofs.Search.Behind
import RelationalSearch.Proofs.Relation.Stopping
import RelationalSearch.Proofs.Subst.Footprint
import RelationalSearch.Proofs.Subst.Reification
import RelationalSearch.Proofs.Relation.Emptiness
import RelationalSearch.Proofs.Relation.Rejection
import RelationalSearch.Proofs.Stream.Descent
import RelationalSearch.Proofs.Stream.Form
import RelationalSearch.Proofs.Subst.Occurrence
import RelationalSearch.Proofs.Term.Comparison
import RelationalSearch.Proofs.Search.Construction
import RelationalSearch.Proofs.Term.Comparison
import RelationalSearch.Proofs.Subst.Occurrence
import RelationalSearch.Proofs.Stream.Descent
import RelationalSearch.Proofs.Search.Construction
