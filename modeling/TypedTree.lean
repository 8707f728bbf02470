import TypedTree.Main
import TypedTree.Proofs.Graph.Reach
import TypedTree.Proofs.Schema.Evaluation
import TypedTree.Proofs.Schema.Freeze
import TypedTree.Proofs.Schema.Inspection
import TypedTree.Proofs.Catalogue.Scoping
import TypedTree.Proofs.Translation.Commit
import TypedTree.Proofs.Translation.Handover
import TypedTree.Proofs.Translation.Default
import TypedTree.Proofs.Translation.Termination
import TypedTree.Proofs.Synthesis.Acceptance
import TypedTree.Proofs.Synthesis.Defaults
import TypedTree.Proofs.Catalogue.Conformance
import TypedTree.Proofs.Catalogue.Elements
import TypedTree.Proofs.Catalogue.Order
import TypedTree.Proofs.Catalogue.Depth
import TypedTree.Proofs.Translation.Report
import TypedTree.Proofs.Translation.Equations
import TypedTree.Proofs.Translation.Walk
import TypedTree.Proofs.Catalogue.Rereading
import TypedTree.Proofs.Catalogue.Overlooking
import TypedTree.Proofs.Translation.Flattening
import TypedTree.Proofs.Translation.Writing
import TypedTree.Proofs.Catalogue.Rests
import TypedTree.Proofs.Catalogue.Members
import TypedTree.Proofs.Schema.Planning
import TypedTree.Proofs.Schema.Interning
import TypedTree.Proofs.Schema.Handles
import TypedTree.Proofs.Synthesis.EmptyLinks
import TypedTree.Proofs.Synthesis.Frame
import TypedTree.Proofs.SetExpression
import TypedTree.Proofs.Metadata.Independence
import TypedTree.Proofs.Grammar.Flipping
