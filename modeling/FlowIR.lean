import FlowIR.Graph.Export
import FlowIR.Inlining.Splice
import FlowIR.LiteralCache
import FlowIR.Policy.Document
import FlowIR.Proofs.Ensures
import FlowIR.Proofs.Graph.Lookup
import FlowIR.Proofs.Graph.WellFormed
import FlowIR.Proofs.Graph.Edits
import FlowIR.Proofs.Renaming
import FlowIR.Proofs.PartialBijection
import FlowIR.Proofs.Scope
import FlowIR.Proofs.Inlining.Image
import FlowIR.Proofs.Inlining.Naming
import FlowIR.Proofs.Inlining.Cloning
import FlowIR.Proofs.Graph.Grow
import FlowIR.Proofs.Inlining.Carry
import FlowIR.Proofs.Inlining.Body
import FlowIR.Proofs.Graph.Reachability
import FlowIR.Proofs.Graph.Rewire
import FlowIR.Proofs.Inlining.Site
import FlowIR.Proofs.Inlining.Splice
import FlowIR.Proofs.Inlining.Transformations
import FlowIR.Proofs.Session
import FlowIR.Proofs.Inlining.Outcome
import FlowIR.Proofs.Inlining.MethodImage
import FlowIR.Proofs.Inlining.HostFrame
import FlowIR.Proofs.Graph.Coherence
import FlowIR.Proofs.Inlining.Coherence
import FlowIR.Proofs.Inlining.Decision
import FlowIR.Proofs.Inlining.ClosureDecision
import FlowIR.Proofs.Inlining.CloneImage
import FlowIR.Proofs.Inlining.Literals
import FlowIR.Proofs.LiteralCache
import FlowIR.Proofs.Inlining.Reachability
import FlowIR.Proofs.Graph.Mentions
import FlowIR.Proofs.Inlining.Provenance
import FlowIR.Proofs.Inlining.Tracking
import FlowIR.Proofs.Inlining.ClosureImage
import FlowIR.Proofs.Inlining.Hygiene
import FlowIR.Proofs.Hygiene
import FlowIR.Proofs.Relabeling
import FlowIR.Proofs.Graph.Search
import FlowIR.Proofs.Graph.Listing
import FlowIR.Proofs.Graph.Pruning
import FlowIR.Proofs.Graph.Retarget
import FlowIR.Proofs.Inlining.Seam
import FlowIR.Proofs.Inlining.Aftermath
import FlowIR.Proofs.Inlining.Naturality
import FlowIR.Proofs.Inlining.FreshNames
import FlowIR.Proofs.Inlining.Exchange
import FlowIR.Proofs.Inlining.Nesting
import FlowIR.Proofs.Inlining.BottomUp
import FlowIR.Proofs.Graph.Rejoin
import FlowIR.Proofs.Atomicity
import FlowIR.Proofs.Graph.Descent
import FlowIR.Proofs.Inlining.Upkeep
import FlowIR.Proofs.Inlining.Lasting
import FlowIR.Proofs.Identity
import FlowIR.Proofs.Inlining.Coverage
import FlowIR.Proofs.Graph.Quotient
import FlowIR.Proofs.Graph.LiveCode
import FlowIR.Proofs.Inlining.Ends
import FlowIR.Proofs.Inlining.YieldLog
import FlowIR.Proofs.Json.Lawful
import FlowIR.Proofs.Interchange
import FlowIR.Proofs.Edge.Cursor
import FlowIR.Proofs.Inlining.FirstMention
import FlowIR.Proofs.Inlining.Context
import FlowIR.Proofs.Inlining.Operands
import FlowIR.Proofs.Inlining.LabelLog
import FlowIR.Proofs.Inlining.LiteralLog
import FlowIR.Proofs.Labels
import FlowIR.Proofs.Literals
import FlowIR.Proofs.Yaml.Words
import FlowIR.Proofs.Yaml.Lines
import FlowIR.Proofs.Yaml.Layout
import FlowIR.Proofs.Yaml.CoreScalar
import FlowIR.Proofs.Policy
