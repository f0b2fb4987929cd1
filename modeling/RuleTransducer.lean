import RuleTransducer.Graph.Misfit
import RuleTransducer.Main
import RuleTransducer.Proofs.Recognition
import RuleTransducer.Proofs.Completeness
import RuleTransducer.Proofs.Exchange
import RuleTransducer.Proofs.Precedence
import RuleTransducer.Proofs.Layers
import RuleTransducer.Proofs.Reordering
import RuleTransducer.Proofs.Registry
import RuleTransducer.Proofs.RawForm
import RuleTransducer.Proofs.Isolation
import RuleTransducer.Proofs.Rebuilding
import RuleTransducer.Proofs.Bodies
import RuleTransducer.Proofs.Creation
import RuleTransducer.Proofs.Batches
import RuleTransducer.Proofs.Decisions
import RuleTransducer.Proofs.Tables
import RuleTransducer.Proofs.Loop
import RuleTransducer.Proofs.Monotone
import RuleTransducer.Proofs.PartialBuilds
import RuleTransducer.Proofs.RulesFiles
import RuleTransducer.Proofs.RuleDocuments
import RuleTransducer.Proofs.Fronts
import RuleTransducer.Proofs.Boundaries
import RuleTransducer.Proofs.Repetition
import RuleTransducer.Proofs.Interference
import RuleTransducer.Proofs.Size
import RuleTransducer.Proofs.Concatenation
import RuleTransducer.Proofs.Forms
import RuleTransducer.Proofs.DeadEnds
import RuleTransducer.Proofs.ParseOutput
