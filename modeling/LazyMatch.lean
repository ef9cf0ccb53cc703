import LazyMatch.CommandLine
import LazyMatch.Main
import LazyMatch.Proofs.Outcome
import LazyMatch.Proofs.ForcePlan
import LazyMatch.Proofs.Compilation
import LazyMatch.Proofs.Lowering
import LazyMatch.Proofs.Selection
import LazyMatch.Proofs.Reading
import LazyMatch.Proofs.Erasure
import LazyMatch.Proofs.Tree
import LazyMatch.Proofs.Acceptance
import LazyMatch.Proofs.Settling
import LazyMatch.Proofs.Term
import LazyMatch.Proofs.Transparency
import LazyMatch.Proofs.Inspection
import LazyMatch.Proofs.Forcing
import LazyMatch.Proofs.Naming
import LazyMatch.Proofs.Independence
import LazyMatch.Proofs.Anatomy
import LazyMatch.Proofs.TaskAnatomy
import LazyMatch.Proofs.Timeline
import LazyMatch.Proofs.LifeCycle
import LazyMatch.Proofs.History
import LazyMatch.Proofs.Concealment
import LazyMatch.Proofs.Registration
import LazyMatch.Proofs.Tags
import LazyMatch.Proofs.Appending
import LazyMatch.Proofs.Ending
import LazyMatch.Proofs.LazyCall
import LazyMatch.Proofs.Refusal
import LazyMatch.Proofs.Omission
import LazyMatch.Proofs.TopBinding
import LazyMatch.Proofs.Form
import LazyMatch.Proofs.Construction
import LazyMatch.Proofs.Spelling
import LazyMatch.Proofs.Inverse
import LazyMatch.Proofs.Ungrouping
import LazyMatch.Proofs.CommittedChoice
import LazyMatch.Proofs.Fuel
import LazyMatch.Proofs.Evolution
import LazyMatch.Proofs.Completion
import LazyMatch.Proofs.Unfolding
import LazyMatch.Proofs.Handover
import LazyMatch.Proofs.Layers
import LazyMatch.Proofs.Writing
import LazyMatch.Proofs.Caret
