import SmoothCubical.OrderedSet
import SmoothCubical.Syntax.Fault
import SmoothCubical.Syntax.Index
import SmoothCubical.Syntax.Face
import SmoothCubical.Syntax.Term
import SmoothCubical.Syntax.Scope
import SmoothCubical.Interval
import SmoothCubical.Cofibration
import SmoothCubical.Settings
import SmoothCubical.Value
import SmoothCubical.Failure
import SmoothCubical.Log.Event
import SmoothCubical.Session
import SmoothCubical.Smoothness
import SmoothCubical.Eval.Demand
import SmoothCubical.Eval.Kan
import SmoothCubical.Eval.Evaluate
import SmoothCubical.Readback
import SmoothCubical.Context
import SmoothCubical.Typing.Conversion
import SmoothCubical.Typing.Ends
import SmoothCubical.Typing.Faces
import SmoothCubical.Typing.Judgment
import SmoothCubical.Kernel
import SmoothCubical.Text.Blank
import SmoothCubical.Text.Case
import SmoothCubical.Text.Case.Pairs
import SmoothCubical.Text.Case.Context
import SmoothCubical.Text.WholeNumber
import SmoothCubical.Number.Binary64
import SmoothCubical.Settings.Load
import SmoothCubical.Log.Filter
import SmoothCubical.Proofs.Lockstep.Terms
import SmoothCubical.Proofs.Lockstep.Values
import SmoothCubical.Proofs.Lockstep.Runs
import SmoothCubical.Proofs.Lockstep.Evaluation
import SmoothCubical.Proofs.Lockstep.Reading
import SmoothCubical.Proofs.ConstantFamily
import SmoothCubical.Proofs.IdleCoercion
import SmoothCubical.Proofs.Index
import SmoothCubical.Proofs.Growth
import SmoothCubical.Proofs.Lockstep.Names
import SmoothCubical.Proofs.Lockstep.Kernel
import SmoothCubical.Proofs.Lockstep.Typing
import SmoothCubical.Proofs.Stability.Settled
import SmoothCubical.Proofs.Stability.Mirror
import SmoothCubical.Proofs.Stability.Evaluation
import SmoothCubical.Proofs.Stability.Shape
import SmoothCubical.Proofs.Stability.NormalForm
import SmoothCubical.Proofs.Declarations
import SmoothCubical.Proofs.TypingLaws
import SmoothCubical.Proofs.Beta.Confluence
import SmoothCubical.Proofs.Beta.Terms
import SmoothCubical.Proofs.Beta.Values
import SmoothCubical.Proofs.Beta.Evaluation
import SmoothCubical.Proofs.Beta.Reading
import SmoothCubical.Proofs.Beta.NormalForm
import SmoothCubical.Proofs.Congruence
import SmoothCubical.Proofs.Weakening
import SmoothCubical.Proofs.Weakening.Typing
import SmoothCubical.Proofs.Scope.Terms
import SmoothCubical.Proofs.Scope.Values
import SmoothCubical.Proofs.Scope.Evaluation
import SmoothCubical.Proofs.Scope.Reading
import SmoothCubical.Proofs.Scope.Typing
import SmoothCubical.Proofs.Scope.Safety
import SmoothCubical.Proofs.Likeness.Values
import SmoothCubical.Proofs.Likeness.Runs
import SmoothCubical.Proofs.Likeness.Evaluation
import SmoothCubical.Proofs.Likeness.Reading
import SmoothCubical.Proofs.Evaluator.Operations
import SmoothCubical.Proofs.Evaluator.Accounting
import SmoothCubical.Proofs.Evaluator.Sharing
import SmoothCubical.Proofs.Evaluator.History
import SmoothCubical.Proofs.Evaluator.Homogeneous
import SmoothCubical.Proofs.Guards.Evaluation
import SmoothCubical.Proofs.Guards.Typing
import SmoothCubical.Proofs.Relaxation.Rules
import SmoothCubical.Proofs.Relaxation.Judgment
import SmoothCubical.Proofs.Relaxation.Conservative
import SmoothCubical.Proofs.FaceRestriction
import SmoothCubical.Proofs.Termination.Values
import SmoothCubical.Proofs.Termination.Runs
import SmoothCubical.Proofs.Termination.Evaluation
import SmoothCubical.Proofs.Termination.Reading
import SmoothCubical.Proofs.Termination.Kernel
import SmoothCubical.Proofs.Acceptance
import SmoothCubical.Proofs.Renaming
import SmoothCubical.Proofs.Subsumption
import SmoothCubical.Proofs.Evaluator.PathBoundary
import SmoothCubical.Proofs.Evaluator.ConstantFamily
import SmoothCubical.Proofs.OrderedSet
import SmoothCubical.Proofs.Cofibration.Canonical
import SmoothCubical.Proofs.Cofibration.Semantics
import SmoothCubical.Proofs.FaceOrder
import SmoothCubical.Proofs.Stability.Plain
import SmoothCubical.Proofs.Cofibration.Quotation
import SmoothCubical.Proofs.Pending.Evaluation
import SmoothCubical.Proofs.Pending.Reading
import SmoothCubical.Proofs.Pending.NormalForm
import SmoothCubical.Proofs.Cofibration.Algebra
import SmoothCubical.Proofs.Cofibration.Satisfaction
import SmoothCubical.Proofs.Cofibration.Overlap
import SmoothCubical.Proofs.Shift
import SmoothCubical.Proofs.Coherence
