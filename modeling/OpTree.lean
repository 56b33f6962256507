import OpTree.Interner
import OpTree.Proofs.ArrayCreations
import OpTree.Proofs.Assignability
import OpTree.Proofs.BaseTypes
import OpTree.Proofs.BinaryPatterns
import OpTree.Proofs.Binding
import OpTree.Proofs.ChainResolution
import OpTree.Proofs.CompoundAssignment
import OpTree.Proofs.Construct
import OpTree.Proofs.ConstructorChoice
import OpTree.Proofs.Conversions
import OpTree.Proofs.Decisions
import OpTree.Proofs.Deconstruction
import OpTree.Proofs.Equality
import OpTree.Proofs.Failures
import OpTree.Proofs.FixedPlaces
import OpTree.Proofs.Generic
import OpTree.Proofs.Implementations
import OpTree.Proofs.InPlace
import OpTree.Proofs.Inherited
import OpTree.Proofs.IntegerArithmetic
import OpTree.Proofs.IntegerConversions
import OpTree.Proofs.Interning
import OpTree.Proofs.Iterations
import OpTree.Proofs.LastWrites
import OpTree.Proofs.MemberStorage
import OpTree.Proofs.Membership
import OpTree.Proofs.Mismatches
import OpTree.Proofs.NullReceivers
import OpTree.Proofs.Overrides
import OpTree.Proofs.Scopes
import OpTree.Proofs.Shadowing
import OpTree.Proofs.Signals
import OpTree.Proofs.Sparing
import OpTree.Proofs.TargetErrors
import OpTree.Proofs.TypeTexts
import OpTree.Proofs.UnitSteps
import OpTree.Scripted
import OpTree.Session
import OpTree.Value.Inspect
