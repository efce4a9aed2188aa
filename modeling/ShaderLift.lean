import ShaderLift.Assembler
import ShaderLift.Block
import ShaderLift.Callable
import ShaderLift.Decimal.Binary64
import ShaderLift.Decimal.Notation
import ShaderLift.Decimal.Shortest
import ShaderLift.Expr
import ShaderLift.Instruction.Basic
import ShaderLift.Instruction.Listing
import ShaderLift.Interface
import ShaderLift.Lift
import ShaderLift.Lifting.Body
import ShaderLift.Lifting.Error
import ShaderLift.Lifting.Event
import ShaderLift.Lifting.State
import ShaderLift.Lifting.Step
import ShaderLift.Line
import ShaderLift.Number
import ShaderLift.Operator
import ShaderLift.Program
import ShaderLift.Session
import ShaderLift.Dialect
import ShaderLift.Shader
import ShaderLift.Text.Extending
import ShaderLift.Text.Quoted
import ShaderLift.Text.Unprintable
import ShaderLift.TypeTable.Basic
import ShaderLift.TypeTable.Edit
import ShaderLift.Proofs.JumpGrammar
import ShaderLift.Proofs.PlainStep
import ShaderLift.Proofs.TreeLifting
import ShaderLift.Proofs.LiftedLines
import ShaderLift.Proofs.StructuredProgram
import ShaderLift.Proofs.ProgramText
import ShaderLift.Proofs.ProgramLifting
import ShaderLift.Proofs.Machine
import ShaderLift.Proofs.PathPreservation
import ShaderLift.Proofs.DataFlow
import ShaderLift.Proofs.DataFlowPreservation
import ShaderLift.Proofs.FlatLifting
import ShaderLift.Proofs.Typing
import ShaderLift.Proofs.LexicalScope
import ShaderLift.Proofs.ValueUse
import ShaderLift.Proofs.DecimalText
import ShaderLift.Proofs.NumberText
import ShaderLift.Proofs.ExprGrammar
import ShaderLift.Proofs.ExprReading
import ShaderLift.Proofs.LiftingContext
import ShaderLift.Proofs.DependencyOrder
import ShaderLift.Proofs.ReachedStates
import ShaderLift.Proofs.ErrorLocation
import ShaderLift.Proofs.ExpressionCode
import ShaderLift.Proofs.Assembly
import ShaderLift.Proofs.PartialOperations
import ShaderLift.Proofs.Extents
import ShaderLift.Proofs.LineOrigins
import ShaderLift.Proofs.Indentation
import ShaderLift.Proofs.DeclaredOnce
import ShaderLift.Proofs.TypeHandles
import ShaderLift.Proofs.TypeRules
import ShaderLift.Proofs.VoidValues
import ShaderLift.Proofs.LabelPatching
import ShaderLift.Proofs.Sequencing
import ShaderLift.Proofs.InterfaceText
import ShaderLift.Proofs.KeptTexts
import ShaderLift.Proofs.Refusals
import ShaderLift.Proofs.BodyEnds
import ShaderLift.Proofs.ConstantText
