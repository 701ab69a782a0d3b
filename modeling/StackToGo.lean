import StackToGo.Action
import StackToGo.Dictionary
import StackToGo.Emit.Basic
import StackToGo.Emit.Constant
import StackToGo.Emit.Definition
import StackToGo.Emit.Expr
import StackToGo.Emit.Value
import StackToGo.Error
import StackToGo.Flow.Builder
import StackToGo.Flow.Node
import StackToGo.Generate
import StackToGo.Go.Block
import StackToGo.Go.Expr
import StackToGo.Go.Header
import StackToGo.Go.Simplify
import StackToGo.Go.Type
import StackToGo.Identifier
import StackToGo.Integer
import StackToGo.Layout
import StackToGo.Locals
import StackToGo.Name
import StackToGo.Number.Decimal
import StackToGo.Number.Format
import StackToGo.Number.Shortest
import StackToGo.Position
import StackToGo.Program
import StackToGo.Routine
import StackToGo.StringPool
import StackToGo.Switches
import StackToGo.Text.Blank
import StackToGo.Text.Hex
import StackToGo.Text.Printable
import StackToGo.Text.Quoted
import StackToGo.Text.Utf8
import StackToGo.Tree
import StackToGo.Ty.Basic
import StackToGo.Ty.Table
import StackToGo.TypeText
import StackToGo.Value
import StackToGo.Proofs.Tree
import StackToGo.Proofs.Compound
import StackToGo.Proofs.Blocks.Machine
import StackToGo.Proofs.Blocks.Threading
import StackToGo.Proofs.Blocks.Passes
import StackToGo.Proofs.Blocks.Rounds
import StackToGo.Proofs.Blocks.Cleanup
import StackToGo.Proofs.Blocks.Progress
import StackToGo.Proofs.Blocks.NormalForm
import StackToGo.Proofs.Flow.Machine
import StackToGo.Proofs.Flow.Rules
import StackToGo.Proofs.Identifier
import StackToGo.Proofs.Flow.Reconstruction
import StackToGo.Proofs.Flow.Positions
import StackToGo.Proofs.Flow.Pending
import StackToGo.Proofs.Flow.Relocation
import StackToGo.Proofs.Flow.Duplicates
import StackToGo.Proofs.Flow.Labels
import StackToGo.Proofs.Locals
import StackToGo.Proofs.BareErrors
import StackToGo.Proofs.Emit.Yields
import StackToGo.Proofs.Emit.Composed
import StackToGo.Proofs.Emit.Evolution
import StackToGo.Proofs.Emit.Functions
import StackToGo.Proofs.Emit.LocalNames
import StackToGo.Proofs.Emit.Scene
import StackToGo.Proofs.Emit.Reading
import StackToGo.Proofs.Emit.Parameters
import StackToGo.Proofs.Go.Marks
import StackToGo.Proofs.Emit.Duplicates
import StackToGo.Proofs.Emit.Labels
import StackToGo.Proofs.Flow.Linearization
import StackToGo.Proofs.Flow.Retention
import StackToGo.Proofs.Emit.Arguments
import StackToGo.Proofs.Go.Buffers
import StackToGo.Proofs.StringPool
import StackToGo.Proofs.TypeText
import StackToGo.Proofs.Emit.Buffers
import StackToGo.Proofs.Ty.Loops
import StackToGo.Proofs.Layout.Extents
import StackToGo.Proofs.TypeText.Expansion
import StackToGo.Proofs.TypeText.Memory
import StackToGo.Proofs.Go.TypeSpelling
import StackToGo.Proofs.TypeText.Trees
import StackToGo.Proofs.Layout.Placement
import StackToGo.Proofs.Layout.Paths
import StackToGo.Proofs.StringPool.Spacing
import StackToGo.Proofs.Blocks.Code
import StackToGo.Proofs.Go.Calls
import StackToGo.Proofs.Routine
import StackToGo.Proofs.Emit.Supply
import StackToGo.Proofs.Emit.Calls
import StackToGo.Proofs.Emit.Objects
import StackToGo.Proofs.Emit.Strings
import StackToGo.Proofs.Emit.Support
import StackToGo.Proofs.Emit.Stubs
import StackToGo.Proofs.Ty.Interning
import StackToGo.Proofs.Emit.Faithful
import StackToGo.Proofs.Emit.ConstantIndex
import StackToGo.Proofs.Go.Tokens
import StackToGo.Proofs.Go.Grammar
import StackToGo.Proofs.Go.Spelling
import StackToGo.Proofs.Emit.Operands
import StackToGo.Proofs.Emit.Determined
import StackToGo.Proofs.Emit.Templates
import StackToGo.Proofs.Emit.Order
import StackToGo.Proofs.Integer
import StackToGo.Proofs.Emit.BitFields
import StackToGo.Proofs.Emit.Switches
import StackToGo.Proofs.Emit.Unions
import StackToGo.Proofs.Emit.Aggregates
import StackToGo.Proofs.StringPool.Escaping
import StackToGo.Proofs.StringPool.Failures
import StackToGo.Proofs.Routine.Order
import StackToGo.Proofs.Emit.Failures
import StackToGo.Proofs.Blocks.ThreadingOrder
import StackToGo.Proofs.Locals.Nesting
import StackToGo.Proofs.Flow.Initializers
