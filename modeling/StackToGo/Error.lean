import StackToGo.Go.Type
import StackToGo.Position
import StackToGo.Text.Quoted
import StackToGo.Text.Utf8
import StackToGo.Value

/-!
# Errors

Every way in which lowering a program can fail, and its wording. There are four groups: shapes of
input that are not covered (`Unsupported`), broken promises of the input or of this library
(`Breach`), block lists that cannot be simplified (`BlockFault`), and failures to deliver the text.
An error that arises while an object is lowered is wrapped with the name of the object.
-/

namespace StackToGo

/-- A shape of input that is not covered. -/
inductive Unsupported where
  -- rebuilding trees from instructions
  | busyStack (what : String)
  | unfinishedBody
  | sideEffectBeforeConsumer
  | operandExpected
  | stackUnderflow
  | dropWithoutValue
  | dropOfDuplicate
  | armWithoutCondition
  | argumentsWithoutMarker
  | resultSlotMismatch (result slot : TypeId)
  | resultWithoutSlot
  | logicalLabelWithoutGuard
  | elseLabelWithoutArm
  | endLabelWithoutArm
  -- types
  | recursiveType (id : TypeId)
  | manyResults (id : TypeId) (count : Nat)
  -- expressions
  | noResult
  | arrayWithSideEffects
  | unnamedArgument (index : Nat)
  | untypedLoad
  | bitFieldIncrement
  | zeroSizedDifference
  | strayDuplicate
  | integerConstant (t : Go.Ty)
  | functionFromInteger
  | increment (t : Go.Ty)
  | truthValue (k : Kind)
  | functionArithmetic
  | operator (symbol : String) (t : Go.Ty)
  | functionComparison
  | comparison (symbol : String) (k : Kind)
  | unaryOperator (name : String) (t : Go.Ty)
  | conversion (src dst : Go.Ty)
  | bitFieldCompound
  | nestedCompound
  | bitField (bits offset : Nat) (t : Go.Ty)
  | voidIndexing
  | fieldOf (index : Nat) (t : Ty)
  -- definitions and values
  | functionResults (count : Nat)
  | switchCase (v : Value)
  | switchOver (k : Kind)
  | stringOffset (offset : Int)
  | stringAs (t : Go.Ty)
  | complexAs (t : Go.Ty)
  | floatAs (t : Go.Ty)
  | functionAddressAs (t : Go.Ty)
  | addressAs (t : Go.Ty)
  | aggregateFor (t : Go.Ty)
  | unionMember (k : Kind)
  | wideUnionMember (bytes : Nat)
  /-- A reason given by a caller. -/
  | other (text : String)

/-- A broken promise. -/
inductive Breach where
  | unknownName (id : Nat)
  | unknownType (id : TypeId)
  | notPointer (id : TypeId) (t : Ty)
  | arrayOverflow (id : TypeId)
  | endlessSize (id : TypeId)
  | emptyName
  | exportedInScope (name : Bytes) (scope : Nat)
  | resultOfNonFunction (t : Ty)
  | callThrough (t : Ty)
  | argumentOutOfRange (index : Nat)
  | resultOutOfRange (index : Nat)
  | callOfData (index : Nat)
  | noUnionField (id : TypeId) (index : Nat)
  | noStructField (id : TypeId) (index : Nat)
  | negativeLabel (n : Int)
  | manyInitializers (count : Nat) (t : Go.Ty)
  | noUnionMember (t : Go.Ty) (member : Nat)
  | nonFunctionDefinition (index : Nat) (t : Ty)
  | undeclaredLocal (index : Nat)
  | unbalancedScope (position : Position)
  | localOutOfOrder (position : Position) (index expected : Nat)
  | objectOutOfRange (index : Nat)
  /-- A reason given by a caller. -/
  | other (text : String)

/-- A fault of a list of blocks. -/
inductive BlockFault where
  | duplicateLabel (label : String)
  | undefinedLabel (label : String)
  | fallsOffEnd
  | noFixpoint (rounds : Nat)
  /-- A reason given by a caller. -/
  | other (text : String)
  deriving DecidableEq, Repr

/-- An error. -/
inductive Error where
  | unsupported (position : Position) (cause : Unsupported)
  | breach (cause : Breach)
  /-- The blocks of a function, named if it is known, cannot be simplified. -/
  | blocks (function : Option String) (fault : BlockFault)
  /-- The text could not be delivered. -/
  | delivery (text : String)
  | inObject (object : String) (source : Error)

def Unsupported.message : Unsupported → String
  | .busyStack what => what ++ " with a non-empty evaluation stack"
  | .unfinishedBody => "function body ends with a non-empty evaluation stack"
  | .sideEffectBeforeConsumer => "side effect between an operand and its consumer"
  | .operandExpected => "operand expected on the evaluation stack"
  | .stackUnderflow => "evaluation stack underflow"
  | .dropWithoutValue => "drop without a value"
  | .dropOfDuplicate => "dropping a duplicated address"
  | .armWithoutCondition => "conditional arm without a condition"
  | .argumentsWithoutMarker => "call arguments do not start at an argument marker"
  | .resultSlotMismatch result slot =>
    s!"call result of type {result} in a slot allocated for type {slot}"
  | .resultWithoutSlot => "call result without an allocated result slot"
  | .logicalLabelWithoutGuard => "logical operator label without its guard"
  | .elseLabelWithoutArm => "conditional else label without a first arm"
  | .endLabelWithoutArm => "conditional end label without a first arm"
  | .recursiveType id => s!"recursive type {id}"
  | .manyResults id count => s!"function type {id} declares {count} results"
  | .noResult => "use of a call without a result"
  | .arrayWithSideEffects => "array operand with side effects"
  | .unnamedArgument index => s!"reference to unnamed argument {index}"
  | .untypedLoad => "load through a pointer without a value type"
  | .bitFieldIncrement => "increment of a bit-field"
  | .zeroSizedDifference => "difference of pointers to a zero-sized type"
  | .strayDuplicate => "duplicated value outside a compound assignment"
  | .integerConstant t => s!"integer constant of type {t}"
  | .functionFromInteger => "non-null integer used as a function pointer"
  | .increment t => s!"increment of {t}"
  | .truthValue k => "truth value of a " ++ k.describe
  | .functionArithmetic => "address arithmetic on a function pointer"
  | .operator symbol t => s!"operator {symbol} on {t}"
  | .functionComparison => "comparison of two function pointers"
  | .comparison symbol k => "comparison " ++ symbol ++ " of " ++ k.describe ++ " values"
  | .unaryOperator name t => s!"{name} of {t}"
  | .conversion src dst => s!"conversion from {src} to {dst}"
  | .bitFieldCompound => "compound assignment to a bit-field"
  | .nestedCompound => "nested compound assignment"
  | .bitField bits offset t => s!"bit-field of {bits} bits at {offset} in {t}"
  | .voidIndexing => "indexing through a void pointer"
  | .fieldOf index t => s!"field {index} of " ++ t.describe
  | .functionResults count => s!"function with {count} results"
  | .switchCase v => "switch case " ++ v.describe
  | .switchOver k => "switch over " ++ k.describe
  | .stringOffset offset => s!"string initializer at offset {offset}"
  | .stringAs t => s!"string literal as {t}"
  | .complexAs t => s!"complex value as {t}"
  | .floatAs t => s!"float value as {t}"
  | .functionAddressAs t => s!"function address as {t}"
  | .addressAs t => s!"address value as {t}"
  | .aggregateFor t => s!"aggregate initializer for {t}"
  | .unionMember k => "union initializer through a " ++ k.describe ++ " member"
  | .wideUnionMember bytes => s!"union member of {bytes} bytes"
  | .other text => text

def Breach.message : Breach → String
  | .unknownName id => s!"unknown dictionary id {id}"
  | .unknownType id => s!"unknown type id {id}"
  | .notPointer id t => s!"type {id} is not a pointer: " ++ t.describe
  | .arrayOverflow id => s!"array type {id} overflows"
  | .endlessSize id => s!"type {id} contains itself"
  | .emptyName => "cannot mangle an empty name"
  | .exportedInScope name scope =>
    "exported name " ++ Text.quoted (Text.readLossy name) ++
      s!" cannot belong to block scope {scope}"
  | .resultOfNonFunction t => "call through non-function type " ++ t.describe
  | .callThrough t => "call through " ++ t.describe
  | .argumentOutOfRange index => s!"argument {index} out of range"
  | .resultOutOfRange index => s!"result {index} out of range"
  | .callOfData index => s!"call of data object {index}"
  | .noUnionField id index => s!"union {id} has no field {index}"
  | .noStructField id index => s!"struct {id} has no field {index}"
  | .negativeLabel n => s!"negative label number {n}"
  | .manyInitializers count t => s!"{count} initializers for {t}"
  | .noUnionMember t member => s!"union {t} has no member {member}"
  | .nonFunctionDefinition index t =>
    s!"function definition {index} has non-function type " ++ t.describe
  | .undeclaredLocal index => s!"reference to undeclared local {index}"
  | .unbalancedScope position => s!"{position}: unbalanced end of scope"
  | .localOutOfOrder position index expected =>
    s!"{position}: local {index} declared out of order, expected {expected}"
  | .objectOutOfRange index => s!"reference to object {index} outside the unit"
  | .other text => text

def BlockFault.message : BlockFault → String
  | .duplicateLabel label => s!"label {label} defined twice"
  | .undefinedLabel label => s!"jump to undefined label {label}"
  | .fallsOffEnd => "control falls off the end"
  | .noFixpoint rounds => s!"no fixpoint after {rounds} rounds"
  | .other text => text

namespace Error

/-- The wording of an error. -/
def message : Error → String
  | .unsupported position cause => s!"{position}: unsupported: " ++ cause.message
  | .breach cause => "internal error: " ++ cause.message
  | .blocks none fault => "structural optimizer: " ++ fault.message
  | .blocks (some function) fault => s!"structural optimizer: {function}: " ++ fault.message
  | .delivery text => "I/O error: " ++ text
  | .inObject object source => s!"lowering {object}: " ++ source.message

/-- Is the cause a shape that is not covered? -/
def isUnsupported : Error → Bool
  | .unsupported .. => true
  | .inObject _ source => source.isUnsupported
  | _ => false

/-- Is the cause a broken promise? -/
def isBreach : Error → Bool
  | .breach _ => true
  | .inObject _ source => source.isBreach
  | _ => false

end Error
end StackToGo
