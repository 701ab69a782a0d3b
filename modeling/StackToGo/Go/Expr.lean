import StackToGo.Go.Type
import StackToGo.Text.Hex

/-!
# Go expressions

The Go expressions and statements that programs are lowered to, and their text. Parentheses are
part of an expression, so its text is put together from the texts of its parts without looking at
them.
-/

namespace StackToGo.Go

/-- Operators between two operands. -/
inductive Operator where
  | add | sub | mul | div | rem | and | or | xor | lsh | rsh
  | eq | neq | lt | leq | gt | geq
  | logicalAnd | logicalOr
  /-- Multiplication by a size, written without blanks. -/
  | scale
  deriving DecidableEq, Repr

def Operator.symbol : Operator → String
  | .add => "+"
  | .sub => "-"
  | .mul => "*"
  | .div => "/"
  | .rem => "%"
  | .and => "&"
  | .or => "|"
  | .xor => "^"
  | .lsh => "<<"
  | .rsh => ">>"
  | .eq => "=="
  | .neq => "!="
  | .lt => "<"
  | .leq => "<="
  | .gt => ">"
  | .geq => ">="
  | .logicalAnd => "&&"
  | .logicalOr => "||"
  | .scale => "*"

/-- An operator between its operands. -/
def Operator.text : Operator → String
  | .scale => "*"
  | op => " " ++ op.symbol ++ " "

mutual
/-- A Go expression. -/
inductive Expr where
  | name (text : String)
  | int (value : Int)
  | float (digits : String)
  | hex (width bits : Nat)
  | nil
  | paren (x : Expr)
  | addressOf (x : Expr)
  | deref (x : Expr)
  | negate (x : Expr)
  | complement (x : Expr)
  | binary (op : Operator) (lhs rhs : Expr)
  | select (x : Expr) (name : String)
  | index (x : Expr) (place : Nat)
  | call (callee : Expr) (arguments : List Expr)
  /-- The conversion `T(x)`. -/
  | convert (t : Ty) (x : Expr)
  /-- The conversion `(T)(x)`, for a type that does not begin with a name. -/
  | cast (t : Ty) (x : Expr)
  /-- A function without parameters that is called at once: `func() R { body; last }()`. -/
  | invoke (results : List Ty) (body : List Stmt) (last : Stmt)
  /-- The literal `T{elements}`. -/
  | composite (t : Ty) (elements : List Element)

/-- A Go statement. -/
inductive Stmt where
  | eval (x : Expr)
  /-- The value is not used: `_ = x`. -/
  | discard (x : Expr)
  | assign (name : String) (x : Expr)
  | define (name : String) (x : Expr)
  | ret (xs : List Expr)
  /-- An early return: `if cond { return x }`. -/
  | returnIf (cond x : Expr)

/-- A part of a composite literal: the next one, the one at a place, or a named one. -/
inductive Element where
  | next (x : Expr)
  | place (index : Nat) (x : Expr)
  | field (name : String) (x : Expr)
end

/-- The results of a function, after its parameters. -/
def resultsText : List Ty → String
  | [] => ""
  | [t] => " " ++ t.text
  | ts => " (" ++ ", ".intercalate (ts.map Ty.text) ++ ")"

mutual
/-- The text of an expression. -/
def Expr.text : Expr → String
  | .name text => text
  | .int value => toString value
  | .float digits => digits
  | .hex width bits => "0x" ++ String.ofList (Text.hexNumber width bits)
  | .nil => "nil"
  | .paren x => "(" ++ x.text ++ ")"
  | .addressOf x => "&" ++ x.text
  | .deref x => "*" ++ x.text
  | .negate x => "-" ++ x.text
  | .complement x => "^" ++ x.text
  | .binary op lhs rhs => lhs.text ++ op.text ++ rhs.text
  | .select x name => x.text ++ "." ++ name
  | .index x place => x.text ++ "[" ++ toString place ++ "]"
  | .call callee arguments => callee.text ++ "(" ++ ", ".intercalate (Expr.texts arguments) ++ ")"
  | .convert t x => t.text ++ "(" ++ x.text ++ ")"
  | .cast t x => "(" ++ t.text ++ ")(" ++ x.text ++ ")"
  | .invoke results body last =>
    "func()" ++ resultsText results ++ " \x7b " ++ "; ".intercalate (Stmt.texts body) ++
      "; " ++ last.text ++
      " \x7d()"
  | .composite t elements =>
    t.text ++ "\x7b" ++ ", ".intercalate (Element.texts elements) ++ "\x7d"

/-- The texts of expressions in a list. -/
def Expr.texts : List Expr → List String
  | [] => []
  | x :: rest => x.text :: Expr.texts rest

/-- The text of a statement. -/
def Stmt.text : Stmt → String
  | .eval x => x.text
  | .discard x => "_ = " ++ x.text
  | .assign name x => name ++ " = " ++ x.text
  | .define name x => name ++ " := " ++ x.text
  | .ret xs => "return " ++ ", ".intercalate (Expr.texts xs)
  | .returnIf cond x => "if " ++ cond.text ++ " \x7b return " ++ x.text ++ " \x7d"

/-- The texts of statements in a list. -/
def Stmt.texts : List Stmt → List String
  | [] => []
  | s :: rest => s.text :: Stmt.texts rest

/-- The text of a part of a composite literal. -/
def Element.text : Element → String
  | .next x => x.text
  | .place index x => toString index ++ ": " ++ x.text
  | .field name x => name ++ ": " ++ x.text

/-- The texts of the parts of a composite literal. -/
def Element.texts : List Element → List String
  | [] => []
  | e :: rest => e.text :: Element.texts rest
end

/-- The texts of expressions in a list are those of its expressions. -/
theorem Expr.texts_eq_map (xs : List Expr) : Expr.texts xs = xs.map Expr.text := by
  induction xs with
  | nil => rfl
  | cons x rest ih => simp [Expr.texts, ih]

/-- The texts of statements in a list are those of its statements. -/
theorem Stmt.texts_eq_map (ss : List Stmt) : Stmt.texts ss = ss.map Stmt.text := by
  induction ss with
  | nil => rfl
  | cons s rest ih => simp [Stmt.texts, ih]

instance : ToString Expr := ⟨Expr.text⟩

instance : ToString Stmt := ⟨Stmt.text⟩

namespace Expr

/-- A call of a function known by its name. -/
def callName (f : String) (arguments : List Expr) : Expr := .call (.name f) arguments

/-- A name of a package; one of no package stands alone. -/
def qualified (package : Option String) (name : String) : Expr :=
  match package with
  | none => .name name
  | some "" => .name name
  | some package => .select (.name package) name

/-- The untyped pointer `unsafe.Pointer(x)`. -/
def unsafePointer (x : Expr) : Expr := .call (.select (.name "unsafe") "Pointer") [x]

/-- The address that a pointer holds: `uintptr(unsafe.Pointer(x))`. -/
def addressBits (x : Expr) : Expr := .convert .uintptr (unsafePointer x)

/-- A pointer of another type to the same place: `(T)(unsafe.Pointer(x))`. -/
def reinterpret (t : Ty) (x : Expr) : Expr := .cast t (unsafePointer x)

/-- A truth value as 0 or 1: `bool2int(x)`. -/
def ofBool (x : Expr) : Expr := callName "bool2int" [x]

/-- A pointer to the `n`-th byte of the string table. -/
def stringAt (n : Int) : Expr := callName "str" [.int n]

/-- A pointer to the first item of an array. -/
def firstItem (name : String) : Expr := .addressOf (.index (.name name) 0)

end Expr
end StackToGo.Go
