import StackToGo.Go.Expr

/-!
# What Go code refers to

A store that computes its address once is a function that is called at once: it binds the address
to `p`, and returns `p` and the value. The marks of Go code are the definitions of `p`, the uses of
`p` with the expression that it is bound to there, and the names of variables and functions of the
program, as the code has them from left to right.
-/

namespace StackToGo.Go

/-- What Go code refers to. -/
inductive Mark where
  /-- A variable or a function of the program. -/
  | name (text : String)
  /-- The definition `p := x`. -/
  | bind (x : Expr)
  /-- A use of `p`, and what it is bound to by the definition that it is in the scope of. -/
  | use (bound : Option Expr)

/-- Is it the name of a variable or a function of the program, or of a result? Routines,
predeclared functions and what the packages of the runtime offer are named otherwise. -/
def isPlaceName (text : String) : Bool :=
  match text.toList with
  | 'X' :: _ => true
  | '_' :: _ => true
  | 'r' :: c :: _ => c.isDigit
  | _ => false

/-- The marks of a name that stands alone. -/
def nameMarks (text : String) (bound : Option Expr) : List Mark :=
  if text = "p" then [.use bound] else if isPlaceName text then [.name text] else []

/-- The name of a place is a mark of its own. -/
theorem nameMarks_of_isPlaceName {text : String} (h : isPlaceName text) (bound : Option Expr) :
    nameMarks text bound = [.name text] := by
  have hne : text ≠ "p" := by
    rintro rfl
    exact absurd h (by decide)
  rw [nameMarks, if_neg hne, if_pos h]

/-- What `p` is bound to after a statement. -/
def Stmt.rebind : Stmt → Option Expr → Option Expr
  | .define name x, bound => if name = "p" then some x else bound
  | _, bound => bound

/-- What `p` is bound to after statements. -/
def Stmt.rebindAll (list : List Stmt) (bound : Option Expr) : Option Expr :=
  list.foldl (fun bound s => s.rebind bound) bound

mutual
/-- The marks of an expression where `p` is bound to `bound`. -/
def Expr.marks : Expr → Option Expr → List Mark
  | .name text, bound => nameMarks text bound
  | .int _, _ => []
  | .float _, _ => []
  | .hex _ _, _ => []
  | .nil, _ => []
  | .paren x, bound => x.marks bound
  | .addressOf x, bound => x.marks bound
  | .deref x, bound => x.marks bound
  | .negate x, bound => x.marks bound
  | .complement x, bound => x.marks bound
  | .binary _ lhs rhs, bound => lhs.marks bound ++ rhs.marks bound
  -- What is selected from a name is a name of a package; fields are selected from parentheses.
  | .select (.name _) name, _ => if isPlaceName name then [.name name] else []
  | .select x _, bound => x.marks bound
  | .index x _, bound => x.marks bound
  | .call callee arguments, bound => callee.marks bound ++ Expr.marksAll arguments bound
  | .convert _ x, bound => x.marks bound
  | .cast _ x, bound => x.marks bound
  | .invoke _ body last, bound =>
    Stmt.marksAll body bound ++ last.marks (Stmt.rebindAll body bound)
  | .composite _ elements, bound => Element.marksAll elements bound

/-- The marks of expressions in a list. -/
def Expr.marksAll : List Expr → Option Expr → List Mark
  | [], _ => []
  | x :: rest, bound => x.marks bound ++ Expr.marksAll rest bound

/-- The marks of a statement. The scope of a variable begins after its definition. -/
def Stmt.marks : Stmt → Option Expr → List Mark
  | .eval x, bound => x.marks bound
  | .discard x, bound => x.marks bound
  | .assign name x, bound => nameMarks name bound ++ x.marks bound
  | .define name x, bound => x.marks bound ++ if name = "p" then [.bind x] else []
  | .ret xs, bound => Expr.marksAll xs bound
  | .returnIf cond x, bound => cond.marks bound ++ x.marks bound

/-- The marks of statements one after the other. -/
def Stmt.marksAll : List Stmt → Option Expr → List Mark
  | [], _ => []
  | s :: rest, bound => s.marks bound ++ Stmt.marksAll rest (s.rebind bound)

/-- The marks of a part of a composite literal. -/
def Element.marks : Element → Option Expr → List Mark
  | .next x, bound => x.marks bound
  | .place _ x, bound => x.marks bound
  | .field _ x, bound => x.marks bound

/-- The marks of the parts of a composite literal. -/
def Element.marksAll : List Element → Option Expr → List Mark
  | [], _ => []
  | e :: rest, bound => e.marks bound ++ Element.marksAll rest bound
end

section

variable (bound : Option Expr)

@[simp] theorem Expr.marks_name (text : String) :
    (Expr.name text).marks bound = nameMarks text bound :=
  rfl

@[simp] theorem Expr.marks_int (value : Int) : (Expr.int value).marks bound = [] := rfl

@[simp] theorem Expr.marks_float (digits : String) : (Expr.float digits).marks bound = [] := rfl

@[simp] theorem Expr.marks_hex (width bits : Nat) : (Expr.hex width bits).marks bound = [] := rfl

@[simp] theorem Expr.marks_nil : Expr.nil.marks bound = [] := rfl

@[simp] theorem Expr.marks_paren (x : Expr) : (Expr.paren x).marks bound = x.marks bound := rfl

@[simp] theorem Expr.marks_addressOf (x : Expr) : (Expr.addressOf x).marks bound = x.marks bound :=
  rfl

@[simp] theorem Expr.marks_deref (x : Expr) : (Expr.deref x).marks bound = x.marks bound := rfl

@[simp] theorem Expr.marks_negate (x : Expr) : (Expr.negate x).marks bound = x.marks bound := rfl

@[simp] theorem Expr.marks_complement (x : Expr) :
    (Expr.complement x).marks bound = x.marks bound :=
  rfl

@[simp] theorem Expr.marks_binary (op : Operator) (lhs rhs : Expr) :
    (Expr.binary op lhs rhs).marks bound = lhs.marks bound ++ rhs.marks bound := rfl

@[simp] theorem Expr.marks_select_name (package name : String) :
    (Expr.select (.name package) name).marks bound =
      if isPlaceName name then [.name name] else [] := rfl

@[simp] theorem Expr.marks_select_paren (x : Expr) (name : String) :
    (Expr.select (.paren x) name).marks bound = x.marks bound := rfl

@[simp] theorem Expr.marks_index (x : Expr) (place : Nat) :
    (Expr.index x place).marks bound = x.marks bound :=
  rfl

@[simp] theorem Expr.marks_call (callee : Expr) (arguments : List Expr) :
    (Expr.call callee arguments).marks bound =
      callee.marks bound ++ Expr.marksAll arguments bound := rfl

@[simp] theorem Expr.marks_convert (t : Ty) (x : Expr) :
    (Expr.convert t x).marks bound = x.marks bound :=
  rfl

@[simp] theorem Expr.marks_cast (t : Ty) (x : Expr) :
    (Expr.cast t x).marks bound = x.marks bound :=
  rfl

@[simp] theorem Expr.marks_invoke (results : List Ty) (body : List Stmt) (last : Stmt) :
    (Expr.invoke results body last).marks bound =
      Stmt.marksAll body bound ++ last.marks (Stmt.rebindAll body bound) := rfl

@[simp] theorem Expr.marksAll_nil : Expr.marksAll [] bound = [] := rfl

@[simp] theorem Expr.marksAll_cons (x : Expr) (rest : List Expr) :
    Expr.marksAll (x :: rest) bound = x.marks bound ++ Expr.marksAll rest bound := rfl

@[simp] theorem Stmt.marks_eval (x : Expr) : (Stmt.eval x).marks bound = x.marks bound := rfl

@[simp] theorem Stmt.marks_discard (x : Expr) : (Stmt.discard x).marks bound = x.marks bound := rfl

@[simp] theorem Stmt.marks_define (x : Expr) :
    (Stmt.define "p" x).marks bound = x.marks bound ++ [.bind x] :=
  rfl

@[simp] theorem Stmt.marks_ret (xs : List Expr) :
    (Stmt.ret xs).marks bound = Expr.marksAll xs bound :=
  rfl

@[simp] theorem Stmt.marks_returnIf (cond x : Expr) :
    (Stmt.returnIf cond x).marks bound = cond.marks bound ++ x.marks bound := rfl

@[simp] theorem Stmt.marksAll_nil : Stmt.marksAll [] bound = [] := rfl

@[simp] theorem Stmt.marksAll_cons (s : Stmt) (rest : List Stmt) :
    Stmt.marksAll (s :: rest) bound = s.marks bound ++ Stmt.marksAll rest (s.rebind bound) := rfl

/-- The marks of statements, where those in front may bind `p` for those behind. -/
theorem Stmt.marksAll_append (front back : List Stmt) :
    Stmt.marksAll (front ++ back) bound =
      Stmt.marksAll front bound ++ Stmt.marksAll back (Stmt.rebindAll front bound) := by
  induction front generalizing bound with
  | nil => simp [Stmt.rebindAll]
  | cons s front ih => simp [ih, Stmt.rebindAll]

/-- Statements that define nothing leave `p` as it is. -/
theorem Stmt.rebindAll_of_forall {list : List Stmt}
    (h : ∀ s ∈ list, ∀ bound, s.rebind bound = bound) :
    Stmt.rebindAll list bound = bound := by
  induction list with
  | nil => rfl
  | cons s rest ih =>
    show Stmt.rebindAll rest (s.rebind bound) = bound
    rw [h s List.mem_cons_self, ih fun t ht => h t (List.mem_cons_of_mem _ ht)]

/-! ## Names that the program does not choose -/

/-- A conversion to an unsafe pointer refers to what its operand does. -/
@[simp] theorem Expr.marks_unsafePointer (x : Expr) :
    (Expr.unsafePointer x).marks bound = x.marks bound := by
  have hname : isPlaceName "Pointer" = false := by decide
  simp [Expr.unsafePointer, hname]

/-- The bits of an address refer to what the address does. -/
@[simp] theorem Expr.marks_addressBits (x : Expr) :
    (Expr.addressBits x).marks bound = x.marks bound := by
  simp [Expr.addressBits]

/-- A reinterpreted value refers to what the value does. -/
@[simp] theorem Expr.marks_reinterpret (t : Ty) (x : Expr) :
    (Expr.reinterpret t x).marks bound = x.marks bound := by
  simp [Expr.reinterpret]

/-- An integer made of a truth value refers to what that does. -/
@[simp] theorem Expr.marks_ofBool (x : Expr) : (Expr.ofBool x).marks bound = x.marks bound := by
  have hname : nameMarks "bool2int" bound = [] := rfl
  simp [Expr.ofBool, Expr.callName, hname]

/-- A pointer into the string table refers to nothing. -/
@[simp] theorem Expr.marks_stringAt (n : Int) : (Expr.stringAt n).marks bound = [] := by
  have hname : nameMarks "str" bound = [] := rfl
  simp [Expr.stringAt, Expr.callName, hname]

/-- A name of the program is marked, with its package or without. -/
theorem Expr.marks_qualified {name : String} (h : isPlaceName name) (package : Option String) :
    (Expr.qualified package name).marks bound = [.name name] := by
  unfold Expr.qualified
  split
  · rw [Expr.marks_name, nameMarks_of_isPlaceName h]
  · rw [Expr.marks_name, nameMarks_of_isPlaceName h]
  · rw [Expr.marks_select_name, if_pos h]

end

end StackToGo.Go
