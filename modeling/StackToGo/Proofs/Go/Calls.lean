import StackToGo.Go.Expr
import StackToGo.Proofs.Blocks.Code

/-!
# What Go code calls

The calls of Go code are those of functions that are known by name, as the code has them from left
to right. Some of the functions are not the program's own: the accessor of the string table and the
support routines are written for the calls. `supports` picks the calls of these.
-/

namespace StackToGo.Go

/-- A call of a function that is known by its name. -/
structure Call where
  name : String
  /-- What the function is called with, if that is one integer. -/
  argument : Option Int
  deriving DecidableEq, Repr

/-- The integer that is the only argument. -/
def argument? : List Expr → Option Int
  | [.int n] => some n
  | _ => none

/-- Two arguments are not a single integer. -/
@[simp] theorem argument?_pair (x y : Expr) (rest : List Expr) :
    argument? (x :: y :: rest) = none := by
  cases x <;> rfl

/-- The call itself, apart from those in its callee and its arguments. -/
def callOf (callee : Expr) (arguments : List Expr) : List Call :=
  match callee with
  | .name f => [⟨f, argument? arguments⟩]
  | _ => []

mutual
/-- The calls in an expression. -/
def Expr.calls : Expr → List Call
  | .name _ => []
  | .int _ => []
  | .float _ => []
  | .hex _ _ => []
  | .nil => []
  | .paren x => x.calls
  | .addressOf x => x.calls
  | .deref x => x.calls
  | .negate x => x.calls
  | .complement x => x.calls
  | .binary _ lhs rhs => lhs.calls ++ rhs.calls
  | .select x _ => x.calls
  | .index x _ => x.calls
  | .call callee arguments => callOf callee arguments ++ (callee.calls ++ Expr.callsAll arguments)
  | .convert _ x => x.calls
  | .cast _ x => x.calls
  | .invoke _ body last => Stmt.callsAll body ++ last.calls
  | .composite _ elements => Element.callsAll elements

/-- The calls in the expressions of a list. -/
def Expr.callsAll : List Expr → List Call
  | [] => []
  | x :: rest => x.calls ++ Expr.callsAll rest

/-- The calls in a statement. -/
def Stmt.calls : Stmt → List Call
  | .eval x => x.calls
  | .discard x => x.calls
  | .assign _ x => x.calls
  | .define _ x => x.calls
  | .ret xs => Expr.callsAll xs
  | .returnIf cond x => cond.calls ++ x.calls

/-- The calls in statements one after the other. -/
def Stmt.callsAll : List Stmt → List Call
  | [] => []
  | s :: rest => s.calls ++ Stmt.callsAll rest

/-- The calls in a part of a composite literal. -/
def Element.calls : Element → List Call
  | .next x => x.calls
  | .place _ x => x.calls
  | .field _ x => x.calls

/-- The calls in the parts of a composite literal. -/
def Element.callsAll : List Element → List Call
  | [] => []
  | e :: rest => e.calls ++ Element.callsAll rest
end

/-- The calls in the expressions of an exit. -/
def Exit.calls : Exit Expr → List Call
  | .branch condition _ => condition.calls
  | .switch scrutinee cases _ => scrutinee.calls ++ cases.flatMap (·.1.calls)
  | _ => []

/-- The calls in a block. -/
def Block.calls (b : Block Stmt Expr) : List Call := Stmt.callsAll b.statements ++ b.exit.calls

/-- The calls in the code of a part of a file. What is text declares variables, or is a support
function itself. -/
def Item.calls : Item Stmt Expr → List Call
  | .function f => f.blocks.flatMap Block.calls
  | .init statement => statement.calls
  | .text _ => []

@[simp] theorem Expr.calls_name (text : String) : (Expr.name text).calls = [] := rfl

@[simp] theorem Expr.calls_int (value : Int) : (Expr.int value).calls = [] := rfl

@[simp] theorem Expr.calls_float (digits : String) : (Expr.float digits).calls = [] := rfl

@[simp] theorem Expr.calls_hex (width bits : Nat) : (Expr.hex width bits).calls = [] := rfl

@[simp] theorem Expr.calls_nil : Expr.nil.calls = [] := rfl

@[simp] theorem Expr.calls_paren (x : Expr) : (Expr.paren x).calls = x.calls := rfl

@[simp] theorem Expr.calls_addressOf (x : Expr) : (Expr.addressOf x).calls = x.calls := rfl

@[simp] theorem Expr.calls_deref (x : Expr) : (Expr.deref x).calls = x.calls := rfl

@[simp] theorem Expr.calls_negate (x : Expr) : (Expr.negate x).calls = x.calls := rfl

@[simp] theorem Expr.calls_complement (x : Expr) : (Expr.complement x).calls = x.calls := rfl

@[simp] theorem Expr.calls_binary (op : Operator) (lhs rhs : Expr) :
    (Expr.binary op lhs rhs).calls = lhs.calls ++ rhs.calls := rfl

@[simp] theorem Expr.calls_select (x : Expr) (name : String) :
    (Expr.select x name).calls = x.calls :=
  rfl

@[simp] theorem Expr.calls_index (x : Expr) (place : Nat) : (Expr.index x place).calls = x.calls :=
  rfl

@[simp] theorem Expr.calls_call (callee : Expr) (arguments : List Expr) :
    (Expr.call callee arguments).calls =
      callOf callee arguments ++ (callee.calls ++ Expr.callsAll arguments) := rfl

@[simp] theorem Expr.calls_convert (t : Ty) (x : Expr) : (Expr.convert t x).calls = x.calls := rfl

@[simp] theorem Expr.calls_cast (t : Ty) (x : Expr) : (Expr.cast t x).calls = x.calls := rfl

@[simp] theorem Expr.calls_invoke (results : List Ty) (body : List Stmt) (last : Stmt) :
    (Expr.invoke results body last).calls = Stmt.callsAll body ++ last.calls := rfl

@[simp] theorem Expr.calls_composite (t : Ty) (elements : List Element) :
    (Expr.composite t elements).calls = Element.callsAll elements := rfl

@[simp] theorem Expr.callsAll_nil : Expr.callsAll [] = [] := rfl

@[simp] theorem Expr.callsAll_cons (x : Expr) (rest : List Expr) :
    Expr.callsAll (x :: rest) = x.calls ++ Expr.callsAll rest := rfl

@[simp] theorem Stmt.calls_eval (x : Expr) : (Stmt.eval x).calls = x.calls := rfl

@[simp] theorem Stmt.calls_discard (x : Expr) : (Stmt.discard x).calls = x.calls := rfl

@[simp] theorem Stmt.calls_assign (name : String) (x : Expr) :
    (Stmt.assign name x).calls = x.calls :=
  rfl

@[simp] theorem Stmt.calls_define (name : String) (x : Expr) :
    (Stmt.define name x).calls = x.calls :=
  rfl

@[simp] theorem Stmt.calls_ret (xs : List Expr) : (Stmt.ret xs).calls = Expr.callsAll xs := rfl

@[simp] theorem Stmt.calls_returnIf (cond x : Expr) :
    (Stmt.returnIf cond x).calls = cond.calls ++ x.calls :=
  rfl

@[simp] theorem Stmt.callsAll_nil : Stmt.callsAll [] = [] := rfl

@[simp] theorem Stmt.callsAll_cons (s : Stmt) (rest : List Stmt) :
    Stmt.callsAll (s :: rest) = s.calls ++ Stmt.callsAll rest := rfl

/-- The calls in statements are those in each of them. -/
theorem Stmt.callsAll_eq_flatMap (list : List Stmt) :
    Stmt.callsAll list = list.flatMap Stmt.calls := by
  induction list with
  | nil => rfl
  | cons s rest ih => rw [Stmt.callsAll_cons, List.flatMap_cons, ih]

/-- The calls in statements in front and behind. -/
@[simp] theorem Stmt.callsAll_append (front back : List Stmt) :
    Stmt.callsAll (front ++ back) = Stmt.callsAll front ++ Stmt.callsAll back := by
  simp only [Stmt.callsAll_eq_flatMap, List.flatMap_append]

@[simp] theorem Element.callsAll_nil : Element.callsAll [] = [] := rfl

@[simp] theorem Element.callsAll_next (x : Expr) (rest : List Element) :
    Element.callsAll (.next x :: rest) = x.calls ++ Element.callsAll rest := rfl

@[simp] theorem Element.callsAll_place (index : Nat) (x : Expr) (rest : List Element) :
    Element.callsAll (.place index x :: rest) = x.calls ++ Element.callsAll rest := rfl

@[simp] theorem Element.callsAll_field (name : String) (x : Expr) (rest : List Element) :
    Element.callsAll (.field name x :: rest) = x.calls ++ Element.callsAll rest := rfl

@[simp] theorem callOf_name (f : String) (arguments : List Expr) :
    callOf (.name f) arguments = [⟨f, argument? arguments⟩] := rfl

@[simp] theorem callOf_select (x : Expr) (name : String) (arguments : List Expr) :
    callOf (.select x name) arguments = [] := rfl

@[simp] theorem callOf_paren (x : Expr) (arguments : List Expr) :
    callOf (.paren x) arguments = [] :=
  rfl

/-- A name makes no call. -/
@[simp] theorem Expr.calls_qualified (package : Option String) (name : String) :
    (Expr.qualified package name).calls = [] := by
  unfold Expr.qualified
  split <;> simp

/-- A conversion to an unsafe pointer makes the calls of its operand. -/
@[simp] theorem Expr.calls_unsafePointer (x : Expr) : (Expr.unsafePointer x).calls = x.calls := by
  simp [Expr.unsafePointer]

/-- The bits of an address make the calls of the address. -/
@[simp] theorem Expr.calls_addressBits (x : Expr) : (Expr.addressBits x).calls = x.calls := by
  simp [Expr.addressBits]

/-- A reinterpreted value makes the calls of the value. -/
@[simp] theorem Expr.calls_reinterpret (t : Ty) (x : Expr) :
    (Expr.reinterpret t x).calls = x.calls := by
  simp [Expr.reinterpret]

@[simp] theorem Expr.calls_stringAt (n : Int) : (Expr.stringAt n).calls = [⟨"str", some n⟩] := rfl

/-- An integer made of a truth value calls `bool2int`. -/
@[simp] theorem Expr.calls_ofBool (x : Expr) :
    (Expr.ofBool x).calls = ⟨"bool2int", argument? [x]⟩ :: x.calls := by
  simp [Expr.ofBool, Expr.callName]

@[simp] theorem Expr.calls_firstItem (name : String) : (Expr.firstItem name).calls = [] := rfl

@[simp] theorem Expr.calls_callName (f : String) (arguments : List Expr) :
    (Expr.callName f arguments).calls = ⟨f, argument? arguments⟩ :: Expr.callsAll arguments := rfl

/-! ## Calls after clean-up -/

/-- The calls in an exit are those in its expressions. -/
theorem Exit.calls_eq_flatMap (exit : Exit Expr) : exit.calls = exit.parts.flatMap Expr.calls := by
  cases exit <;> simp [Exit.calls, Exit.parts, List.flatMap_map]

/-- All that a list maps to lies in another list if what each of it maps to does. -/
theorem flatMap_subset_iff {α β : Type} {g : α → List β} {list : List α} {calls : List β} :
    list.flatMap g ⊆ calls ↔ ∀ a ∈ list, g a ⊆ calls := by
  constructor
  · intro h a ha c hc
    exact h (List.mem_flatMap.2 ⟨a, ha, hc⟩)
  · intro h c hc
    obtain ⟨a, ha, hc⟩ := List.mem_flatMap.1 hc
    exact h a ha hc

/-- The calls in a block are given ones if those in its statements and expressions are. -/
theorem Block.calls_subset_iff {b : Block Stmt Expr} {calls : List Call} :
    b.calls ⊆ calls ↔ b.Consists (fun s => s.calls ⊆ calls) (fun x => x.calls ⊆ calls) := by
  rw [Block.calls, Exit.calls_eq_flatMap, Stmt.callsAll_eq_flatMap, List.append_subset,
    flatMap_subset_iff, flatMap_subset_iff]
  exact ⟨fun h => ⟨h.1, h.2⟩, fun h => ⟨h.statements, h.parts⟩⟩

/-- Clean-up adds no calls. -/
theorem Cleaned.calls_subset {item item' : Item Stmt Expr} (h : Cleaned item item') :
    item'.calls ⊆ item.calls := by
  cases h with
  | init | text => exact List.Subset.refl _
  | @function f blocks before after h =>
    have hblocks : ∀ b ∈ f.blocks, b.Consists (fun s => s.calls ⊆ Item.calls (.function f))
        (fun x => x.calls ⊆ Item.calls (.function f)) :=
      fun b hb => Block.calls_subset_iff.1 (flatMap_subset_iff.1 (List.Subset.refl _) b hb)
    rw [Item.calls, flatMap_subset_iff]
    exact fun b hb => Block.calls_subset_iff.2 (consists_of_simplify h hblocks b hb)

/-- Clean-up makes no new calls. -/
theorem flatMap_calls_subset {items items' : List (Item Stmt Expr)}
    (h : List.Forall₂ Cleaned items items') :
    items'.flatMap Item.calls ⊆ items.flatMap Item.calls := by
  induction h with
  | nil => exact List.Subset.refl _
  | cons hfirst _ ih =>
    rw [List.flatMap_cons, List.flatMap_cons, List.append_subset]
    exact ⟨List.subset_append_of_subset_left _ hfirst.calls_subset,
      List.subset_append_of_subset_right _ ih⟩

/-! ## Calls of what is written for the calls -/

/-- Is it the name of a support function: the accessor of the string table, or a routine? The name
of a routine begins with a small letter and has an underscore. The names of the program begin with
a capital letter or an underscore, and the predeclared functions have no underscore. -/
def isSupportName (text : String) : Bool :=
  text == "str" || match text.toList with
    | first :: rest => first.isLower && rest.contains '_'
    | [] => false

/-- The call, if it is one of a support function. -/
def Call.support (c : Call) : List Call := if isSupportName c.name then [c] else []

/-- The calls of support functions among the given ones. -/
def supports (calls : List Call) : List Call := calls.flatMap Call.support

@[simp] theorem supports_nil : supports [] = [] := rfl

@[simp] theorem supports_cons (c : Call) (rest : List Call) :
    supports (c :: rest) = c.support ++ supports rest :=
  rfl

@[simp] theorem supports_append (front back : List Call) :
    supports (front ++ back) = supports front ++ supports back :=
  List.flatMap_append

/-- The calls of support functions are the calls with such a name. -/
theorem mem_supports {c : Call} {calls : List Call} :
    c ∈ supports calls ↔ c ∈ calls ∧ isSupportName c.name := by
  have hsupport (d : Call) : c ∈ d.support ↔ c = d ∧ isSupportName c.name := by
    unfold Call.support
    split
    · rename_i hname
      constructor
      · intro hc
        obtain rfl := List.mem_singleton.1 hc
        exact ⟨rfl, hname⟩
      · rintro ⟨rfl, -⟩
        exact List.mem_singleton_self c
    · rename_i hname
      constructor
      · exact fun hc => absurd hc List.not_mem_nil
      · rintro ⟨rfl, hc⟩
        exact absurd hc hname
  simp [supports, hsupport]

/-- A call of another function is none of a support function. -/
theorem Call.support_eq_nil {f : String} (h : isSupportName f = false) (argument : Option Int) :
    (Call.mk f argument).support = [] := by
  simp [Call.support, h]

@[simp] theorem support_bool2int (argument : Option Int) :
    (Call.mk "bool2int" argument).support = [] :=
  Call.support_eq_nil (by decide) argument

@[simp] theorem support_uint (argument : Option Int) : (Call.mk "uint" argument).support = [] :=
  Call.support_eq_nil (by decide) argument

@[simp] theorem support_real (argument : Option Int) : (Call.mk "real" argument).support = [] :=
  Call.support_eq_nil (by decide) argument

@[simp] theorem support_complex (argument : Option Int) :
    (Call.mk "complex" argument).support = [] :=
  Call.support_eq_nil (by decide) argument

end StackToGo.Go
