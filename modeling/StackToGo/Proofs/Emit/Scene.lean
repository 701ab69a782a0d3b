import Mathlib.Data.List.Forall2
import StackToGo.Proofs.Compound
import StackToGo.Proofs.Emit.LocalNames
import StackToGo.Proofs.Go.Marks
import StackToGo.Proofs.Routine

/-!
# Marks of steps

The marks of a tree and those of its Go code are different things: a tree refers to variables and
functions by their numbers, and code by their identifiers. `Matches` says which belong together.

What code is written depends on the place: inside the value of a store that computes its address
once, a second use of the address is a `p` that is bound to it. A `Scene` is such a place, and
`Scene.Ensures` says what holds of every result of a step there. This module has the rules for it,
and the marks of all code that is written without a look at operands.
-/

namespace StackToGo.Emit

open Identifier

/-- What the marks of a tree are in the Go code. The address of a store is the Go expression that
`p` is defined as, and each `p` has the definition of the one store around it. -/
inductive Matches (env : Env) (f : Frame) : Tree.Mark → Go.Mark → Prop
  | name (text : String) : Matches env f .name (.name text)
  | bind {c : Compound} {x : Go.Expr} (h : Gives env (expr f .operand c.address) x) :
      Matches env f (.bind c) (.bind x)
  | use {origin : Position} {c : Compound} {x : Go.Expr}
      (h : Gives env (expr f .operand c.address) x) :
      Matches env f (.use origin [c]) (.use (some x))

/-- The argument at the place has a name, and is spelled as the text. -/
def SpellsArgument (env : Env) (f : Frame) (index : Nat) (text : String) : Prop :=
  ∃ name, f.definition.arguments[index]? = some name ∧ ¬name.isNone ∧
    spelling env.dict ⟨name, false, none⟩ = .ok text

/-- Outside of compound assignments there is none around. -/
theorem Reached.compoundDepth_eq {env : Env} {s : State} (h : Reached env s) :
    s.compoundDepth = 0 :=
  Evolves.compoundDepth_eq h

/-- A place in the code: the stores that it is in the values of, and what `p` is bound to. -/
structure Scene where
  env : Env
  frame : Frame
  within : List Compound
  bound : Option Go.Expr

namespace Scene

/-- The states in which emission can be at a place. -/
inductive Admits : Scene → State → Prop
  | outside {env : Env} {f : Frame} {s : State} (h : Reached env s) : Admits ⟨env, f, [], none⟩ s
  | inside {env : Env} {f : Frame} {s : State} {c : Compound} {x : Go.Expr}
      (hsound : s.identifiers.Sound env.dict) (hdepth : s.compoundDepth = 1)
      (h : Gives env (expr f .operand c.address) x) :
      Admits ⟨env, f, [c], some x⟩ s

/-- All results that the step gives at the place are as `P` says. -/
def Ensures {α : Type} (σ : Scene) (m : Emit α) (P : α → Prop) : Prop :=
  ∀ s a s', σ.Admits s → Yields σ.env m s a s' → P a

section

variable {σ : Scene} {α β : Type} {s s' : State}

/-- The states at a place evolve to states at the place. -/
theorem Admits.evolves (h : σ.Admits s) (hs : Evolves σ.env s s') : σ.Admits s' := by
  cases h with
  | outside h => exact .outside (h.evolves hs)
  | inside hsound hdepth h => exact .inside (hs.sound hsound) (hs.compoundDepth_eq.trans hdepth) h

/-- The identifiers that are remembered at a place are right. -/
theorem Admits.sound (h : σ.Admits s) : s.identifiers.Sound σ.env.dict := by
  cases h with
  | outside h => exact h.sound
  | inside hsound hdepth h => exact hsound

/-! ## Steps put together -/

/-- A result is as is said if it is so. -/
theorem ensures_pure {a : α} {P : α → Prop} (h : P a) : σ.Ensures (pure a) P := by
  intro s b s' _ hb
  obtain ⟨rfl, -⟩ := yields_pure.1 hb
  exact h

/-- A failure gives no result. -/
theorem ensures_throw (e : Error) (P : α → Prop) : σ.Ensures (throw e) P :=
  fun _ _ _ _ h => absurd h not_yields_throw

/-- A failure because of what is not supported gives no result. -/
theorem ensures_unsupported (position : Position) (cause : Unsupported) (P : α → Prop) :
    σ.Ensures (unsupported position cause) P := ensures_throw _ P

/-- A failure because of a breach gives no result. -/
theorem ensures_breach (cause : Breach) (P : α → Prop) : σ.Ensures (breach cause) P :=
  ensures_throw _ P

/-- A sequence gives what the second step ensures for what the first one does. -/
theorem ensures_bind {m : Emit α} {k : α → Emit β} {P : α → Prop} {Q : β → Prop}
    (hsteady : Steady m) (hm : σ.Ensures m P) (hk : ∀ a, P a → σ.Ensures (k a) Q) :
    σ.Ensures (m >>= k) Q := by
  intro s b s' hs h
  obtain ⟨a, s₁, ha, hb⟩ := yields_bind.1 h
  exact hk a (hm s a s₁ hs ha) s₁ b s' (hs.evolves (hsteady.evolves ha)) hb

/-- A step whose result does not matter. -/
theorem ensures_skip {m : Emit α} {k : α → Emit β} {Q : β → Prop} (hsteady : Steady m)
    (hk : ∀ a, σ.Ensures (k a) Q) : σ.Ensures (m >>= k) Q :=
  ensures_bind (P := fun _ => True) hsteady (fun _ _ _ _ _ => trivial) fun a _ => hk a

/-- A branch ensures what both of its sides do. -/
theorem ensures_ite {c : Prop} {_ : Decidable c} {m m' : Emit α} {P : α → Prop} (h : σ.Ensures m P)
    (h' : σ.Ensures m' P) : σ.Ensures (if c then m else m') P := by
  split
  · exact h
  · exact h'

/-- A map ensures what holds of the images. -/
theorem ensures_map {m : Emit α} {g : α → β} {P : β → Prop} (hm : σ.Ensures m fun a => P (g a)) :
    σ.Ensures (g <$> m) P := by
  intro s b s' hs h
  obtain ⟨a, ha, rfl⟩ := yields_map.1 h
  exact hm s a s' hs ha

/-- A step that ensures more ensures less. -/
theorem Ensures.mono {m : Emit α} {P Q : α → Prop} (h : σ.Ensures m P) (hPQ : ∀ a, P a → Q a) :
    σ.Ensures m Q :=
  fun s a s' hs ha => hPQ a (h s a s' hs ha)

end

/-- The Go expressions that the step gives at the place have the given marks. -/
def Prints (σ : Scene) (m : Emit Go.Expr) (marks : List Tree.Mark) : Prop :=
  σ.Ensures m fun x => List.Forall₂ (Matches σ.env σ.frame) marks (x.marks σ.bound)

/-! ## Names -/

/-- What an identifier is spelled with is the name of a place. -/
theorem isPlaceName_of_spelling {dict : Dictionary} {key : Key} {text : String}
    (h : spelling dict key = .ok text) : Go.isPlaceName text := by
  obtain ⟨first, rest, hlist, hfirst, -, -⟩ := isLegal_of_spelling h
  rw [Go.isPlaceName, hlist]
  rcases hfirst with rfl | rfl <;> rfl

/-- The identifier of an unnamed local is the name of a place. -/
theorem isPlaceName_numbered (index : Nat) : Go.isPlaceName (numbered index) := by
  rw [Go.isPlaceName, toList_numbered]
  rfl

/-- The identifier of a result is the name of a place. -/
theorem isPlaceName_result (index : Nat) : Go.isPlaceName ("r" ++ toString index) := by
  have hlist : ("r" ++ toString index).toList = 'r' :: Nat.toDigits 10 index := by
    rw [String.toList_append]
    simp [toString, Nat.repr]
  rw [Go.isPlaceName, hlist]
  cases hdigits : Nat.toDigits 10 index with
  | nil => exact absurd hdigits Nat.toDigits_ne_nil
  | cons c rest =>
    have hmem : c ∈ Nat.toDigits 10 index := hdigits ▸ List.mem_cons_self
    exact Nat.isDigit_of_mem_toDigits (by decide) (by decide) hmem

/-- The name of a routine is no mark. -/
theorem nameMarks_routine (family : Routine.Family) (id : TypeId) (bound : Option Go.Expr) :
    Go.nameMarks (Routine.name family id) bound = [] := by
  have hlist := Routine.toList_name family id
  have hne : Routine.name family id ≠ "p" := by
    intro heq
    rw [heq] at hlist
    cases family <;> simp [Routine.Family.stem] at hlist
  have hplace : Go.isPlaceName (Routine.name family id) = false := by
    rw [Go.isPlaceName, hlist]
    cases family <;> rfl
  rw [Go.nameMarks, if_neg hne, hplace]
  rfl

section

variable (σ : Scene)

/-- An identifier gives its spelling. -/
theorem ensures_identifier (name : NameId) (exported : Bool) (scope : Scope) :
    σ.Ensures (identifier name exported scope) fun text =>
      spelling σ.env.dict ⟨name, exported, scope⟩ = .ok text := by
  intro s text s' hs h
  rw [← (hs.sound.identifier ⟨name, exported, scope⟩).2]
  exact congrArg Prod.fst h

/-- A local gives the name of a place. -/
theorem ensures_localName (l : Local) :
    σ.Ensures (localName l) fun text => Go.isPlaceName text := by
  unfold localName
  refine ensures_ite (ensures_pure (isPlaceName_numbered _)) ?_
  exact ensures_skip steady_read fun env =>
    (σ.ensures_identifier _ _ _).mono fun _ => isPlaceName_of_spelling

/-- The name of a routine that is asked for is no mark. -/
theorem ensures_require (family : Routine.Family) (id : TypeId) :
    σ.Ensures (require family id) fun name => Go.nameMarks name σ.bound = [] := by
  intro s name s' _ h
  obtain ⟨u, s₁, -, hname⟩ := yields_bind.1 h
  obtain ⟨rfl, -⟩ := yields_pure.1 hname
  exact nameMarks_routine family id σ.bound

/-- A place, or its address, refers to its name. -/
theorem marks_placeOf {name : String} (h : Go.isPlaceName name) (address : Bool) :
    (placeOf address name).marks σ.bound = [.name name] := by
  unfold placeOf
  split <;> simp [Go.nameMarks_of_isPlaceName h]

/-- A place, or its address, prints a name. -/
theorem prints_placeOf {name : String} (h : Go.isPlaceName name) (address : Bool) :
    σ.Prints (pure (placeOf address name)) [.name] := by
  refine ensures_pure ?_
  rw [σ.marks_placeOf h]
  exact .cons (.name name) .nil

/-- A reference to an argument names the argument. -/
theorem ensures_argumentRef (index : Nat) (address : Bool) (position : Position) :
    σ.Ensures (argumentRef σ.frame index address position) fun x =>
      ∃ text, SpellsArgument σ.env σ.frame index text ∧ x.marks σ.bound = [.name text] := by
  unfold argumentRef
  split
  case h_1 name hname =>
    split
    case isTrue => exact ensures_unsupported _ _ _
    case isFalse hnamed =>
      refine ensures_bind (steady_identifier _ _ _) (σ.ensures_identifier name false none)
        fun text htext => ?_
      exact ensures_pure
        ⟨text, ⟨name, hname, hnamed, htext⟩,
          σ.marks_placeOf (isPlaceName_of_spelling htext) address⟩
  case h_2 => exact ensures_ite (ensures_unsupported _ _ _) (ensures_breach _ _)

/-- An object prints a name. -/
theorem prints_objectAs (index : Nat) (name : NameId) (exported : Bool) :
    σ.Prints (objectAs index name exported) [.name] := by
  refine ensures_bind (steady_identifier _ _ _) (σ.ensures_identifier name exported none)
    fun text htext => ?_
  refine ensures_skip (steady_package? index) fun package => ensures_pure ?_
  rw [Go.Expr.marks_qualified _ (isPlaceName_of_spelling htext)]
  exact .cons (.name text) .nil

/-- A reference to a local prints a name. -/
theorem prints_localRef (usage : Use) (index : Nat) (address : Bool) :
    σ.Prints (localRef σ.frame usage index address) [.name] := by
  refine ensures_skip (steady_lift _) fun l => ?_
  refine ensures_bind (steady_localName l) (σ.ensures_localName l) fun name hname =>
    ensures_ite ?_ ?_
  · refine ensures_skip (steady_kind _) fun k =>
      ensures_ite (ensures_pure ?_) (σ.prints_placeOf hname address)
    rw [Go.Expr.firstItem, Go.Expr.marks_addressOf, Go.Expr.marks_index, Go.Expr.marks_name,
      Go.nameMarks_of_isPlaceName hname]
    exact .cons (.name name) .nil
  · exact σ.prints_placeOf hname address

/-- A reference to a result prints a name. -/
theorem prints_resultRef (index : Nat) (address : Bool) :
    σ.Prints (resultRef σ.frame index address) [.name] :=
  ensures_ite (ensures_breach _ _) (σ.prints_placeOf (isPlaceName_result index) address)

/-- A reference to a global prints a name. -/
theorem prints_globalRef (usage : Use) (index : Nat) (name : NameId) (linkage : Linkage)
    (address : Bool) : σ.Prints (globalRef usage index name linkage address) [.name] := by
  refine ensures_skip (steady_object index) fun o => ?_
  refine ensures_bind (steady_objectAs _ _ _) (σ.prints_objectAs index name _) fun x hx => ?_
  refine ensures_skip (steady_kind _) fun k => ensures_ite (ensures_pure ?_) ?_
  · rwa [Go.Expr.marks_addressOf, Go.Expr.marks_index]
  · refine ensures_ite (ensures_pure ?_) (ensures_pure hx)
    rwa [Go.Expr.marks_addressOf]

/-- A reference to an object prints a name. -/
theorem prints_objectRef (index : Nat) : σ.Prints (objectRef index) [.name] :=
  ensures_skip (steady_object index) fun _ => σ.prints_objectAs _ _ _

/-! ## Constants -/

/-- A float refers to nothing. -/
theorem marks_floatExpr (f : Number.Format) (t : Scalar) {fromBits : String}
    (h : Go.isPlaceName fromBits = false) (bits : Nat) :
    (floatExpr f t fromBits bits).marks σ.bound = [] := by
  unfold floatExpr
  split <;> simp [h]

/-- A single refers to nothing. -/
theorem marks_float32 (bits : UInt32) : (float32 bits).marks σ.bound = [] :=
  σ.marks_floatExpr _ _ (by decide) _

/-- A double refers to nothing. -/
theorem marks_float64 (bits : UInt64) : (float64 bits).marks σ.bound = [] :=
  σ.marks_floatExpr _ _ (by decide) _

/-- A complex number without imaginary part refers to what its real part does. -/
theorem marks_realOnly (re : Go.Expr) : (realOnly re).marks σ.bound = re.marks σ.bound := by
  have hname : Go.nameMarks "complex" σ.bound = [] := rfl
  simp [realOnly, complex, Go.Expr.callName, hname]

/-- An expression that refers to nothing. -/
theorem prints_nil {x : Go.Expr} (h : x.marks σ.bound = []) : σ.Prints (pure x) [] := by
  refine ensures_pure ?_
  rw [h]
  exact .nil

/-- An integer constant prints nothing. -/
theorem prints_integer (type : TypeId) (k : Kind) (value : Int) (position : Position) :
    σ.Prints (integer type k value position) [] := by
  unfold integer
  split
  · exact ensures_skip (steady_goType type) fun t => σ.prints_nil (by simp)
  · exact ensures_skip (steady_goType type) fun t => ensures_unsupported _ _ _

/-- An integer as a pointer prints nothing. -/
theorem prints_integerPointer (type : TypeId) (value : Int) (position : Position) :
    σ.Prints (integerPointer type value position) [] := by
  refine ensures_skip (steady_pointerBits value) fun bits =>
    ensures_ite (σ.prints_nil (by simp)) ?_
  refine ensures_ite (σ.prints_nil (by simp)) (ensures_skip steady_types fun table => ?_)
  refine ensures_skip (steady_lift _) fun isFunction => ensures_ite (ensures_unsupported _ _ _) ?_
  exact ensures_skip (steady_goType type) fun t => σ.prints_nil (by simp)

/-- A constant prints nothing. -/
theorem prints_constant (type : TypeId) (value : Int) (single : UInt32) (double : UInt64)
    (position : Position) : σ.Prints (constant type value single double position) [] := by
  refine ensures_skip (steady_kind type) fun k => ?_
  split
  · exact σ.prints_integerPointer type value position
  · exact σ.prints_nil (σ.marks_float32 _)
  · exact σ.prints_nil (σ.marks_float64 _)
  · exact σ.prints_nil ((σ.marks_realOnly _).trans (σ.marks_float32 _))
  · exact σ.prints_nil ((σ.marks_realOnly _).trans (σ.marks_float64 _))
  · exact σ.prints_integer type _ value position

/-- A pointer into the string table prints nothing. -/
theorem prints_stringPointer (type : TypeId) (id : StringId) (offset : Int) (position : Position) :
    σ.Prints (stringPointer type id offset position) [] := by
  refine ensures_skip (steady_stringOffset id) fun start => ensures_ite (σ.prints_nil (by simp)) ?_
  refine ensures_skip steady_types fun table => ensures_skip (steady_lift _) fun t => ?_
  split
  · refine ensures_ite (σ.prints_nil (by simp))
      (ensures_skip (steady_lift _) fun isFunction => ensures_ite ?_ ?_)
    · exact ensures_skip (steady_goType type) fun t => ensures_unsupported _ _ _
    · exact ensures_skip (steady_goType type) fun t => σ.prints_nil (by simp)
  · exact ensures_skip (steady_goType type) fun t => ensures_unsupported _ _ _

/-- What an increment adds prints nothing. -/
theorem prints_incrementDelta (type : TypeId) (delta : Int) (position : Position) :
    σ.Prints (incrementDelta type delta position) [] := by
  refine ensures_skip steady_types fun table => ensures_skip (steady_lift _) fun isData => ?_
  refine ensures_ite (σ.prints_nil (by simp)) (ensures_skip (steady_kind type) fun k => ?_)
  refine ensures_ite ?_ (ensures_ite ?_ ?_)
  · exact ensures_skip (steady_pointerBits delta) fun bits => σ.prints_nil (by simp)
  · exact σ.prints_integer type k delta position
  · refine ensures_ite ?_ ?_
    · exact ensures_skip (steady_goType type) fun t => σ.prints_nil (by simp)
    · exact ensures_skip (steady_goType type) fun t => ensures_unsupported _ _ _

/-- The zero that a value is compared with prints nothing. -/
theorem prints_zeroOf (type : TypeId) (position : Position) :
    σ.Prints (zeroOf type position) [] := by
  refine ensures_skip (steady_kind type) fun k => ?_
  split
  · refine σ.prints_nil ?_
    split <;> simp
  · exact σ.prints_nil (by simp)
  · exact ensures_unsupported _ _ _

/-! ## Operands put together -/

/-- The address in a pointer refers to what the pointer does. -/
theorem ensures_addressBits (type : TypeId) (x : Go.Expr) (position : Position) :
    σ.Ensures (addressBits type x position) fun y => y.marks σ.bound = x.marks σ.bound := by
  refine ensures_ite (ensures_pure rfl) (ensures_skip steady_types fun table => ?_)
  refine ensures_skip (steady_lift _) fun isFunction =>
    ensures_ite (ensures_unsupported _ _ _) (ensures_pure ?_)
  simp

/-- A comparison refers to what its left side does, and then its right side. -/
theorem ensures_compareExpr (op : CompareOp) (type : TypeId) (l r : Go.Expr)
    (position : Position) :
    σ.Ensures (compareExpr op type l r position) fun y =>
      y.marks σ.bound = l.marks σ.bound ++ r.marks σ.bound := by
  refine ensures_skip steady_types fun table =>
    ensures_skip (steady_lift _) fun isFunction => ensures_ite ?_ ?_
  · split
    · exact ensures_pure (by simp)
    · exact ensures_pure (by simp)
    · exact ensures_unsupported _ _ _
  · refine ensures_skip (steady_lift _) fun isData => ensures_ite (ensures_pure (by simp)) ?_
    exact ensures_skip (steady_kind type) fun k =>
      ensures_ite (ensures_pure (by simp)) (ensures_unsupported _ _ _)

/-- A conversion refers to what its operand does. -/
theorem ensures_convertExpr (src dst : TypeId) (x : Go.Expr) (position : Position) :
    σ.Ensures (convertExpr src dst x position) fun y => y.marks σ.bound = x.marks σ.bound := by
  refine ensures_ite (ensures_pure rfl) (ensures_skip steady_types fun table =>
    ensures_skip (steady_lift _) fun sk => ?_)
  refine ensures_skip (steady_lift _) fun dk => ensures_skip (steady_lift _) fun fromFunction => ?_
  refine ensures_skip (steady_goType dst) fun t => ?_
  have hname : Go.nameMarks "real" σ.bound = [] := rfl
  have hrefuse : σ.Ensures (do unsupported position (.conversion (← goType src) t) : Emit Go.Expr)
      fun y => y.marks σ.bound = x.marks σ.bound :=
    ensures_skip (steady_goType src) fun _ => ensures_unsupported _ _ _
  dsimp only
  split
  · refine ensures_ite ?_ (ensures_skip (steady_lift _) fun toFunction => ?_) <;> split_ifs <;>
      first | exact hrefuse | exact ensures_pure (by simp)
  · split_ifs <;> first
      | exact hrefuse
      | exact ensures_pure (by simp [marks_realOnly, Go.Expr.callName, hname])
  · exact hrefuse

/-- An argument of a call refers to what its value does. -/
theorem ensures_passArgument (param : Option TypeId) (variadic : Bool) (type : TypeId)
    (x : Go.Expr) :
    σ.Ensures (passArgument param variadic type x) fun y => y.marks σ.bound = x.marks σ.bound := by
  refine ensures_skip steady_types fun table => ?_
  split
  · refine ensures_ite (ensures_pure rfl) (ensures_skip (steady_lift _) fun isPointer =>
      ensures_ite (ensures_pure rfl) ?_)
    exact ensures_skip (steady_lift _) fun isFunction =>
      ensures_ite (ensures_pure rfl) (ensures_pure (by simp))
  · refine ensures_skip (steady_lift _) fun toData =>
      ensures_ite ?_ (ensures_ite (ensures_pure rfl) ?_)
    · exact ensures_skip (steady_goType _) fun t => ensures_pure (by simp)
    · exact ensures_skip (steady_lift _) fun isData =>
        ensures_ite (ensures_pure (by simp)) (ensures_pure rfl)

/-- The test of a value refers to what the value does. -/
theorem ensures_truthOf {x : Emit Go.Expr} {P : List Go.Mark → Prop} (hsteady : Steady x)
    (hx : σ.Ensures x fun y => P (y.marks σ.bound)) (t : Tree) (zero : Bool) :
    σ.Ensures (truthOf t x zero) fun y => P (y.marks σ.bound) := by
  refine ensures_skip (steady_lift _) fun type => ensures_bind hsteady hx fun x hx => ?_
  refine ensures_bind (steady_zeroOf _ _) (σ.prints_zeroOf type t.position) fun z hz =>
    ensures_pure ?_
  rw [Go.Expr.marks_binary, List.forall₂_nil_left_iff.1 hz, List.append_nil]
  exact hx

end

/-! ## Parts of the code -/

/-- A moved pointer refers to what the pointer does. -/
theorem marks_displaced (base : Go.Expr) (offset : Int) (bound : Option Go.Expr) :
    (displaced base offset).marks bound = base.marks bound := by
  unfold displaced
  split_ifs <;> simp

/-- What a pointer points to, or its address, refers to what the pointer does. -/
theorem marks_pointed (address : Bool) (x : Go.Expr) (bound : Option Go.Expr) :
    (pointed address x).marks bound = x.marks bound := by
  cases address <;> simp [pointed]

/-- What is given inside of a compound assignment is given one level deeper. -/
theorem exists_yields_of_inCompound {α : Type} {env : Env} {m : Emit α} {s s' : State} {a : α}
    (h : Yields env (inCompound m) s a s') :
    ∃ s₁, Yields env m { s with compoundDepth := s.compoundDepth + 1 } a s₁ := by
  have hresult : ((inCompound m env).perform s).1 =
    ((m env).perform { s with compoundDepth := s.compoundDepth + 1 }).1 := rfl
  rw [h] at hresult
  exact ⟨((m env).perform { s with compoundDepth := s.compoundDepth + 1 }).2,
    Prod.ext hresult.symm rfl⟩

/-- The marks of the code of a shape that are not those of its operands. -/
structure OwnMarks (σ : Scene) (shape : Shape) (position : Position) (own : List Go.Mark) :
    Prop where
  matched : List.Forall₂ (Matches σ.env σ.frame) (shape.ownMarks position σ.within) own
  argument : ∀ index address, shape = .argument index address →
    ∃ text, SpellsArgument σ.env σ.frame index text ∧ own = [.name text]

/-- Statements that define nothing. -/
def DefinesNothing (list : List Go.Stmt) : Prop := ∀ s ∈ list, ∀ bound, s.rebind bound = bound

/-- Statements in front and behind that define nothing define nothing. -/
theorem DefinesNothing.append {front back : List Go.Stmt} (h : DefinesNothing front)
    (h' : DefinesNothing back) :
    DefinesNothing (front ++ back) := fun s hs => (List.mem_append.1 hs).elim (h s) (h' s)

/-- Statements that define nothing leave the marks of those behind. -/
theorem DefinesNothing.marksAll_append {front : List Go.Stmt} (h : DefinesNothing front)
    (back : List Go.Stmt) (bound : Option Go.Expr) :
    Go.Stmt.marksAll (front ++ back) bound =
      Go.Stmt.marksAll front bound ++ Go.Stmt.marksAll back bound := by
  rw [Go.Stmt.marksAll_append, Go.Stmt.rebindAll_of_forall _ h]

end Scene

end StackToGo.Emit
