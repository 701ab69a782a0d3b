import StackToGo.Flow.Builder
import StackToGo.Proofs.Tree

/-!
# The builder does not look at positions

A tree has the position of the instruction that it was made of, and the builder makes nothing
depend on it. So a body whose instructions are moved to other positions gives the same nodes, with
their trees moved along (`agrees_build`). Where every instruction is at a position of its own, the
position of a tree tells which instruction made it.
-/

namespace StackToGo

def Instruction.relocate (g : Position → Position) (i : Instruction) : Instruction :=
  ⟨i.op, g i.position⟩

namespace Flow

/-! ## Moving nodes -/

def Statement.relocate (g : Position → Position) : Statement → Statement
  | .eval t => .eval (t.relocate g)
  | .init index position => .init index (g position)

def Exit.relocate (g : Position → Position) : Exit → Exit
  | .branch cond target onZero => .branch (cond.relocate g) target onZero
  | .switch value type cases default => .switch (value.relocate g) type cases default
  | exit => exit

def Node.relocate (g : Position → Position) (n : Node) : Node :=
  ⟨n.label, n.statements.map (Statement.relocate g), n.exit.relocate g⟩

def Slot.relocate (g : Position → Position) : Slot → Slot
  | .value t => .value (t.relocate g)
  | .result type => .result type
  | .marker => .marker
  | .guard cond label onZero => .guard (cond.relocate g) label onZero
  | .firstArm cond arm onZero elseLabel endLabel =>
    .firstArm (cond.relocate g) (arm.relocate g) onZero elseLabel endLabel

def Builder.relocate (g : Position → Position) (b : Builder) : Builder where
  stack := b.stack.map (Slot.relocate g)
  pending := b.pending.map (Tree.relocate g)
  nodes := b.nodes.map (Node.relocate g)
  label := b.label
  statements := b.statements.map (Statement.relocate g)

/-! ## Results that agree -/

section

variable {α β γ δ : Type}

/-- Both computations fail, or the result of the second is the image of that of the first. -/
def Agrees (φ : α → β) : Except Error α → Except Error β → Prop
  | .ok a, .ok b => b = φ a
  | .error _, .error _ => True
  | _, _ => False

/-- Results that are images agree. -/
theorem agrees_ok {φ : α → β} {a : α} {b : β} (h : b = φ a) : Agrees φ (.ok a) (.ok b) := h

/-- Failures agree. -/
theorem agrees_error {φ : α → β} {e e' : Error} : Agrees φ (.error e) (.error e') := trivial

/-- A computation agrees with itself. -/
theorem agrees_refl (x : Except Error α) : Agrees id x x := by
  cases x
  · exact agrees_error
  · exact agrees_ok rfl

/-- Computations agree if their first parts do and the rest agrees on the results. -/
theorem agrees_bind {φ : α → β} {ψ : γ → δ} {x : Except Error α} {y : Except Error β}
    {f : α → Except Error γ} {k : β → Except Error δ} (h : Agrees φ x y)
    (hk : ∀ a, Agrees ψ (f a) (k (φ a))) : Agrees ψ (x >>= f) (y >>= k) := by
  cases x <;> cases y
  case ok.ok a b =>
    have hb : b = φ a := h
    subst hb
    exact hk a
  case error.error => exact agrees_error
  all_goals exact h.elim

/-- Branches agree if their conditions and both of their sides do. -/
theorem agrees_ite {φ : α → β} {c d : Prop} [Decidable c] [Decidable d] {x x' : Except Error α}
    {y y' : Except Error β} (hc : d ↔ c) (h : Agrees φ x y) (h' : Agrees φ x' y') :
    Agrees φ (if c then x else x') (if d then y else y') := by
  by_cases hd : d
  · rw [if_pos hd, if_pos (hc.1 hd)]
    exact h
  · rw [if_neg hd, if_neg fun hcc => hd (hc.2 hcc)]
    exact h'

/-- If the second computation succeeds, so does the first. -/
theorem Agrees.eq_ok {φ : α → β} {x : Except Error α} {b : β} (h : Agrees φ x (.ok b)) :
    ∃ a, x = .ok a ∧ b = φ a := by
  cases x with
  | error e => exact h.elim
  | ok a => exact ⟨a, rfl, h⟩

end

namespace Builder

section

variable (g : Position → Position) (b : Builder) (position : Position)

/-! ## Operands -/

/-- Pushing a shape agrees. -/
theorem agrees_pushShape {b' : Builder} {shape shape' : Shape} {type type' : Option TypeId}
    (hb : b' = b.relocate g) (hshape : shape' = shape.relocate g) (htype : type' = type) :
    Agrees (Builder.relocate g) (.ok (b.pushShape shape type position))
      (.ok (b'.pushShape shape' type' (g position))) := by
  subst hb hshape htype
  exact agrees_ok (by simp [relocate, pushShape, pushTree, Slot.relocate, Tree.relocate_before])

/-- Ending a node and moving it can be exchanged. -/
theorem relocate_endNode (exit : Exit) :
    (b.endNode exit).relocate g = (b.relocate g).endNode (exit.relocate g) := by
  simp [relocate, endNode, Node.relocate]

/-- Ending a node agrees. -/
theorem agrees_endNode {exit exit' : Exit} (hexit : exit' = exit.relocate g) :
    Agrees (Builder.relocate g) (.ok (b.endNode exit)) (.ok ((b.relocate g).endNode exit')) := by
  subst hexit
  exact agrees_ok (relocate_endNode g b exit).symm

/-- Adding a statement and moving it can be exchanged. -/
theorem relocate_addStatement (statement : Statement) :
    (b.addStatement statement).relocate g =
      (b.relocate g).addStatement (statement.relocate g) := by
  simp [relocate, addStatement]

/-- Checking for the end of a statement agrees. -/
theorem agrees_expectBoundary (what : String) :
    Agrees id (b.expectBoundary position what)
      ((b.relocate g).expectBoundary (g position) what) := by
  unfold expectBoundary
  exact agrees_ite (by simp [atBoundary, relocate]) (agrees_ok rfl) agrees_error

/-- Moves an operand and the builder that it was taken from. -/
def relocateOperand (r : Tree × Builder) : Tree × Builder := (r.1.relocate g, r.2.relocate g)

/-- Popping a value agrees. -/
theorem agrees_popValue :
    Agrees (relocateOperand g) (b.popValue position) ((b.relocate g).popValue (g position)) := by
  unfold popValue
  refine agrees_ite (by simp [relocate]) agrees_error ?_
  obtain ⟨stack, pending, nodes, label, statements⟩ := b
  cases stack with
  | nil => exact agrees_error
  | cons slot stack =>
    cases slot with
    | value t => exact agrees_ok rfl
    | _ => exact agrees_error

/-- Popping values agrees. -/
theorem agrees_popValues (count : Nat) (later : List Tree) :
    Agrees (fun r => (r.1.map (Tree.relocate g), r.2.relocate g))
      (popValues position count later b)
      (popValues (g position) count (later.map (Tree.relocate g)) (b.relocate g)) := by
  induction count generalizing later b with
  | zero => exact agrees_ok rfl
  | succ count ih =>
    exact agrees_bind (agrees_popValue g b position) fun r => ih r.2 (r.1 :: later)

/-- Popping the arguments of a call agrees. -/
theorem agrees_popArguments (count : Nat) :
    Agrees (fun r => (r.1.map (Tree.relocate g), r.2.relocate g)) (b.popArguments count position)
      ((b.relocate g).popArguments count (g position)) := by
  refine agrees_bind (agrees_popValues g b position count []) fun r => ?_
  obtain ⟨args, stack, pending, nodes, label, statements⟩ := r
  cases stack with
  | nil => exact agrees_error
  | cons slot stack =>
    cases slot with
    | marker => exact agrees_ok rfl
    | _ => exact agrees_error

/-- Instructions with one operand agree. -/
theorem agrees_unary {shape : Tree → Shape} (type : TypeId)
    (hshape : ∀ t, (shape t).relocate g = shape (t.relocate g)) :
    Agrees (Builder.relocate g) (b.unary position shape type)
      ((b.relocate g).unary (g position) shape type) := by
  refine agrees_bind (agrees_popValue g b position) fun r => ?_
  exact agrees_pushShape g r.2 position rfl (hshape r.1).symm rfl

/-- Instructions with two operands agree. -/
theorem agrees_binary {shape : Tree → Tree → Shape} (type : TypeId)
    (hshape : ∀ s t, (shape s t).relocate g = shape (s.relocate g) (t.relocate g)) :
    Agrees (Builder.relocate g) (b.binary position shape type)
      ((b.relocate g).binary (g position) shape type) := by
  refine agrees_bind (agrees_popValue g b position) fun r => ?_
  refine agrees_bind (agrees_popValue g r.2 position) fun l => ?_
  exact agrees_pushShape g l.2 position rfl (hshape l.1 r.1).symm rfl

/-! ## Calls and statements -/

/-- Finishing a call agrees. -/
theorem agrees_finishCall (call : Shape) (result : Option TypeId) :
    Agrees (Builder.relocate g) (b.finishCall call result position)
      ((b.relocate g).finishCall (call.relocate g) result (g position)) := by
  obtain ⟨stack, pending, nodes, label, statements⟩ := b
  cases result with
  | none =>
    refine agrees_ite (by simp [relocate]) (agrees_ok ?_) (agrees_ok ?_)
    · rw [relocate_addStatement, Statement.relocate, Tree.relocate_mk]
      rfl
    · simp [relocate]
  | some type =>
    cases stack with
    | nil => exact agrees_error
    | cons slot stack =>
      cases slot with
      | result slot =>
        exact agrees_ite Iff.rfl (agrees_pushShape g _ position rfl rfl rfl) agrees_error
      | _ => exact agrees_error

/-- Dropping a value agrees. -/
theorem agrees_dropValue :
    Agrees (Builder.relocate g) (b.dropValue position)
      ((b.relocate g).dropValue (g position)) := by
  obtain ⟨stack, pending, nodes, label, statements⟩ := b
  cases stack with
  | nil => exact agrees_error
  | cons slot stack =>
    cases slot with
    | value t =>
      refine agrees_ite (by rw [Tree.isDuplicate_relocate]) agrees_error ?_
      refine agrees_ite (by simp) (agrees_ok ?_) (agrees_ok rfl)
      simp [relocate, Statement.relocate]
    | _ => exact agrees_error

/-! ## Jumps and labels -/

/-- Guards agree. -/
theorem agrees_guard (label : Label) (onZero : Bool) :
    Agrees (Builder.relocate g) (b.guard label onZero position)
      ((b.relocate g).guard label onZero (g position)) :=
  agrees_bind (agrees_popValue g b position) fun _ => agrees_ok rfl

/-- Branches between statements agree. -/
theorem agrees_branch (target : Label) (onZero : Bool) :
    Agrees (Builder.relocate g) (b.branch target onZero position)
      ((b.relocate g).branch target onZero (g position)) := by
  refine agrees_bind (agrees_popValue g b position) fun r => ?_
  exact agrees_bind (agrees_expectBoundary g r.2 position _) fun _ => agrees_endNode g r.2 rfl

/-- The ends of first arms agree. -/
theorem agrees_endArm (label : Label) :
    Agrees (Builder.relocate g) (b.endArm label position)
      ((b.relocate g).endArm label (g position)) := by
  refine agrees_bind (agrees_popValue g b position) fun r => ?_
  obtain ⟨arm, stack, pending, nodes, name, statements⟩ := r
  cases stack with
  | nil => exact agrees_error
  | cons slot stack =>
    cases slot with
    | guard => exact agrees_ok rfl
    | _ => exact agrees_error

/-- A blank node stays blank elsewhere. -/
theorem isBlank_relocate : (b.relocate g).isBlank = b.isBlank := by simp [isBlank, relocate]

/-- Labels between statements agree. -/
theorem agrees_plainLabel (label : Label) :
    Agrees (Builder.relocate g) (b.plainLabel label position)
      ((b.relocate g).plainLabel label (g position)) := by
  refine agrees_bind (agrees_expectBoundary g b position _) fun _ => ?_
  refine agrees_ite (by rw [isBlank_relocate]) (agrees_ok rfl) (agrees_ok ?_)
  exact congrArg (fun b => { b with label := some label })
    (relocate_endNode g b (.jump label)).symm

/-- Labels that end `&&` or `||` agree. -/
theorem agrees_logicalLabel (label : Label) (isAnd : Bool) :
    Agrees (Builder.relocate g) (b.logicalLabel label isAnd position)
      ((b.relocate g).logicalLabel label isAnd (g position)) := by
  refine agrees_bind (agrees_popValue g b position) fun r => ?_
  obtain ⟨rhs, stack, pending, nodes, name, statements⟩ := r
  cases stack with
  | nil => exact agrees_error
  | cons slot stack =>
    cases slot with
    | guard => exact agrees_ite Iff.rfl (agrees_pushShape g _ position rfl rfl rfl) agrees_error
    | _ => exact agrees_error

/-- Labels that begin second arms agree. -/
theorem agrees_elseLabel (label : Label) :
    Agrees (Builder.relocate g) (b.elseLabel label position)
      ((b.relocate g).elseLabel label (g position)) := by
  obtain ⟨stack, pending, nodes, name, statements⟩ := b
  cases stack with
  | nil => exact agrees_error
  | cons slot stack =>
    cases slot with
    | firstArm => exact agrees_ite Iff.rfl (agrees_ok rfl) agrees_error
    | _ => exact agrees_error

/-- Labels that end `?:` agree. -/
theorem agrees_endLabel (label : Label) :
    Agrees (Builder.relocate g) (b.endLabel label position)
      ((b.relocate g).endLabel label (g position)) := by
  refine agrees_bind (agrees_popValue g b position) fun r => ?_
  obtain ⟨arm, stack, pending, nodes, name, statements⟩ := r
  cases stack with
  | nil => exact agrees_error
  | cons slot stack =>
    cases slot with
    | firstArm cond first onZero elseLabel expected =>
      refine agrees_ite Iff.rfl ?_ agrees_error
      cases onZero <;> exact agrees_pushShape g _ position rfl rfl (Tree.type_relocate g _)
    | _ => exact agrees_error

/-! ## Instructions -/

/-- The builder does the same with an instruction that is moved. -/
theorem agrees_step (types : TypeTable) (i : Instruction) :
    Agrees (Builder.relocate g) (b.step types i) ((b.relocate g).step types (i.relocate g)) := by
  obtain ⟨op, position⟩ := i
  have hboundary := agrees_expectBoundary g b position
  have hpop := agrees_popValue g b position
  cases op
  case beginScope | endScope | allocResult | arguments => exact agrees_ok rfl
  case argument | localVar | result | global | const32 | const64 | stringConst | null =>
    exact agrees_pushShape g b position rfl rfl rfl
  case binary | compare | store | ptrDiff => exact agrees_binary g b position _ fun _ _ => rfl
  case unary | convert | postIncrement | preIncrement =>
    exact agrees_unary g b position _ fun _ => rfl
  case declare declaration =>
    refine agrees_ite Iff.rfl (agrees_ok rfl) (agrees_bind (hboundary _) fun _ => agrees_ok ?_)
    exact (relocate_addStatement g b (.init declaration.index position)).symm
  case load type =>
    refine agrees_bind hpop fun r => agrees_bind (agrees_refl _) fun loaded => ?_
    exact agrees_pushShape g r.2 position rfl rfl rfl
  case dup type =>
    refine agrees_bind hpop fun r => ?_
    refine agrees_pushShape g _ position ?_ rfl (Tree.type_relocate g r.1)
    exact agrees_pushShape g r.2 position rfl rfl (Tree.type_relocate g r.1)
  case drop type => exact agrees_dropValue g b position
  case copy type =>
    refine agrees_bind hpop fun r => agrees_bind (agrees_popValue g r.2 position) fun d => ?_
    exact agrees_pushShape g d.2 position rfl rfl (Tree.type_relocate g d.1)
  case element type indexType address neg =>
    refine agrees_bind hpop fun r => agrees_bind (agrees_popValue g r.2 position) fun d => ?_
    refine agrees_bind (agrees_refl _) fun result => ?_
    exact agrees_pushShape g d.2 position rfl rfl rfl
  case field type index address =>
    refine agrees_bind hpop fun r => agrees_bind (agrees_refl _) fun result => ?_
    exact agrees_pushShape g r.2 position rfl rfl rfl
  case call index count type =>
    refine agrees_bind (agrees_popArguments g b position count) fun r =>
      agrees_bind (agrees_refl _) fun result => ?_
    exact agrees_finishCall g r.2 position (.call index type r.1) result
  case callPointer count type =>
    refine agrees_bind (agrees_popArguments g b position (count + 1)) fun r => ?_
    refine agrees_bind (agrees_refl _) fun function => agrees_bind (agrees_refl _) fun result => ?_
    obtain ⟨args, b₁⟩ := r
    cases args with
    | nil => exact agrees_error
    | cons callee args =>
      exact agrees_finishCall g b₁ position (.callPointer type callee args) result
  case jump label cond =>
    cases cond with
    | true => exact agrees_endArm g b position label
    | false => exact agrees_bind (hboundary _) fun _ => agrees_endNode g b rfl
  case jumpZero label logical =>
    cases logical with
    | true => exact agrees_guard g b position label true
    | false => exact agrees_branch g b position label true
  case jumpNonzero label logical =>
    cases logical with
    | true => exact agrees_guard g b position label false
    | false => exact agrees_branch g b position label false
  case label label role =>
    cases role with
    | plain => exact agrees_plainLabel g b position label
    | logicalAnd => exact agrees_logicalLabel g b position label true
    | logicalOr => exact agrees_logicalLabel g b position label false
    | otherwise => exact agrees_elseLabel g b position label
    | join => exact agrees_endLabel g b position label
  case switch type cases default =>
    refine agrees_bind hpop fun r =>
      agrees_bind (agrees_expectBoundary g r.2 position _) fun _ => ?_
    exact agrees_endNode g r.2 rfl
  case ret => exact agrees_bind (hboundary _) fun _ => agrees_endNode g b rfl
  case abort => exact agrees_bind (hboundary _) fun _ => agrees_endNode g b rfl

/-- Whole runs agree. -/
theorem agrees_run (types : TypeTable) (body : List Instruction) :
    Agrees (Builder.relocate g) (b.run types body)
      ((b.relocate g).run types (body.map (Instruction.relocate g))) := by
  induction body generalizing b with
  | nil => exact agrees_ok rfl
  | cons i body ih => exact agrees_bind (agrees_step g b types i) ih

/-- Finishing agrees. -/
theorem agrees_finish : Agrees (List.map (Node.relocate g)) b.finish (b.relocate g).finish := by
  have hfalls : (b.relocate g).nodes.getLast?.any (!·.exit.fallsThrough) =
      b.nodes.getLast?.any (!·.exit.fallsThrough) := by
    rw [relocate, List.getLast?_map]
    cases b.nodes.getLast? with
    | none => rfl
    | some n =>
      obtain ⟨label, statements, exit⟩ := n
      cases exit <;> rfl
  unfold finish
  refine agrees_ite (by simp [atBoundary, relocate]) agrees_error ?_
  refine agrees_ite (by rw [isBlank_relocate, hfalls]) (agrees_ok rfl) (agrees_ok ?_)
  exact congrArg Builder.nodes (relocate_endNode g b .ret).symm

end

end Builder

/-- A body that is moved gives the nodes of the body, moved along, or both are refused. -/
theorem agrees_build (g : Position → Position) (types : TypeTable) (body : List Instruction) :
    Agrees (List.map (Node.relocate g)) (build types body)
      (build types (body.map (Instruction.relocate g))) :=
  agrees_bind (Builder.agrees_run g .start types body) (Builder.agrees_finish g)

/-! ## Numbered instructions -/

/-- The position that stands for the place of an instruction in its body. -/
def place (index : Nat) : Position := ⟨"", index, 0⟩

/-- The body with every instruction at its own place. -/
def numbered (body : List Instruction) : List Instruction :=
  body.mapIdx fun index i => ⟨i.op, place index⟩

/-- Where the instruction at a place really is. -/
def positionAt (body : List Instruction) (p : Position) : Position :=
  (body[p.line]?.map (·.position)).getD p

/-- Moving the instructions from their places to where they really are gives the body. -/
theorem relocate_numbered (body : List Instruction) :
    (numbered body).map (Instruction.relocate (positionAt body)) = body := by
  refine List.ext_getElem (by simp [numbered]) fun index h h' => ?_
  simp [numbered, Instruction.relocate, positionAt, place, h']

/-- The nodes of a body are those of the numbered body, moved to where the instructions are. -/
theorem build_numbered {types : TypeTable} {body : List Instruction} {nodes : List Node}
    (h : build types body = .ok nodes) :
    ∃ nodes', build types (numbered body) = .ok nodes' ∧
    nodes = nodes'.map (Node.relocate (positionAt body)) := by
  have hagrees := agrees_build (positionAt body) types (numbered body)
  rw [relocate_numbered, h] at hagrees
  exact hagrees.eq_ok

end Flow
end StackToGo
