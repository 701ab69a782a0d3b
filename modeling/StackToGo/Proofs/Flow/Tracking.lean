import StackToGo.Proofs.Flow.Rules

/-!
# The builder tracks the stack machine

Between two instructions the builder holds the statements of the node being filled, a stack of
trees and marks, and pending side effects. `Builder.outcome` says what the stack machine has come
to when it has run the same instructions from the start of the node: usually to the next
instruction with the values of the trees on its stack, but a guard or a first arm on the stack of
the builder may have sent it ahead to a label that the builder has not read yet. `Inner.advance`
shows that one more instruction keeps the two together.
-/

namespace StackToGo.Flow

open StateTransition

section

variable {V S : Type} (I : Interpretation V S) (types : TypeTable) (body : List Instruction)

/-! ## Labels -/

/-- The labels that a body defines. -/
def definedLabels (body : List Instruction) : List Label :=
  body.filterMap fun instruction => match instruction.op with
    | .label label _ => some label
    | _ => none

/-- The labels of two bodies in a row. -/
theorem definedLabels_append (front back : List Instruction) :
    definedLabels (front ++ back) = definedLabels front ++ definedLabels back :=
  List.filterMap_append

/-- A label that is not in the first body is looked for in the second. -/
theorem landing_append {front back : List Instruction} {label : Label}
    (h : label ∉ definedLabels front) : landing (front ++ back) label = landing back label := by
  induction front with
  | nil => rfl
  | cons instruction front ih =>
    obtain ⟨op, position⟩ := instruction
    cases op with
    | label l role =>
      have hne : l ≠ label := fun heq => h (heq ▸ List.mem_cons_self)
      have hrest : label ∉ definedLabels front := fun hmem => h (List.mem_cons_of_mem _ hmem)
      rw [List.cons_append, landing, if_neg hne]
      exact ih hrest
    | _ => exact ih h

/-- A label that is defined once is where a jump to it lands. -/
theorem landing_label {body front rest : List Instruction} {label : Label} {role : LabelRole}
    {position : Position} (hlabels : (definedLabels body).Nodup)
    (hbody : body = front ++ ⟨.label label role, position⟩ :: rest) :
    landing body label = some (role, rest) := by
  subst hbody
  have hnew : label ∉ definedLabels front := by
    rw [definedLabels_append] at hlabels
    exact fun hmem => (List.disjoint_of_nodup_append hlabels) hmem List.mem_cons_self
  rw [landing_append hnew, landing, if_pos rfl]

/-- A jump to a label lands behind it. -/
theorem enter_label {body front rest : List Instruction} {label : Label} {role : LabelRole}
    {position : Position} (hlabels : (definedLabels body).Nodup)
    (hbody : body = front ++ ⟨.label label role, position⟩ :: rest) :
    enter body label role = .running rest := by
  rw [enter, landing_label hlabels hbody]
  exact if_pos rfl

/-! ## The stack as a run -/

/-- What the machine makes of its stack while the instructions of one slot run. A guard may jump
ahead, and so does the end of a first arm; control is then where the error says. -/
def extend : Slot → List (Entry V) × World V S → Except (Config V S) (List (Entry V) × World V S)
  | .value tree, (stack, w) =>
    let v := evalTree I tree w
    .ok (.value v.1 :: stack, v.2)
  | .result type, (stack, w) => .ok (.result type :: stack, w)
  | .marker, (stack, w) => .ok (.marker :: stack, w)
  | .guard cond label onZero, (stack, w) =>
    let c := evalTree I cond w
    if I.isZero c.1 == onZero then .error (shortCircuit I body label c.1 stack c.2)
      else .ok (stack, c.2)
  | .firstArm cond arm onZero _ endLabel, (stack, w) =>
    let c := evalTree I cond w
    if I.isZero c.1 == onZero then .ok (stack, c.2)
    else
      let v := evalTree I arm c.2
      .error ⟨enter body endLabel .join, .value v.1 :: stack, v.2⟩

/-- The same for slots on top of each other, the top first. -/
def climb :
    List Slot → List (Entry V) × World V S → Except (Config V S) (List (Entry V) × World V S)
  | [], r => .ok r
  | slot :: below, r => climb below r >>= extend I body slot

/-- Slots are climbed from the bottom up. -/
theorem climb_append (above below : List Slot) (r : List (Entry V) × World V S) :
    climb I body (above ++ below) r = climb I body below r >>= climb I body above := by
  induction above with
  | nil => exact (bind_pure (climb I body below r)).symm
  | cons slot above ih =>
    rw [List.cons_append, climb, ih, bind_assoc]
    rfl

/-- Side effects whose values are not wanted. -/
def settleEffects (effects : List Tree) (r : List (Entry V) × World V S) :
    Except (Config V S) (List (Entry V) × World V S) :=
  .ok (r.1, (evalTrees I effects r.2).2)

/-- What the machine has come to, from the world at the start of the node being filled. -/
def Builder.outcome (b : Builder) (w : World V S) :
    Except (Config V S) (List (Entry V) × World V S) :=
  climb I body b.stack ([], b.statements.foldl (runStatement I) w) >>= settleEffects I b.pending

/-! ## Operands -/

/-- Trees are computed in their order. -/
theorem evalTrees_append (front back : List Tree) (w : World V S) :
    evalTrees I (front ++ back) w =
      ((evalTrees I front w).1 ++ (evalTrees I back (evalTrees I front w).2).1,
      (evalTrees I back (evalTrees I front w).2).2) := by
  induction front generalizing w with
  | nil => rfl
  | cons t front ih => simp only [List.cons_append, evalTrees, ih]

/-- Every tree has one value. -/
theorem length_evalTrees (trees : List Tree) (w : World V S) :
    (evalTrees I trees w).1.length = trees.length := by
  induction trees generalizing w with
  | nil => rfl
  | cons t trees ih => simp only [evalTrees, List.length_cons, ih]

/-- Operands on the stack are computed in their order. -/
theorem climb_operands (operands : List Tree) (stack : List (Entry V)) (w : World V S) :
    climb I body (operands.reverse.map .value) (stack, w) =
      .ok ((evalTrees I operands w).1.reverse.map .value ++ stack,
        (evalTrees I operands w).2) := by
  induction operands using List.reverseRecOn with
  | nil => rfl
  | append_singleton operands t ih =>
    rw [List.reverse_append, List.reverse_singleton, List.singleton_append,
      List.map_cons, climb, ih, evalTrees_append, List.reverse_append]
    rfl

/-- Values are taken in the order in which they were pushed. -/
theorem takeValues_append (values later : List V) (stack : List (Entry V)) :
    takeValues values.length later (values.reverse.map .value ++ stack) =
      some (values ++ later, stack) := by
  induction values using List.reverseRecOn generalizing later with
  | nil => rfl
  | append_singleton values v ih =>
    rw [List.reverse_append, List.length_append, List.append_assoc]
    exact ih (v :: later)

/-- Statements of trees are run as the trees are computed. -/
theorem foldl_runStatement_eval (trees : List Tree) (w : World V S) :
    (trees.map Statement.eval).foldl (runStatement I) w = (evalTrees I trees w).2 := by
  induction trees generalizing w with
  | nil => rfl
  | cons t trees ih => exact ih _

/-- Effects and operands may change places when there is only one kind of them. -/
theorem evalTrees_swap {operands effects : List Tree} (h : operands = [] ∨ effects = [])
    (w : World V S) :
    (evalTrees I operands w).1 = (evalTrees I operands (evalTrees I effects w).2).1 ∧
      (evalTrees I effects (evalTrees I operands w).2).2 =
        (evalTrees I operands (evalTrees I effects w).2).2 := by
  rcases h with rfl | rfl
  · exact ⟨rfl, rfl⟩
  · exact ⟨rfl, rfl⟩

/-! ## Places -/

/-- Passes the labels that begin a second arm, which do nothing. The guard of the arm jumps behind
its label, and so it is there that the machine waits for the builder. -/
def settle : List Instruction → List Instruction
  | ⟨.label _ .otherwise, _⟩ :: rest => settle rest
  | rest => rest

/-- Where the machine is when the instructions `rest` are still to be read. -/
def locate (rest : List Instruction) :
    Except (Config V S) (List (Entry V) × World V S) → Config V S
  | .ok (stack, w) => ⟨.running (settle rest), stack, w⟩
  | .error c => c

/-- The machine passes the labels that begin second arms. -/
theorem reaches_settle (rest : List Instruction) (stack : List (Entry V)) (w : World V S) :
    Reaches (Config.next I types body) ⟨.running rest, stack, w⟩
      ⟨.running (settle rest), stack, w⟩ := by
  fun_induction settle rest with
  | case1 label position rest ih =>
    exact .head rfl ih
  | case2 => exact .refl

variable {I types body}
variable {op : Op} {position : Position} {rest : List Instruction} {stack stack' : List (Entry V)}
  {w w' : World V S}

/-- The machine executes an instruction that is not the label of a second arm. -/
theorem reaches_of_execute {c : Config V S}
    (hop : settle (⟨op, position⟩ :: rest) = ⟨op, position⟩ :: rest)
    (h : execute I types body position rest stack w op = some c) :
    Reaches (Config.next I types body) (locate (⟨op, position⟩ :: rest) (.ok (stack, w))) c := by
  rw [locate, hop]
  exact .single h

/-- The same for an instruction after which control goes on to the next one. -/
theorem reaches_locate_of_execute (hop : settle (⟨op, position⟩ :: rest) = ⟨op, position⟩ :: rest)
    (h : execute I types body position rest stack w op = some ⟨.running rest, stack', w'⟩) :
    Reaches (Config.next I types body) (locate (⟨op, position⟩ :: rest) (.ok (stack, w)))
      (locate rest (.ok (stack', w'))) :=
  (reaches_of_execute hop h).trans (reaches_settle I types body rest stack' w')

/-- What has jumped ahead waits, so only a machine that is at the instruction has to be
followed. -/
theorem reaches_locate_bind {α : Type} {ahead : List Instruction} {r : Except (Config V S) α}
    {k k' : α → Except (Config V S) (List (Entry V) × World V S)}
    (h : ∀ a, Reaches (Config.next I types body) (locate ahead (k a)) (locate rest (k' a))) :
    Reaches (Config.next I types body) (locate ahead (r >>= k)) (locate rest (r >>= k')) := by
  cases r with
  | error c => exact .refl
  | ok a => exact h a

/-- Other instructions are not passed. -/
theorem settle_cons (h : ∀ label, op ≠ .label label .otherwise) :
    settle (⟨op, position⟩ :: rest) = ⟨op, position⟩ :: rest := by
  unfold settle
  split
  case h_1 label _ _ heq => exact absurd (congrArg Instruction.op (List.cons.inj heq).1) (h label)
  case h_2 => rfl

/-- A conditional jump is not passed. -/
theorem settle_conditionalJump {onZero logical : Bool} {label : Label} :
    settle (⟨conditionalJump onZero label logical, position⟩ :: rest) =
      ⟨conditionalJump onZero label logical, position⟩ :: rest := by
  cases onZero with
  | true => rfl
  | false => rfl

/-- A conditional jump executes as a jump on its condition. -/
theorem execute_conditionalJump {onZero logical : Bool} {label : Label} :
    execute I types body position rest stack w (conditionalJump onZero label logical) =
      executeJump I body label logical onZero rest stack w := by
  cases onZero with
  | true => rfl
  | false => rfl

/-- An idle instruction begins no second arm. -/
theorem not_label_of_isIdle (h : isIdle op) (label : Label) : op ≠ .label label .otherwise := by
  rintro rfl
  cases h

/-- An idle instruction executes as nothing. -/
theorem execute_of_isIdle (h : isIdle op) :
    execute I types body position rest stack w op = some ⟨.running rest, stack, w⟩ := by
  cases op
  case beginScope => rfl
  case endScope => rfl
  case declare declaration =>
    have hnone : declaration.value.isNone = true := h
    rw [execute, if_pos hnone]
  all_goals cases h

/-- An operation begins no second arm. -/
theorem not_label_of_operation {operation : Operation} {count : Nat}
    (h : operation? types position op = some (operation, count)) (label : Label) :
    op ≠ .label label .otherwise := by
  rintro rfl
  cases h

/-- An operation executes on its operands. -/
theorem execute_of_operation {operation : Operation} {count : Nat}
    (h : operation? types position op = some (operation, count)) :
    execute I types body position rest stack w op =
      executeOperation I operation count rest stack w := by
  cases op
  case beginScope => cases h
  case endScope => cases h
  case declare => cases h
  case allocResult => cases h
  case arguments => cases h
  case drop => cases h
  case jump => cases h
  case jumpZero => cases h
  case jumpNonzero => cases h
  case label => cases h
  case switch => cases h
  case ret => cases h
  case abort => cases h
  all_goals simp only [execute, h]

/-- A call begins no second arm. -/
theorem not_label_of_call {call : Operation} {count : Nat}
    (h : call? types position op = some (call, count)) (label : Label) :
    op ≠ .label label .otherwise := by
  rintro rfl
  cases h

/-- A call executes on its operands. -/
theorem execute_of_call {call : Operation} {count : Nat}
    (h : call? types position op = some (call, count)) :
    execute I types body position rest stack w op = executeCall I call count rest stack w := by
  cases op
  case call index count type => simp only [execute, operation?, h]
  case callPointer count type => simp only [execute, operation?, h]
  all_goals cases h

/-- A called pointer is an operand, so only a direct call has none. -/
theorem eq_call_of_no_operands {call : Operation} (h : call? types position op = some (call, 0)) :
    ∃ index type, op = .call index 0 type := by
  cases op
  case call index count type =>
    obtain ⟨result, -, hcall⟩ := Option.map_eq_some_iff.1 h
    obtain rfl : count = 0 := (Prod.mk.inj hcall).2
    exact ⟨index, type, rfl⟩
  case callPointer count type =>
    obtain ⟨result, -, hcall⟩ := Option.map_eq_some_iff.1 h
    exact absurd (Prod.mk.inj hcall).2 (Nat.succ_ne_zero count)
  all_goals cases h

/-- A call takes the values above its mark. -/
theorem executeCall_append (call : Operation) (values : List V) (below : List (Entry V)) :
    executeCall I call values.length rest (values.reverse.map .value ++ .marker :: below) w =
      (returnValue call.type (I.operate call values w).1 below).map
        fun stack => ⟨.running rest, stack, (I.operate call values w).2⟩ := by
  rw [executeCall, takeValues_append, List.append_nil]
  cases hreturn : returnValue call.type (I.operate call values w).1 below with
  | none => simp [hreturn]
  | some stack => simp [hreturn]

/-- A tree that takes the pending side effects with it. They come before its operands, but where
there are any operands nothing is pending. -/
theorem evalTree_before {operation : Operation} {shape : Shape} {type : Option TypeId}
    {operands effects : List Tree} (hshape : Computes shape type position operation operands)
    (h : operands = [] ∨ effects = []) :
    evalTree I ((Tree.mk shape type position []).before effects) w =
      I.operate operation (evalTrees I operands w).1
        (evalTrees I effects (evalTrees I operands w).2).2 := by
  obtain ⟨hvalues, hworld⟩ := evalTrees_swap I h w
  show evalShape I shape type position (evalTrees I (effects ++ []) w).2 = _
  rw [hvalues, hworld, ← hshape.eval I, List.append_nil]

/-! ## One instruction -/

namespace Builder

variable {b b' : Builder}

/-- What the machine has come to, from the lower slots to the upper ones. -/
theorem outcome_eq {above below : List Slot} (hstack : b.stack = above ++ below) (w : World V S) :
    b.outcome I body w = climb I body below ([], b.statements.foldl (runStatement I) w) >>=
      fun r => climb I body above r >>= settleEffects I b.pending := by
  rw [outcome, hstack, climb_append, bind_assoc]

/-- An instruction that changes the top of the stack and the pending side effects only. -/
theorem advance_of_top (above above' : List Slot) (effects : List Tree) {below : List Slot}
    (hstack : b.stack = above ++ below)
    (h : ∀ stack w, Reaches (Config.next I types body)
      (locate (⟨op, position⟩ :: rest) (climb I body above (stack, w) >>=
        settleEffects I b.pending))
          (locate rest (climb I body above' (stack, w) >>= settleEffects I effects)))
    (w : World V S) :
    Reaches (Config.next I types body) (locate (⟨op, position⟩ :: rest) (b.outcome I body w))
      (locate rest ({ b with stack := above' ++ below, pending := effects }.outcome I
        body w)) := by
  rw [outcome_eq hstack, outcome_eq rfl]
  exact reaches_locate_bind fun r => h r.1 r.2

/-- An instruction that turns the whole stack into statements. -/
theorem advance_of_statements (new : List Statement)
    (h : ∀ w, Reaches (Config.next I types body)
      (locate (⟨op, position⟩ :: rest) (climb I body b.stack ([], w) >>=
        settleEffects I b.pending)) (locate rest (.ok ([], new.foldl (runStatement I) w))))
    (w : World V S) :
    Reaches (Config.next I types body) (locate (⟨op, position⟩ :: rest) (b.outcome I body w))
      (locate rest
        ({ b with stack := [], pending := [], statements := b.statements ++ new }.outcome I
          body w)) := by
  have hrun :
      { b with stack := [], pending := [], statements := b.statements ++ new }.outcome I body w =
      .ok ([], new.foldl (runStatement I) (b.statements.foldl (runStatement I) w)) := by
    rw [← List.foldl_append]
    rfl
  rw [hrun]
  exact h _

/-- An operation takes the values of its operands, and pushes the value of its tree. -/
theorem advance_operate {operation : Operation} {shape : Shape} {type : Option TypeId}
    {operands : List Tree} {effects : List Tree}
    (hop : operation? types position op = some (operation, operands.length))
    (hpending : operands = [] ∨ effects = [])
    (hshape : Computes shape type position operation operands) (stack : List (Entry V))
    (w : World V S) :
    Reaches (Config.next I types body)
      (locate (⟨op, position⟩ :: rest)
        (climb I body (operands.reverse.map .value) (stack, w) >>= settleEffects I effects))
      (locate rest
        (climb I body [.value ((Tree.mk shape type position []).before effects)] (stack, w) >>=
          settleEffects I [])) := by
  rw [climb_operands]
  refine reaches_locate_of_execute (settle_cons (not_label_of_operation hop)) ?_
  rw [execute_of_operation hop, executeOperation, ← length_evalTrees I operands w,
    takeValues_append, List.append_nil, evalTree_before hshape hpending]
  rfl

/-- A call takes its operands and their mark, and its result goes into the place below. -/
theorem advance_call {call : Operation} {shape : Shape} {type : TypeId} {operands : List Tree}
    {effects : List Tree} (hop : call? types position op = some (call, operands.length))
    (htype : call.type = some type) (hpending : operands = [] ∨ effects = [])
    (hshape : Computes shape (some type) position call operands) (stack : List (Entry V))
    (w : World V S) :
    Reaches (Config.next I types body)
      (locate (⟨op, position⟩ :: rest)
        (climb I body (operands.reverse.map .value ++ [.marker, .result type]) (stack, w) >>=
          settleEffects I effects))
      (locate rest
        (climb I body [.value ((Tree.mk shape (some type) position []).before effects)]
          (stack, w) >>= settleEffects I [])) := by
  have hclimb :
      climb I body (operands.reverse.map .value ++ [.marker, .result type]) (stack, w) = _ :=
    (climb_append I body _ _ _).trans
      (climb_operands I body operands (.marker :: .result type :: stack) w)
  rw [hclimb]
  refine reaches_locate_of_execute (settle_cons (not_label_of_call hop)) ?_
  rw [execute_of_call hop, ← length_evalTrees I operands w, executeCall_append, htype,
    evalTree_before hshape hpending]
  rfl

/-- A call without a result in the midst of an expression becomes pending. -/
theorem advance_callEffect {call : Operation} {shape : Shape} {operands : List Tree}
    {effects : List Tree} (hop : call? types position op = some (call, operands.length))
    (htype : call.type = none) (hpending : operands = [] ∨ effects = [])
    (hshape : Computes shape none position call operands) (stack : List (Entry V))
    (w : World V S) :
    Reaches (Config.next I types body)
      (locate (⟨op, position⟩ :: rest)
        (climb I body (operands.reverse.map .value ++ [.marker]) (stack, w) >>=
          settleEffects I effects))
      (locate rest
        (.ok (stack, (evalTrees I (effects ++ [.mk shape none position []]) w).2))) := by
  have hclimb : climb I body (operands.reverse.map .value ++ [.marker]) (stack, w) = _ :=
    (climb_append I body _ _ _).trans (climb_operands I body operands (.marker :: stack) w)
  rw [hclimb]
  refine reaches_locate_of_execute (settle_cons (not_label_of_call hop)) ?_
  have heval : (evalTrees I (effects ++ [.mk shape none position []]) w).2 =
      (evalTree I ((Tree.mk shape none position []).before effects) w).2 := by
    rw [evalTrees_append]
    show _ = (evalShape I shape none position (evalTrees I (effects ++ []) w).2).2
    rw [List.append_nil]
    rfl
  rw [execute_of_call hop, ← length_evalTrees I operands w, executeCall_append, htype, heval,
    evalTree_before hshape hpending]
  rfl

/-- A guard jumps ahead, or leaves the condition behind. -/
theorem advance_guard {cond : Tree} {label : Label} {onZero : Bool} (stack : List (Entry V))
    (w : World V S) :
    Reaches (Config.next I types body)
      (locate (⟨conditionalJump onZero label true, position⟩ :: rest)
        (climb I body [.value cond] (stack, w) >>= settleEffects I []))
      (locate rest (climb I body [.guard cond label onZero] (stack, w) >>=
        settleEffects I [])) := by
  have hexecute : ∀ v w', execute I types body position rest (.value v :: stack) w'
      (conditionalJump onZero label true) =
        some (if I.isZero v == onZero then shortCircuit I body label v stack w'
        else ⟨.running rest, stack, w'⟩) := fun v w' => execute_conditionalJump
  have hclimb : climb I body [.guard cond label onZero] (stack, w) =
      if I.isZero (evalTree I cond w).1 == onZero then
        .error (shortCircuit I body label (evalTree I cond w).1 stack (evalTree I cond w).2)
      else .ok (stack, (evalTree I cond w).2) := rfl
  rw [hclimb]
  cases htaken : I.isZero (evalTree I cond w).1 == onZero with
  | true =>
    refine reaches_of_execute settle_conditionalJump ((hexecute _ _).trans ?_)
    rw [htaken]
    rfl
  | false =>
    refine reaches_locate_of_execute settle_conditionalJump ((hexecute _ _).trans ?_)
    rw [htaken]
    rfl

/-- At the end of a first arm the machine is behind the join, or its guard has sent it behind the
label that comes next. -/
theorem advance_endArm {cond arm : Tree} {onZero : Bool} {elseLabel label : Label}
    {position' : Position} (hlanding : landing body elseLabel = some (.otherwise, rest))
    (stack : List (Entry V)) (w : World V S) :
    Reaches (Config.next I types body)
      (locate (⟨.jump label true, position⟩ :: ⟨.label elseLabel .otherwise, position'⟩ :: rest)
        (climb I body [.value arm, .guard cond elseLabel onZero] (stack, w) >>=
          settleEffects I []))
      (locate (⟨.label elseLabel .otherwise, position'⟩ :: rest)
        (climb I body [.firstArm cond arm onZero elseLabel label] (stack, w) >>=
          settleEffects I [])) := by
  have hclimb : climb I body [.value arm, .guard cond elseLabel onZero] (stack, w) =
      (if I.isZero (evalTree I cond w).1 == onZero then
        .error (shortCircuit I body elseLabel (evalTree I cond w).1 stack (evalTree I cond w).2)
      else .ok (stack, (evalTree I cond w).2)) >>= extend I body (.value arm) := rfl
  have hclimb' : climb I body [.firstArm cond arm onZero elseLabel label] (stack, w) =
      if I.isZero (evalTree I cond w).1 == onZero then .ok (stack, (evalTree I cond w).2)
      else .error ⟨enter body label .join,
        .value (evalTree I arm (evalTree I cond w).2).1 :: stack,
        (evalTree I arm (evalTree I cond w).2).2⟩ := rfl
  rw [hclimb, hclimb']
  cases htaken : I.isZero (evalTree I cond w).1 == onZero with
  | true =>
    show Reaches _ (shortCircuit I body elseLabel _ stack _) ⟨.running (settle rest), stack, _⟩
    rw [shortCircuit, hlanding]
    exact reaches_settle I types body rest stack _
  | false => exact reaches_of_execute rfl rfl

/-- At the end of `&&` or `||` the machine has the truth value of the right side, or it comes from
the guard with that of the left side. -/
theorem advance_logical {lhs rhs : Tree} {label : Label} {isAnd : Bool}
    (hlanding : landing body label = some (logicalRole isAnd, rest)) (stack : List (Entry V))
    (w : World V S) :
    Reaches (Config.next I types body)
      (locate (⟨.label label (logicalRole isAnd), position⟩ :: rest)
        (climb I body [.value rhs, .guard lhs label isAnd] (stack, w) >>= settleEffects I []))
      (locate rest
        (climb I body [.value (.mk (.logical isAnd lhs rhs) (some TypeTable.int32) position [])]
          (stack, w) >>= settleEffects I [])) := by
  have hclimb : climb I body [.value rhs, .guard lhs label isAnd] (stack, w) =
      (if I.isZero (evalTree I lhs w).1 == isAnd then
        .error (shortCircuit I body label (evalTree I lhs w).1 stack (evalTree I lhs w).2)
      else .ok (stack, (evalTree I lhs w).2)) >>= extend I body (.value rhs) := rfl
  have heval : evalTree I (.mk (.logical isAnd lhs rhs) (some TypeTable.int32) position []) w =
      if I.isZero (evalTree I lhs w).1 == isAnd then
        (I.truth (evalTree I lhs w).1, (evalTree I lhs w).2)
      else (I.truth (evalTree I rhs (evalTree I lhs w).2).1,
        (evalTree I rhs (evalTree I lhs w).2).2) := rfl
  have hclimb' :
      climb I body [.value (.mk (.logical isAnd lhs rhs) (some TypeTable.int32) position [])]
        (stack, w) =
      .ok (.value (evalTree I (.mk (.logical isAnd lhs rhs) (some TypeTable.int32) position [])
        w).1 :: stack,
          (evalTree I (.mk (.logical isAnd lhs rhs) (some TypeTable.int32) position []) w).2) :=
            rfl
  rw [hclimb, hclimb', heval]
  cases htaken : I.isZero (evalTree I lhs w).1 == isAnd with
  | true =>
    show Reaches _ (shortCircuit I body label _ stack _) _
    rw [shortCircuit, hlanding]
    cases isAnd with
    | true => exact reaches_settle I types body rest _ _
    | false => exact reaches_settle I types body rest _ _
  | false =>
    cases isAnd with
    | true => exact reaches_locate_of_execute rfl rfl
    | false => exact reaches_locate_of_execute rfl rfl

/-- At the end of `?:` the machine comes from the second arm, or it has jumped here from the end of
the first one. -/
theorem advance_join {cond first second : Tree} {onZero : Bool} {elseLabel label : Label}
    {type : Option TypeId} (hjoin : enter body label .join = .running rest)
    (stack : List (Entry V)) (w : World V S) :
    Reaches (Config.next I types body)
      (locate (⟨.label label .join, position⟩ :: rest)
        (climb I body [.value second, .firstArm cond first onZero elseLabel label] (stack, w) >>=
          settleEffects I []))
      (locate rest
        (climb I body [.value (.mk (.conditional cond (if onZero then first else second)
          (if onZero then second else first)) type position [])] (stack, w) >>=
            settleEffects I [])) := by
  have hclimb :
      climb I body [.value second, .firstArm cond first onZero elseLabel label] (stack, w) =
      (if I.isZero (evalTree I cond w).1 == onZero then .ok (stack, (evalTree I cond w).2)
      else .error ⟨enter body label .join,
        .value (evalTree I first (evalTree I cond w).2).1 :: stack,
        (evalTree I first (evalTree I cond w).2).2⟩) >>= extend I body (.value second) := rfl
  have heval : evalTree I (.mk (.conditional cond (if onZero then first else second)
      (if onZero then second else first)) type position []) w =
      if I.isZero (evalTree I cond w).1 == onZero then evalTree I second (evalTree I cond w).2
      else evalTree I first (evalTree I cond w).2 := by
    show (if I.isZero (evalTree I cond w).1 then evalTree I (if onZero then second else first)
        (evalTree I cond w).2
      else evalTree I (if onZero then first else second) (evalTree I cond w).2) = _
    cases onZero <;> cases I.isZero (evalTree I cond w).1 <;> rfl
  have hclimb' : climb I body [.value (.mk (.conditional cond (if onZero then first else second)
      (if onZero then second else first)) type position [])] (stack, w) =
      .ok (.value (evalTree I (.mk (.conditional cond (if onZero then first else second)
        (if onZero then second else first)) type position []) w).1 :: stack,
          (evalTree I (.mk (.conditional cond (if onZero then first else second)
            (if onZero then second else first)) type position []) w).2) := rfl
  rw [hclimb, hclimb', heval]
  cases htaken : I.isZero (evalTree I cond w).1 == onZero with
  | true => exact reaches_locate_of_execute rfl rfl
  | false =>
    show Reaches _ (⟨enter body label .join, _, _⟩ : Config V S) _
    rw [hjoin]
    exact reaches_settle I types body rest _ _

/-- One instruction inside a node keeps the builder and the machine together. The end of a first
arm has the label of the second arm behind it, and a call without operands finds no side effect
that the mark below them has hidden. -/
theorem Inner.advance {front : List Instruction} (h : Inner types b position op b')
    (hlabels : (definedLabels body).Nodup) (hbody : body = front ++ ⟨op, position⟩ :: rest)
    (harm : ∀ label, op = .jump label true →
      ∀ cond arm onZero elseLabel below,
      b'.stack = .firstArm cond arm onZero elseLabel label :: below → ∃ position' later,
      rest = ⟨.label elseLabel .otherwise, position'⟩ :: later)
    (hcall : ∀ index type, op = .call index 0 type → b.pending ≠ [] → b.stack.tail ≠ [])
    (w : World V S) :
    Reaches (Config.next I types body) (locate (⟨op, position⟩ :: rest) (b.outcome I body w))
      (locate rest (b'.outcome I body w)) := by
  obtain ⟨bstack, pending, nodes, current, statements⟩ := b
  cases h with
  | idle h =>
    refine advance_of_top [] [] pending rfl (fun stack w => ?_) w
    exact reaches_locate_of_execute (settle_cons (not_label_of_isIdle h)) (execute_of_isIdle h)
  | @declare declaration h hstack hpending =>
    obtain rfl : bstack = [] := hstack
    obtain rfl : pending = [] := hpending
    refine advance_of_statements [.init declaration.index position] (fun w => ?_) w
    refine reaches_locate_of_execute rfl ?_
    rw [execute, h]
    rfl
  | allocResult =>
    exact advance_of_top [] [.result _] pending
      rfl (fun stack w => reaches_locate_of_execute rfl rfl) w
  | arguments =>
    exact advance_of_top [] [.marker] pending
      rfl (fun stack w => reaches_locate_of_execute rfl rfl) w
  | operate operands hop hstack hpending hshape =>
    exact advance_of_top _ [_] [] hstack (advance_operate hop hpending hshape) w
  | call hop htype hstack hpending hshape =>
    refine advance_of_top (_ ++ [.marker, .result _]) [_] [] ?_
      (advance_call hop htype hpending hshape) w
    rw [hstack, List.append_assoc]
    rfl
  | @callStatement _ call shape operands hop htype hstack hpending hshape =>
    obtain rfl : bstack = _ := hstack
    obtain rfl : pending = [] := by
      rcases hpending with rfl | hnil
      · obtain ⟨index, type, rfl⟩ := eq_call_of_no_operands hop
        exact Classical.not_not.1 fun hne => hcall index type rfl hne rfl
      · exact hnil
    exact advance_of_statements [.eval (.mk shape none position [])]
      (advance_callEffect hop htype (.inr rfl) hshape []) w
  | callEffect hop htype hstack hbelow hpending hshape =>
    refine advance_of_top (_ ++ [.marker]) [] _ ?_ (advance_callEffect hop htype hpending hshape) w
    rw [hstack, List.append_assoc]
    rfl
  | @dropStatement type tree hstack =>
    obtain rfl : bstack = [.value tree] := hstack
    refine advance_of_statements ((tree :: pending).map .eval) (fun w => ?_) w
    refine reaches_locate_of_execute rfl ?_
    rw [foldl_runStatement_eval]
    rfl
  | dropEffect hstack hbelow =>
    exact advance_of_top [.value _] [] (_ :: pending) hstack
      (fun stack w => reaches_locate_of_execute rfl rfl) w
  | guard hstack hpending =>
    obtain rfl : pending = [] := hpending
    exact advance_of_top [.value _] [.guard _ _ _] [] hstack advance_guard w
  | @endArm cond arm onZero elseLabel label below hstack hpending =>
    obtain rfl : pending = [] := hpending
    obtain ⟨position', later, rfl⟩ := harm label rfl cond arm onZero elseLabel below rfl
    have hlanding : landing body elseLabel = some (.otherwise, later) :=
      landing_label hlabels (hbody.trans (List.append_cons _ _ _))
    exact advance_of_top [.value arm, .guard cond elseLabel onZero] [.firstArm _ _ _ _ _] [] hstack
      (advance_endArm hlanding) w
  | logical hstack hpending =>
    obtain rfl : pending = [] := hpending
    exact advance_of_top [.value _, .guard _ _ _] [.value _] [] hstack
      (advance_logical (landing_label hlabels hbody)) w
  | otherwise hstack => exact .refl
  | join hstack hpending =>
    obtain rfl : pending = [] := hpending
    exact advance_of_top [.value _, .firstArm _ _ _ _ _] [.value _] [] hstack
      (advance_join (enter_label hlabels hbody)) w

end Builder

end

end StackToGo.Flow
