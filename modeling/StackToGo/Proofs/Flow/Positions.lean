import StackToGo.Proofs.Flow.Reconstruction

/-!
# Nothing is lost, repeated or moved

Every tree and every initialized local of the nodes has the position of the instruction that it was
made of. `build_positions`: read in the order in which they stand in the nodes, these positions are
those of the instructions, in the order of the body.

Between two instructions what has been read is in four places: the nodes that are complete, the
statements of the node being filled, the stack from its bottom up, and the pending side effects.
`Builder.positions` lists them in this order, and each instruction adds its own position at the end
(`step_positions`). A side effect that is pending has been read after all the trees on the stack,
because no tree is pushed without taking the pending side effects with it.
-/

namespace StackToGo.Flow

/-! ## Positions of nodes -/

mutual
/-- The positions of a tree: those of its side effects, those of its operands, and its own. -/
def treePositions (swapped : List Position) : Tree → List Position
  | .mk shape _ position comma =>
    treesPositions swapped comma ++ shapePositions swapped position shape ++ [position]

/-- The positions of the operands of a tree at `position`, in order. The arms of a `?:` change
places if its position is among those that are `swapped`. -/
def shapePositions (swapped : List Position) (position : Position) : Shape → List Position
  | .argument .. => []
  | .localVar .. => []
  | .result .. => []
  | .global .. => []
  | .const32 _ => []
  | .const64 _ => []
  | .stringConst _ => []
  | .null => []
  | .binary _ lhs rhs => treePositions swapped lhs ++ treePositions swapped rhs
  | .compare _ _ lhs rhs => treePositions swapped lhs ++ treePositions swapped rhs
  | .unary _ _ operand => treePositions swapped operand
  | .convert _ operand => treePositions swapped operand
  | .load _ pointer => treePositions swapped pointer
  | .store _ _ address value => treePositions swapped address ++ treePositions swapped value
  | .copy _ dst src => treePositions swapped dst ++ treePositions swapped src
  | .element _ _ base index => treePositions swapped base ++ treePositions swapped index
  | .field _ _ base => treePositions swapped base
  | .increment _ _ _ operand => treePositions swapped operand
  | .ptrDiff _ lhs rhs => treePositions swapped lhs ++ treePositions swapped rhs
  | .call _ _ arguments => treesPositions swapped arguments
  | .callPointer _ callee arguments =>
    treePositions swapped callee ++ treesPositions swapped arguments
  | .logical _ lhs rhs => treePositions swapped lhs ++ treePositions swapped rhs
  | .conditional cond whenTrue whenFalse =>
    treePositions swapped cond ++
      if position ∈ swapped then treePositions swapped whenFalse ++ treePositions swapped whenTrue
      else treePositions swapped whenTrue ++ treePositions swapped whenFalse
  | .dup address => treePositions swapped address
  | .dupRef => []

/-- The positions of trees that are computed one after the other. -/
def treesPositions (swapped : List Position) : List Tree → List Position
  | [] => []
  | t :: later => treePositions swapped t ++ treesPositions swapped later
end

def statementPositions (swapped : List Position) : Statement → List Position
  | .eval tree => treePositions swapped tree
  | .init _ position => [position]

/-- The positions of the tree that an exit depends on. -/
def exitPositions (swapped : List Position) : Exit → List Position
  | .branch cond _ _ => treePositions swapped cond
  | .switch value _ _ _ => treePositions swapped value
  | _ => []

def nodePositions (swapped : List Position) (n : Node) : List Position :=
  n.statements.flatMap (statementPositions swapped) ++ exitPositions swapped n.exit

/-! ## Positions of instructions -/

/-- How many trees and initialized locals are made of an instruction: one of each that produces a
value, of each call and of each label that ends an expression, and two of a duplication. -/
def yield : Op → Nat
  | .beginScope => 0
  | .endScope => 0
  | .declare declaration => if declaration.value.isNone then 0 else 1
  | .allocResult _ => 0
  | .arguments => 0
  | .dup _ => 2
  | .drop _ => 0
  | .jump .. => 0
  | .jumpZero .. => 0
  | .jumpNonzero .. => 0
  | .label _ .plain => 0
  | .label _ .otherwise => 0
  | .switch .. => 0
  | .ret => 0
  | .abort => 0
  | _ => 1

def instructionPositions (instruction : Instruction) : List Position :=
  List.replicate (yield instruction.op) instruction.position

/-- The guards that are open after an instruction, the innermost first: for each, whether it jumps
when its condition is zero. A guard is open up to the label that ends its `&&`, `||` or `?:`. -/
def guardsAfter (guards : List Bool) : Op → List Bool
  | .jumpZero _ true => true :: guards
  | .jumpNonzero _ true => false :: guards
  | .label _ .logicalAnd => guards.tail
  | .label _ .logicalOr => guards.tail
  | .label _ .join => guards.tail
  | _ => guards

/-- Does an instruction end a `?:` whose guard jumps when its condition is not zero? -/
def endsSwapped (guards : List Bool) : Op → Bool
  | .label _ .join => guards.head? == some false
  | _ => false

/-- The positions at which a `?:` ends whose guard jumps when its condition is not zero. The first
arm in the body is the one that is computed when the condition is zero. -/
def swappedJoins : List Bool → List Instruction → List Position
  | _, [] => []
  | guards, instruction :: rest =>
    let later := swappedJoins (guardsAfter guards instruction.op) rest
    if endsSwapped guards instruction.op then instruction.position :: later else later

/-- Does every call without operands directly follow the start of its operands? The instruction
before the first one is given. -/
def callsMarked : Option Op → List Instruction → Bool
  | _, [] => true
  | previous, instruction :: rest =>
    (!isBareCall instruction.op || previous.any isArguments) &&
      callsMarked (some instruction.op) rest

/-! ## Lists of trees and slots -/

section

variable {swapped : List Position}

@[simp] theorem treesPositions_nil : treesPositions swapped [] = [] := by rw [treesPositions]

/-- The positions of the first tree come first. -/
@[simp] theorem treesPositions_cons (t : Tree) (later : List Tree) :
    treesPositions swapped (t :: later) =
      treePositions swapped t ++ treesPositions swapped later := by
  rw [treesPositions]

/-- The positions of two lists of trees follow one another. -/
@[simp] theorem treesPositions_append (front back : List Tree) :
    treesPositions swapped (front ++ back) =
      treesPositions swapped front ++ treesPositions swapped back := by
  induction front with
  | nil => simp
  | cons t front ih => simp [ih]

/-- Statements of trees have the positions of the trees. -/
theorem flatMap_statementPositions_eval (trees : List Tree) :
    (trees.map Statement.eval).flatMap (statementPositions swapped) =
      treesPositions swapped trees := by
  induction trees with
  | nil => simp
  | cons t trees ih =>
    simp only [List.map_cons, List.flatMap_cons, statementPositions, ih, treesPositions_cons]

/-- The operands of a shape that computes them all are read from left to right. -/
theorem shapePositions_of_strict {shape : Shape} {operands : List Tree} (position : Position)
    (h : strictOperands? shape = some operands) :
    shapePositions swapped position shape = treesPositions swapped operands := by
  cases shape <;> cases h <;> simp [shapePositions]

variable (swapped) in
/-- The positions of the trees in an entry of the stack. -/
def slotPositions : Slot → List Position
  | .value tree => treePositions swapped tree
  | .result _ => []
  | .marker => []
  | .guard cond _ _ => treePositions swapped cond
  | .firstArm cond arm _ _ _ => treePositions swapped cond ++ treePositions swapped arm

variable (swapped) in
/-- The positions of a stack, from its bottom up. -/
def stackPositions : List Slot → List Position
  | [] => []
  | slot :: below => stackPositions below ++ slotPositions swapped slot

/-- The positions of operands come after those of the slots below them. -/
theorem stackPositions_operands (operands : List Tree) (below : List Slot) :
    stackPositions swapped (operands.reverse.map .value ++ below) =
      stackPositions swapped below ++ treesPositions swapped operands := by
  induction operands generalizing below with
  | nil => simp
  | cons t operands ih =>
    rw [List.reverse_cons, List.map_append, List.append_assoc, ih, treesPositions_cons,
      ← List.append_assoc]
    rfl

end

/-! ## Guards on the stack -/

/-- The guard that a slot stands for, if it is still open. -/
def slotGuard? : Slot → Option Bool
  | .guard _ _ onZero => some onZero
  | .firstArm _ _ onZero _ _ => some onZero
  | _ => none

/-- Operands are no guards. -/
theorem filterMap_slotGuard?_operands (operands : List Tree) :
    (operands.map Slot.value).filterMap slotGuard? = [] := by
  rw [List.filterMap_map, List.filterMap_eq_nil_iff]
  intro t _
  rfl

namespace Builder

/-- The guards on the stack, the innermost first. -/
def guards (b : Builder) : List Bool := b.stack.filterMap slotGuard?

/-- The positions of all that has been read so far. -/
def positions (swapped : List Position) (b : Builder) : List Position :=
  b.nodes.flatMap (nodePositions swapped) ++ b.statements.flatMap (statementPositions swapped) ++
    stackPositions swapped b.stack ++ treesPositions swapped b.pending

variable {types : TypeTable} {b b' : Builder} {position : Position} {op : Op}
  {previous : Option Op} {swapped : List Position}

/-- The guards are below the operands. -/
theorem guards_of_operands {operands : List Tree} {below : List Slot}
    (hstack : b.stack = operands.reverse.map .value ++ below) :
    b.guards = below.filterMap slotGuard? := by
  rw [guards, hstack, List.filterMap_append, filterMap_slotGuard?_operands, List.nil_append]

/-! ## What the rules ask of an instruction -/

/-- Nothing is made of an idle instruction, and it neither opens nor closes a guard. -/
theorem quiet_of_isIdle (h : isIdle op) :
    yield op = 0 ∧ ∀ guards, guardsAfter guards op = guards := by
  cases op
  case beginScope | endScope => exact ⟨rfl, fun _ => rfl⟩
  case declare declaration =>
    have hnone : declaration.value.isNone = true := h
    exact ⟨by rw [yield, if_pos hnone], fun _ => rfl⟩
  all_goals cases h

/-- One tree is made of an operation, and it neither opens nor closes a guard. -/
theorem single_of_operation {operation : Operation} {count : Nat}
    (h : operation? types position op = some (operation, count)) :
    yield op = 1 ∧ ∀ guards, guardsAfter guards op = guards := by
  cases op
  case beginScope | endScope | declare | allocResult | arguments | dup | drop | jump | jumpZero
      | jumpNonzero | label
    | switch | ret | abort => cases h
  all_goals exact ⟨rfl, fun _ => rfl⟩

/-- A call makes one tree, and leaves the guards. -/
theorem single_of_call {call : Operation} {count : Nat}
    (h : call? types position op = some (call, count)) :
    yield op = 1 ∧ ∀ guards, guardsAfter guards op = guards := by
  cases op
  case call | callPointer => exact ⟨rfl, fun _ => rfl⟩
  all_goals cases h

/-- An instruction that ends a node makes no tree, and leaves the guards. -/
theorem Exits.quiet {operands : List Tree} {exit : Exit} (h : Exits op operands exit) :
    yield op = 0 ∧ ∀ guards, guardsAfter guards op = guards := by
  cases h with
  | branch cond label onZero => cases onZero <;> exact ⟨rfl, fun _ => rfl⟩
  | jump | switch | ret | abort => exact ⟨rfl, fun _ => rfl⟩

/-- The stack has on it what the exit depends on. -/
theorem Exits.positions_eq {operands : List Tree} {exit : Exit} (h : Exits op operands exit) :
    stackPositions swapped (operands.map .value) = exitPositions swapped exit := by
  cases h with
  | branch | switch => simp [stackPositions, slotPositions, exitPositions]
  | jump | ret | abort => rfl

/-- The builder runs an instruction by one of the rules, or it is a duplication. -/
theorem rule_or_dup (h : b.step types ⟨op, position⟩ = .ok b') :
    Rule types b position op b' ∨
      ∃ type address below, op = .dup type ∧ b.stack = .value address :: below ∧ b.pending = [] ∧
        b' = ({ b with stack := below }.pushShape (.dup address) address.type position).pushShape
          .dupRef address.type position := by
  by_cases hdup : ∃ type, op = .dup type
  · obtain ⟨type, rfl⟩ := hdup
    obtain ⟨address, below, hstack, hpending, hb'⟩ := step_dup h
    exact .inr ⟨type, address, below, rfl, hstack, hpending, hb'⟩
  · exact .inl (step_rule (fun type hop => hdup ⟨type, hop⟩) h)

/-! ## One instruction keeps the guards and the anchor -/

/-- Whatever is pending stays above something on the stack. -/
theorem step_anchored (h : b.step types ⟨op, position⟩ = .ok b') (hb : b.Anchored previous)
    (hmarked : isBareCall op → previous.any isArguments) : b'.Anchored (some op) := by
  rcases rule_or_dup h with hrule | ⟨type, address, below, rfl, hstack, hpending, rfl⟩
  · cases hrule with
    | inner h => exact h.anchored hb hmarked
    | exit hexit hstack hpending => exact fun hne => absurd hpending hne
    | label hstack hpending =>
      intro hne
      refine absurd ?_ hne
      by_cases hblank : b.isBlank
      · simp [hblank, hpending]
      · simp [hblank, endNode, hpending]
  · exact fun hne => absurd rfl hne

/-- The guards on the stack are those that the instructions have left open. -/
theorem Inner.guards_eq (h : Inner types b position op b') :
    b'.guards = guardsAfter b.guards op := by
  cases h with
  | idle h => rw [(quiet_of_isIdle h).2]
  | declare | allocResult | arguments | otherwise => rfl
  | operate operands hop hstack hpending hshape =>
    rw [(single_of_operation hop).2, guards_of_operands hstack]; rfl
  | call hop htype hstack hpending hshape =>
    rw [(single_of_call hop).2, guards_of_operands hstack]; rfl
  | callStatement hop htype hstack hpending hshape =>
    rw [(single_of_call hop).2, guards_of_operands hstack]; rfl
  | callEffect hop htype hstack hbelow hpending hshape =>
    rw [(single_of_call hop).2, guards_of_operands hstack]; rfl
  | dropStatement hstack => rw [guards, guards, hstack]; rfl
  | dropEffect hstack hbelow => rw [guards, guards, hstack]; rfl
  | @guard cond label onZero below hstack hpending =>
    rw [guards, guards, hstack]
    cases onZero <;> rfl
  | endArm hstack hpending => rw [guards, guards, hstack]; rfl
  | @logical lhs rhs label isAnd below hstack hpending =>
    rw [guards, guards, hstack]
    cases isAnd <;> rfl
  | join hstack hpending => rw [guards, guards, hstack]; rfl

/-- An instruction opens and closes guards as it says. -/
theorem step_guards (h : b.step types ⟨op, position⟩ = .ok b') :
    b'.guards = guardsAfter b.guards op := by
  rcases rule_or_dup h with hrule | ⟨type, address, below, rfl, hstack, hpending, rfl⟩
  · cases hrule with
    | inner h => exact h.guards_eq
    | exit hexit hstack hpending =>
      rw [hexit.quiet.2, guards, guards, hstack, filterMap_slotGuard?_operands]
      rfl
    | label hstack hpending =>
      by_cases hblank : b.isBlank
      · simp [guards, guardsAfter, hblank]
      · simp [guards, guardsAfter, hblank, endNode]
  · rw [guards, guards, hstack]
    rfl

/-! ## One instruction adds its position -/

/-- What is taken from the stack goes into the tree that is pushed, and the tree adds its own
position. The pending side effects are read before the operands of the tree, so there must not be
both. -/
theorem positions_pushShape {below : List Slot} {shape : Shape} {t : Option TypeId}
    {read : List Position}
    (hstack : stackPositions swapped b.stack = stackPositions swapped below ++ read)
    (hshape : shapePositions swapped position shape = read)
    (hpending : read = [] ∨ b.pending = []) :
    ({ b with stack := below }.pushShape shape t position).positions swapped =
      b.positions swapped ++ [position] := by
  rw [positions, positions, hstack]
  rcases hpending with rfl | hnil
  · simp [pushShape, pushTree, Tree.before, stackPositions, slotPositions, treePositions, hshape]
  · simp [pushShape, pushTree, Tree.before, stackPositions, slotPositions,
      treePositions, hshape, hnil]

/-- An instruction inside a node adds its position to what has been read. A call without operands
must not find side effects that are pending when only its mark is on the stack, and a `?:` is
swapped as its guard says. -/
theorem Inner.positions_eq (h : Inner types b position op b')
    (hcall : ∀ index type, op = .call index 0 type → b.pending ≠ [] → b.stack.tail ≠ [])
    (hswapped : position ∈ swapped ↔ endsSwapped b.guards op) :
    b'.positions swapped = b.positions swapped ++ instructionPositions ⟨op, position⟩ := by
  cases h with
  | idle h => simp [instructionPositions, (quiet_of_isIdle h).1]
  | declare h hstack hpending =>
    simp [positions, addStatement, instructionPositions, yield, h, hstack, hpending,
      stackPositions, statementPositions]
  | allocResult =>
    simp [positions, push, instructionPositions, yield, stackPositions, slotPositions]
  | arguments => simp [positions, push, instructionPositions, yield, stackPositions, slotPositions]
  | @operate _ operation shape type below operands hop hstack hpending hshape =>
    have hread : stackPositions swapped b.stack =
        stackPositions swapped below ++ treesPositions swapped operands := by
      rw [hstack, stackPositions_operands]
    rw [positions_pushShape hread (shapePositions_of_strict position hshape.strict)
      (hpending.imp_left fun hnil => by rw [hnil, treesPositions_nil])]
    simp [instructionPositions, (single_of_operation hop).1]
  | @call _ operation shape type operands below hop htype hstack hpending hshape =>
    have hread : stackPositions swapped b.stack =
        stackPositions swapped below ++ treesPositions swapped operands := by
      rw [hstack, stackPositions_operands]
      simp [stackPositions, slotPositions]
    rw [positions_pushShape hread (shapePositions_of_strict position hshape.strict)
      (hpending.imp_left fun hnil => by rw [hnil, treesPositions_nil])]
    simp [instructionPositions, (single_of_call hop).1]
  | @callStatement _ operation shape operands hop htype hstack hpending hshape =>
    -- The statement would overtake what is pending.
    have hnone : b.pending = [] := by
      rcases hpending with rfl | hnil
      · obtain ⟨index, type, rfl⟩ := eq_call_of_no_operands hop
        by_contra hne
        refine hcall index type rfl hne ?_
        rw [hstack]
        rfl
      · exact hnil
    rw [positions, positions, hstack, stackPositions_operands]
    simp [addStatement, instructionPositions, (single_of_call hop).1, hnone, stackPositions,
      slotPositions, statementPositions, treePositions,
      shapePositions_of_strict position hshape.strict]
  | @callEffect _ operation shape operands below hop htype hstack hbelow hpending hshape =>
    rw [positions, positions, hstack, stackPositions_operands]
    rcases hpending with rfl | hnil
    · simp [instructionPositions, (single_of_call hop).1, stackPositions, slotPositions,
        treePositions, shapePositions_of_strict position hshape.strict]
    · simp [instructionPositions, (single_of_call hop).1, stackPositions, slotPositions,
        treePositions, shapePositions_of_strict position hshape.strict, hnil]
  | dropStatement hstack =>
    rw [positions, positions, hstack, List.flatMap_append, flatMap_statementPositions_eval]
    simp [instructionPositions, yield, stackPositions, slotPositions]
  | dropEffect hstack hbelow =>
    simp [positions, instructionPositions, yield, hstack, stackPositions, slotPositions]
  | @guard cond label onZero below hstack hpending =>
    have hyield : yield (conditionalJump onZero label true) = 0 := by cases onZero <;> rfl
    simp [positions, instructionPositions, hyield, hstack, stackPositions, slotPositions]
  | endArm hstack hpending =>
    simp [positions, instructionPositions, yield, hstack, stackPositions, slotPositions]
  | @logical lhs rhs label isAnd below hstack hpending =>
    have hread : stackPositions swapped b.stack =
        stackPositions swapped below ++
          (treePositions swapped lhs ++ treePositions swapped rhs) := by
      simp [hstack, stackPositions, slotPositions]
    rw [positions_pushShape hread (by rw [shapePositions]) (.inr hpending)]
    cases isAnd <;> rfl
  | otherwise hstack => simp [instructionPositions, yield]
  | @join cond first second onZero elseLabel label below hstack hpending =>
    have hread : stackPositions swapped b.stack = stackPositions swapped below ++
        (treePositions swapped cond ++
          (treePositions swapped first ++ treePositions swapped second)) := by
      simp [hstack, stackPositions, slotPositions]
    have hguard : position ∈ swapped ↔ onZero = false := by
      have hguards : b.guards = onZero :: below.filterMap slotGuard? := by rw [guards, hstack]; rfl
      rw [hswapped, hguards, endsSwapped, List.head?_cons, beq_iff_eq, Option.some.injEq]
    refine (positions_pushShape hread ?_ (.inr hpending)).trans rfl
    cases onZero with
    | true => simp [shapePositions, hguard]
    | false => simp [shapePositions, hguard]

/-- An instruction adds its own position. -/
theorem step_positions (h : b.step types ⟨op, position⟩ = .ok b') (hb : b.Anchored previous)
    (hmarked : isBareCall op → previous.any isArguments)
    (hswapped : position ∈ swapped ↔ endsSwapped b.guards op) :
    b'.positions swapped = b.positions swapped ++ instructionPositions ⟨op, position⟩ := by
  rcases rule_or_dup h with hrule | ⟨type, address, below, rfl, hstack, hpending, rfl⟩
  · cases hrule with
    | inner h =>
      exact h.positions_eq (fun index type hop hne => hb.tail_ne_nil hmarked hop hne) hswapped
    | exit hexit hstack hpending =>
      have hread : stackPositions swapped b.stack = exitPositions swapped _ :=
        hstack ▸ hexit.positions_eq
      simp [positions, endNode, nodePositions, instructionPositions, hexit.quiet.1, hpending,
        hread, stackPositions]
    | label hstack hpending =>
      by_cases hblank : b.isBlank
      · simp [positions, hblank, instructionPositions, yield]
      · simp [positions, hblank, endNode, nodePositions, exitPositions, instructionPositions,
          yield, hstack, hpending, stackPositions]
  · have hread : stackPositions swapped b.stack =
        stackPositions swapped below ++ treePositions swapped address := by
      simp [hstack, stackPositions, slotPositions]
    have haddress : shapePositions swapped position (.dup address) =
        treePositions swapped address := by
      rw [shapePositions]
    have hreference : shapePositions swapped position .dupRef = [] := by rw [shapePositions]
    have hfirst := positions_pushShape (t := address.type) hread haddress (.inr hpending)
    have hsecond := positions_pushShape (t := address.type)
      (b := { b with stack := below }.pushShape (.dup address) address.type position)
      (List.append_nil _).symm hreference (.inl rfl)
    refine hsecond.trans ?_
    rw [hfirst, List.append_assoc]
    rfl

end Builder

/-! ## All instructions -/

/-- The ends of swapped `?:` are instructions of the body. -/
theorem mem_positions_of_mem_swappedJoins {guards : List Bool} {body : List Instruction}
    {position : Position} (h : position ∈ swappedJoins guards body) :
    position ∈ body.map (·.position) := by
  induction body generalizing guards with
  | nil => cases h
  | cons instruction rest ih =>
    rw [swappedJoins] at h
    split at h
    case isTrue =>
      rcases List.mem_cons.1 h with rfl | h
      · exact List.mem_cons_self
      · exact List.mem_cons_of_mem _ (ih h)
    case isFalse => exact List.mem_cons_of_mem _ (ih h)

/-- Where no position occurs twice, that of the first instruction tells whether it ends a swapped
`?:`. -/
theorem mem_swappedJoins_head {guards : List Bool} {op : Op} {position : Position}
    {rest : List Instruction} (h : position ∉ rest.map (·.position)) :
    position ∈ swappedJoins guards (⟨op, position⟩ :: rest) ↔ endsSwapped guards op := by
  have hlater : position ∉ swappedJoins (guardsAfter guards op) rest :=
    fun hmem => h (mem_positions_of_mem_swappedJoins hmem)
  rw [swappedJoins]
  split
  case isTrue hends => exact iff_of_true List.mem_cons_self hends
  case isFalse hends => exact iff_of_false hlater hends

/-- The ends of swapped `?:` after the first instruction. -/
theorem mem_swappedJoins_tail {guards : List Bool} {op : Op} {position other : Position}
    {rest : List Instruction} (h : other ≠ position) :
    other ∈ swappedJoins guards (⟨op, position⟩ :: rest) ↔
    other ∈ swappedJoins (guardsAfter guards op) rest := by
  rw [swappedJoins]
  split
  case isTrue => exact List.mem_cons.trans (or_iff_right h)
  case isFalse => exact Iff.rfl

section

variable {types : TypeTable} {swapped : List Position}

/-- By induction on the instructions that are left, from what one of them adds. -/
theorem run_positions {b b' : Builder} {previous : Option Op} {rest : List Instruction}
    (hmarked : callsMarked previous rest) (hdistinct : (rest.map (·.position)).Nodup)
    (hswapped : ∀ i ∈ rest, i.position ∈ swapped ↔ i.position ∈ swappedJoins b.guards rest)
    (hb : b.Anchored previous) (hrun : b.run types rest = .ok b') :
    b'.positions swapped = b.positions swapped ++ rest.flatMap instructionPositions := by
  induction rest generalizing b previous with
  | nil =>
    cases hrun
    exact (List.append_nil _).symm
  | cons instruction rest ih =>
    obtain ⟨op, position⟩ := instruction
    obtain ⟨b₁, hstep, hrun⟩ := bind_eq_ok hrun
    obtain ⟨hcall, hmarked⟩ := Bool.and_eq_true_iff.1 hmarked
    obtain ⟨hnew, hdistinct⟩ := List.nodup_cons.1 hdistinct
    have hfollow : isBareCall op → previous.any isArguments := by
      intro hop
      simpa [hop] using hcall
    have hhead : position ∈ swapped ↔ endsSwapped b.guards op :=
      (hswapped _ List.mem_cons_self).trans (mem_swappedJoins_head hnew)
    have htail : ∀ i ∈ rest, i.position ∈ swapped ↔ i.position ∈ swappedJoins b₁.guards rest := by
      intro i hi
      have hne : i.position ≠ position := by
        intro heq
        exact hnew (List.mem_map.2 ⟨i, hi, heq⟩)
      rw [Builder.step_guards hstep, ← mem_swappedJoins_tail hne]
      exact hswapped i (List.mem_cons_of_mem _ hi)
    rw [ih hmarked hdistinct htail (Builder.step_anchored hstep hb hfollow) hrun,
      Builder.step_positions hstep hb hfollow hhead, List.append_assoc, List.flatMap_cons]

/-- The last node takes the statements that are left. -/
theorem finish_positions {b : Builder} {nodes : List Node} (h : b.finish = .ok nodes) :
    nodes.flatMap (nodePositions swapped) = b.positions swapped := by
  obtain ⟨hstack, hpending, ⟨rfl, hblank, -⟩ | rfl⟩ := Builder.finish_eq_ok h
  · simp [Builder.positions, hstack, hpending, (Builder.isBlank_iff.1 hblank).2, stackPositions]
  · simp [Builder.positions, nodePositions, exitPositions, hstack, hpending, stackPositions]

end

/-- The trees and initialized locals of the nodes, read in order, are those that the instructions
make, in the order of the body: none is lost, none is repeated and none is moved. -/
theorem build_positions {types : TypeTable} {body : List Instruction} {nodes : List Node}
    (hmarked : callsMarked none body) (hdistinct : (body.map (·.position)).Nodup)
    (h : build types body = .ok nodes) :
    nodes.flatMap (nodePositions (swappedJoins [] body)) = body.flatMap instructionPositions := by
  obtain ⟨b, hrun, hfinish⟩ := bind_eq_ok h
  have hstart : Builder.start.Anchored none := fun hne => absurd rfl hne
  have hrest := run_positions hmarked hdistinct (fun _ _ => Iff.rfl) hstart hrun
  exact (finish_positions hfinish).trans hrest

def updateTypes : TypeTable :=
  TypeTable.empty.internEach [.function [] [] false, .pointer TypeTable.int32]

/-- The statements `int z = 0; *x += (f(), y) ? 2 : 1`, where `f` has no result and a condition
that is not zero jumps to the second arm. The instructions are in columns 0, 1, 2 and so on. -/
def updateBody : List Instruction :=
  [.declare ⟨2, ⟨0⟩, TypeTable.int32, some (.int32 0)⟩,
    .localVar 0 ⟨15⟩ true, .dup ⟨15⟩, .load ⟨15⟩, .arguments, .call 0 0 ⟨14⟩,
    .localVar 1 TypeTable.int32 false, .jumpNonzero (.number 3) true, .const32 TypeTable.int32 1,
    .jump (.number 4) true, .label (.number 3) .otherwise, .const32 TypeTable.int32 2,
    .label (.number 4) .join, .binary .add TypeTable.int32, .store TypeTable.int32 0 0,
      .drop TypeTable.int32, .ret].mapIdx
      fun column op => ⟨op, ⟨"update.c", 1, column⟩⟩

/-- The positions of the update come in their order, where the arms of the `?:` have changed
places. -/
theorem updateBody_positions :
    callsMarked none updateBody ∧ (updateBody.map (·.position)).Nodup ∧
      ∃ nodes, build updateTypes updateBody = .ok nodes ∧
        (nodes.flatMap (nodePositions (swappedJoins [] updateBody))).map (·.column) =
          [0, 1, 2, 2, 3, 5, 6, 8, 11, 12, 13, 14] := by
  have hmarked : callsMarked none updateBody := rfl
  have hdistinct : (updateBody.map (·.position)).Nodup := by decide
  obtain ⟨nodes, hbuild⟩ : ∃ nodes, build updateTypes updateBody = .ok nodes := ⟨_, rfl⟩
  refine ⟨hmarked, hdistinct, nodes, hbuild, ?_⟩
  rw [build_positions hmarked hdistinct hbuild]
  rfl

end StackToGo.Flow
