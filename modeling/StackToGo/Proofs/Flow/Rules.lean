import StackToGo.Proofs.Flow.Machine

/-!
# What the builder does with an instruction

The builder runs an instruction in one of three ways. Most instructions work inside the node being
filled: they change the stack, the pending side effects and the statements (`Inner`). A jump
between statements ends the node (`Exits`), and a plain label begins one. `step_rule` says so with
all that the builder has checked, and what is proved about the builder later rests on these rules
alone.
-/

namespace StackToGo.Flow

/-- A successful sequence of two steps is made of two successful steps. -/
theorem bind_eq_ok {ε α β : Type} {x : Except ε α} {f : α → Except ε β} {r : β}
    (h : (x >>= f) = .ok r) : ∃ a, x = .ok a ∧ f a = .ok r := by
  cases x with
  | error e => cases h
  | ok a => exact ⟨a, rfl, h⟩

/-- The operands of a shape that computes all of them from left to right. None for `&&`, `||` and
`?:`, which leave some out, and for a duplicated address, which performs no operation. -/
def strictOperands? : Shape → Option (List Tree)
  | .argument .. => some []
  | .localVar .. => some []
  | .result .. => some []
  | .global .. => some []
  | .const32 _ => some []
  | .const64 _ => some []
  | .stringConst _ => some []
  | .null => some []
  | .binary _ lhs rhs => some [lhs, rhs]
  | .compare _ _ lhs rhs => some [lhs, rhs]
  | .unary _ _ operand => some [operand]
  | .convert _ operand => some [operand]
  | .load _ pointer => some [pointer]
  | .store _ _ address value => some [address, value]
  | .copy _ dst src => some [dst, src]
  | .element _ _ base index => some [base, index]
  | .field _ _ base => some [base]
  | .increment _ _ _ operand => some [operand]
  | .ptrDiff _ lhs rhs => some [lhs, rhs]
  | .call _ _ arguments => some arguments
  | .callPointer _ callee arguments => some (callee :: arguments)
  | .logical .. => none
  | .conditional .. => none
  | .dup _ => none
  | .dupRef => some []

/-- A tree without side effects computes its operands from left to right, and performs an operation
on them. -/
structure Computes (shape : Shape) (type : Option TypeId) (position : Position)
    (operation : Operation) (operands : List Tree) : Prop where
  strict : strictOperands? shape = some operands
  eval : ∀ {V S : Type} (I : Interpretation V S) (w : World V S),
    evalShape I shape type position w =
      I.operate operation (evalTrees I operands w).1 (evalTrees I operands w).2

/-- Does an instruction leave everything as it is? -/
def isIdle : Op → Bool
  | .beginScope => true
  | .endScope => true
  | .declare declaration => declaration.value.isNone
  | _ => false

/-- The jump that is taken when the condition is zero, or when it is not. -/
def conditionalJump (onZero : Bool) (label : Label) (logical : Bool) : Op :=
  if onZero then .jumpZero label logical else .jumpNonzero label logical

/-- The role of the label that ends `&&` or `||`. -/
def logicalRole (isAnd : Bool) : LabelRole := if isAnd then .logicalAnd else .logicalOr

namespace Builder

/-- The instructions that work inside the node being filled, and what they make of the builder. -/
inductive Inner (types : TypeTable) (b : Builder) (position : Position) : Op → Builder → Prop
  | idle {op : Op} (h : isIdle op) : Inner types b position op b
  | declare {declaration : Declaration} (h : declaration.value.isNone = false)
      (hstack : b.stack = []) (hpending : b.pending = []) :
      Inner types b position (.declare declaration)
        (b.addStatement (.init declaration.index position))
  | allocResult {type : TypeId} :
      Inner types b position (.allocResult type) (b.push (.result type))
  | arguments : Inner types b position .arguments (b.push .marker)
  | operate {op : Op} {operation : Operation} {shape : Shape} {type : Option TypeId}
      {below : List Slot} (operands : List Tree)
      (hop : operation? types position op = some (operation, operands.length))
      (hstack : b.stack = operands.reverse.map .value ++ below)
      (hpending : operands = [] ∨ b.pending = [])
      (hshape : Computes shape type position operation operands) :
      Inner types b position op ({ b with stack := below }.pushShape shape type position)
  | call {op : Op} {operation : Operation} {shape : Shape} {type : TypeId} {operands : List Tree}
      {below : List Slot} (hop : call? types position op = some (operation, operands.length))
      (htype : operation.type = some type)
      (hstack : b.stack = operands.reverse.map .value ++ .marker :: .result type :: below)
      (hpending : operands = [] ∨ b.pending = [])
      (hshape : Computes shape (some type) position operation operands) :
      Inner types b position op ({ b with stack := below }.pushShape shape (some type) position)
  | callStatement {op : Op} {operation : Operation} {shape : Shape} {operands : List Tree}
      (hop : call? types position op = some (operation, operands.length))
      (htype : operation.type = none) (hstack : b.stack = operands.reverse.map .value ++ [.marker])
      (hpending : operands = [] ∨ b.pending = [])
      (hshape : Computes shape none position operation operands) :
      Inner types b position op ({ b with stack := [] }.addStatement
        (.eval (.mk shape none position [])))
  | callEffect {op : Op} {operation : Operation} {shape : Shape} {operands : List Tree}
      {below : List Slot} (hop : call? types position op = some (operation, operands.length))
      (htype : operation.type = none)
      (hstack : b.stack = operands.reverse.map .value ++ .marker :: below) (hbelow : below ≠ [])
      (hpending : operands = [] ∨ b.pending = [])
      (hshape : Computes shape none position operation operands) :
      Inner types b position op
        { b with stack := below, pending := b.pending ++ [.mk shape none position []] }
  | dropStatement {type : TypeId} {tree : Tree} (hstack : b.stack = [.value tree]) :
      Inner types b position (.drop type)
        { b with
          stack := [], pending := [], statements := b.statements ++ (tree :: b.pending).map .eval }
  | dropEffect {type : TypeId} {tree : Tree} {below : List Slot}
      (hstack : b.stack = .value tree :: below) (hbelow : below ≠ []) :
      Inner types b position (.drop type) { b with stack := below, pending := tree :: b.pending }
  | guard {cond : Tree} {label : Label} {onZero : Bool} {below : List Slot}
      (hstack : b.stack = .value cond :: below) (hpending : b.pending = []) :
      Inner types b position (conditionalJump onZero label true)
        { b with stack := .guard cond label onZero :: below }
  | endArm {cond arm : Tree} {onZero : Bool} {elseLabel label : Label} {below : List Slot}
      (hstack : b.stack = .value arm :: .guard cond elseLabel onZero :: below)
      (hpending : b.pending = []) :
      Inner types b position (.jump label true)
        { b with stack := .firstArm cond arm onZero elseLabel label :: below }
  | logical {lhs rhs : Tree} {label : Label} {isAnd : Bool} {below : List Slot}
      (hstack : b.stack = .value rhs :: .guard lhs label isAnd :: below)
      (hpending : b.pending = []) :
      Inner types b position (.label label (logicalRole isAnd))
        ({ b with stack := below }.pushShape (.logical isAnd lhs rhs)
          (some TypeTable.int32) position)
  | otherwise {cond arm : Tree} {onZero : Bool} {label endLabel : Label} {below : List Slot}
      (hstack : b.stack = .firstArm cond arm onZero label endLabel :: below) :
      Inner types b position (.label label .otherwise) b
  | join {cond first second : Tree} {onZero : Bool} {elseLabel label : Label} {below : List Slot}
      (hstack : b.stack = .value second :: .firstArm cond first onZero elseLabel label :: below)
      (hpending : b.pending = []) :
      Inner types b position (.label label .join)
        ({ b with stack := below }.pushShape
          (.conditional cond (if onZero then first else second) (if onZero then second else first))
          (if onZero then first else second).type position)

/-- The instructions that end a node, with the operands that they take from the stack and the exit
of the node. -/
inductive Exits : Op → List Tree → Exit → Prop
  | jump (label : Label) : Exits (.jump label false) [] (.jump label)
  | branch (cond : Tree) (label : Label) (onZero : Bool) :
      Exits (conditionalJump onZero label false) [cond] (.branch cond label onZero)
  | switch (value : Tree) (type : TypeId) (cases : List (Value × Label)) (default : Label) :
      Exits (.switch type cases default) [value] (.switch value type cases default)
  | ret : Exits .ret [] .ret
  | abort : Exits .abort [] .abort

/-- The three ways in which the builder runs an instruction. -/
inductive Rule (types : TypeTable) (b : Builder) (position : Position) : Op → Builder → Prop
  | inner {op : Op} {b' : Builder} (h : Inner types b position op b') : Rule types b position op b'
  | exit {op : Op} {operands : List Tree} {exit : Exit} (hexit : Exits op operands exit)
      (hstack : b.stack = operands.map .value) (hpending : b.pending = []) :
      Rule types b position op ({ b with stack := [] }.endNode exit)
  | label {label : Label} (hstack : b.stack = []) (hpending : b.pending = []) :
      Rule types b position (.label label .plain)
        { (if b.isBlank then b else b.endNode (.jump label)) with label := some label }

variable {types : TypeTable} {b b' : Builder} {position : Position}

/-! ## Operands -/

/-- A value is popped from the top of the stack, with nothing pending. -/
theorem popValue_eq_ok {t : Tree} (h : b.popValue position = .ok (t, b')) :
    b.pending = [] ∧ ∃ below, b.stack = .value t :: below ∧ b' = { b with stack := below } := by
  unfold popValue at h
  split at h
  case isTrue => cases h
  case isFalse hpending =>
    have hnil : b.pending = [] := by simpa using hpending
    split at h
    case h_1 t' rest hstack =>
      cases h
      exact ⟨hnil, rest, hstack, rfl⟩
    case h_2 => cases h
    case h_3 => cases h

/-- Operands are taken from the top, and the last one of them lies there. -/
theorem popValues_eq_ok {count : Nat} {later trees : List Tree}
    (h : popValues position count later b = .ok (trees, b')) :
    ∃ operands below, trees = operands ++ later ∧ operands.length = count ∧
      b.stack = operands.reverse.map .value ++ below ∧ (operands = [] ∨ b.pending = []) ∧
      b' = { b with stack := below } := by
  induction count generalizing later b with
  | zero =>
    cases h
    exact ⟨[], _, rfl, rfl, rfl, .inl rfl, rfl⟩
  | succ count ih =>
    obtain ⟨⟨t, b₁⟩, hpop, hrest⟩ := bind_eq_ok h
    obtain ⟨hpending, below₁, hstack, rfl⟩ := popValue_eq_ok hpop
    obtain ⟨operands, below, rfl, rfl, hstack₁, -, rfl⟩ := ih hrest
    dsimp only at hstack₁
    refine ⟨operands ++ [t], below, by simp, by simp, ?_, .inr hpending, rfl⟩
    rw [hstack, hstack₁, List.reverse_append]
    rfl

/-- Arguments are popped down to the mark of their call. -/
theorem popArguments_eq_ok {count : Nat} {operands : List Tree}
    (h : b.popArguments count position = .ok (operands, b')) :
    ∃ below, operands.length = count ∧ b.stack = operands.reverse.map .value ++ .marker :: below ∧
      (operands = [] ∨ b.pending = []) ∧ b' = { b with stack := below } := by
  obtain ⟨⟨trees, b₁⟩, hpop, hrest⟩ := bind_eq_ok h
  obtain ⟨trees', below₁, rfl, rfl, hstack, hpending, rfl⟩ := popValues_eq_ok hpop
  dsimp only at hrest
  split at hrest
  case h_1 below =>
    cases hrest
    exact ⟨below, by simp, by rw [hstack, List.append_nil], by simpa using hpending, rfl⟩
  case h_2 => cases hrest

/-- Between statements there is nothing on the stack and nothing pending. -/
theorem expectBoundary_eq_ok {what : String} {u : Unit}
    (h : b.expectBoundary position what = .ok u) :
    b.stack = [] ∧ b.pending = [] := by
  unfold expectBoundary at h
  split at h
  case isTrue hb => simpa [atBoundary] using hb
  case isFalse => cases h

/-! ## Instructions -/

/-- A finished call works inside the node. -/
theorem inner_of_finishCall {op : Op} {shape : Shape} {operands : List Tree} {below : List Slot}
    (operation : Operation) (hop : call? types position op = some (operation, operands.length))
    (hstack : b.stack = operands.reverse.map .value ++ .marker :: below)
    (hpending : operands = [] ∨ b.pending = [])
    (hshape : Computes shape operation.type position operation operands)
    (h : { b with stack := below }.finishCall shape operation.type position = .ok b') :
    Inner types b position op b' := by
  unfold finishCall at h
  cases htype : operation.type with
  | some type =>
    rw [htype] at h hshape
    dsimp only at h
    split at h
    case h_1 slot rest =>
      split at h
      case isTrue hslot =>
        cases h
        exact .call hop htype (hslot ▸ hstack) hpending hshape
      case isFalse => cases h
    case h_2 => cases h
  | none =>
    rw [htype] at h hshape
    cases below with
    | nil =>
      cases h
      exact .callStatement hop htype hstack hpending hshape
    | cons slot below =>
      cases h
      exact .callEffect hop htype hstack (List.cons_ne_nil _ _) hpending hshape

/-- Dropping a value works inside the node. -/
theorem inner_of_dropValue {type : TypeId} (h : b.dropValue position = .ok b') :
    Inner types b position (.drop type) b' := by
  unfold dropValue at h
  split at h
  case h_1 tree rest hstack =>
    split at h
    case isTrue => cases h
    case isFalse =>
      cases rest with
      | nil =>
        cases h
        exact .dropStatement hstack
      | cons slot rest =>
        cases h
        exact .dropEffect hstack (List.cons_ne_nil _ _)
  case h_2 => cases h

/-- An instruction without operands works inside the node. -/
theorem inner_of_leaf {op : Op} {operation : Operation} {shape : Shape} {type : TypeId}
    (h : (.ok (b.pushShape shape (some type) position) : Except Error Builder) = .ok b')
    (hop : operation? types position op = some (operation, 0))
    (hshape : Computes shape (some type) position operation []) :
    Inner types b position op b' := by
  cases h
  exact .operate [] hop rfl (.inl rfl) hshape

/-- An instruction with one operand works inside the node. -/
theorem inner_of_unary {op : Op} {shape : Tree → Shape} {type : TypeId}
    (h : b.unary position shape type = .ok b') (operation : Operation)
    (hop : operation? types position op = some (operation, 1))
    (hshape : ∀ t, Computes (shape t) (some type) position operation [t]) :
    Inner types b position op b' := by
  obtain ⟨⟨t, b₁⟩, hpop, hrest⟩ := bind_eq_ok h
  obtain ⟨hpending, below, hstack, rfl⟩ := popValue_eq_ok hpop
  cases hrest
  exact .operate [t] hop hstack (.inr hpending) (hshape t)

/-- An instruction with two operands works inside the node. -/
theorem inner_of_binary {op : Op} {shape : Tree → Tree → Shape} {type : TypeId}
    (h : b.binary position shape type = .ok b') (operation : Operation)
    (hop : operation? types position op = some (operation, 2))
    (hshape : ∀ s t, Computes (shape s t) (some type) position operation [s, t]) :
    Inner types b position op b' := by
  obtain ⟨⟨t, b₁⟩, hpop, hrest⟩ := bind_eq_ok h
  obtain ⟨hpending, below, hstack, rfl⟩ := popValue_eq_ok hpop
  obtain ⟨⟨s, b₂⟩, hpop₂, hrest⟩ := bind_eq_ok hrest
  obtain ⟨-, below₂, hstack₂, rfl⟩ := popValue_eq_ok hpop₂
  cases hrest
  refine .operate [s, t] hop ?_ (.inr hpending) (hshape s t)
  rw [hstack]
  exact congrArg (Slot.value t :: ·) hstack₂

/-- A guard works inside the node. -/
theorem inner_of_guard {label : Label} (onZero : Bool)
    (h : b.guard label onZero position = .ok b') :
    Inner types b position (conditionalJump onZero label true) b' := by
  obtain ⟨⟨cond, b₁⟩, hpop, hrest⟩ := bind_eq_ok h
  obtain ⟨hpending, below, hstack, rfl⟩ := popValue_eq_ok hpop
  cases hrest
  exact .guard hstack hpending

/-- The end of a first arm works inside the node. -/
theorem inner_of_endArm {label : Label} (h : b.endArm label position = .ok b') :
    Inner types b position (.jump label true) b' := by
  obtain ⟨⟨arm, b₁⟩, hpop, hrest⟩ := bind_eq_ok h
  obtain ⟨hpending, below, hstack, rfl⟩ := popValue_eq_ok hpop
  dsimp only at hrest
  split at hrest
  case h_1 =>
    cases hrest
    exact .endArm hstack hpending
  case h_2 => cases hrest

/-- The label that ends `&&` or `||` works inside the node. -/
theorem inner_of_logicalLabel {label : Label} (isAnd : Bool)
    (h : b.logicalLabel label isAnd position = .ok b') :
    Inner types b position (.label label (logicalRole isAnd)) b' := by
  obtain ⟨⟨rhs, b₁⟩, hpop, hrest⟩ := bind_eq_ok h
  obtain ⟨hpending, below, hstack, rfl⟩ := popValue_eq_ok hpop
  dsimp only at hrest
  split at hrest
  case h_1 =>
    split at hrest
    case isTrue hlabel =>
      obtain ⟨rfl, rfl⟩ := hlabel
      cases hrest
      exact .logical hstack hpending
    case isFalse => cases hrest
  case h_2 => cases hrest

/-- The label that begins a second arm works inside the node. -/
theorem inner_of_elseLabel {label : Label} (h : b.elseLabel label position = .ok b') :
    Inner types b position (.label label .otherwise) b' := by
  unfold elseLabel at h
  split at h
  case h_1 hstack =>
    split at h
    case isTrue hlabel =>
      cases h
      exact .otherwise (hlabel ▸ hstack)
    case isFalse => cases h
  case h_2 => cases h

/-- The label that ends `?:` works inside the node. -/
theorem inner_of_endLabel {label : Label} (h : b.endLabel label position = .ok b') :
    Inner types b position (.label label .join) b' := by
  obtain ⟨⟨second, b₁⟩, hpop, hrest⟩ := bind_eq_ok h
  obtain ⟨hpending, below, hstack, rfl⟩ := popValue_eq_ok hpop
  dsimp only at hrest
  split at hrest
  case h_1 cond first onZero elseLabel expected rest =>
    split at hrest
    case isTrue hlabel =>
      subst hlabel
      have hjoin : Inner types b position (.label expected .join) _ := .join hstack hpending
      cases onZero with
      | true =>
        cases hrest
        exact hjoin
      | false =>
        cases hrest
        exact hjoin
    case isFalse => cases hrest
  case h_2 => cases hrest

/-- A branch between statements ends the node. -/
theorem rule_of_branch {label : Label} (onZero : Bool)
    (h : b.branch label onZero position = .ok b') :
    Rule types b position (conditionalJump onZero label false) b' := by
  obtain ⟨⟨cond, b₁⟩, hpop, hrest⟩ := bind_eq_ok h
  obtain ⟨hpending, below, hstack, rfl⟩ := popValue_eq_ok hpop
  obtain ⟨u, hboundary, hrest⟩ := bind_eq_ok hrest
  obtain ⟨rfl, -⟩ := expectBoundary_eq_ok hboundary
  cases hrest
  exact .exit (.branch cond label onZero) hstack hpending

/-- An instruction that ends a node between two statements. -/
theorem rule_of_exit {op : Op} {exit : Exit} {what : String} (hexit : Exits op [] exit)
    (h : (do b.expectBoundary position what; return b.endNode exit) = .ok b') :
    Rule types b position op b' := by
  obtain ⟨u, hboundary, hrest⟩ := bind_eq_ok h
  obtain ⟨hstack, hpending⟩ := expectBoundary_eq_ok hboundary
  cases hrest
  have hrule : Rule types b position op _ := .exit hexit hstack hpending
  rwa [← hstack] at hrule

/-- A label between statements begins a node. -/
theorem rule_of_plainLabel {label : Label} (h : b.plainLabel label position = .ok b') :
    Rule types b position (.label label .plain) b' := by
  obtain ⟨u, hboundary, hrest⟩ := bind_eq_ok h
  obtain ⟨hstack, hpending⟩ := expectBoundary_eq_ok hboundary
  have hrule : Rule types b position (.label label .plain) _ := .label hstack hpending
  split at hrest
  case isTrue hblank =>
    cases hrest
    rwa [if_pos hblank] at hrule
  case isFalse hblank =>
    cases hrest
    rwa [if_neg hblank] at hrule

/-- A duplication makes two trees: the address, and its second use. -/
theorem step_dup {type : TypeId} (h : b.step types ⟨.dup type, position⟩ = .ok b') :
    ∃ address below, b.stack = .value address :: below ∧ b.pending = [] ∧
      b' = ({ b with stack := below }.pushShape (.dup address) address.type position).pushShape
        .dupRef address.type position := by
  obtain ⟨⟨address, b₁⟩, hpop, hrest⟩ := bind_eq_ok h
  obtain ⟨hpending, below, hstack, rfl⟩ := popValue_eq_ok hpop
  cases hrest
  exact ⟨address, below, hstack, hpending, rfl⟩

/-- The builder runs every instruction but a duplication by one of the rules. -/
theorem step_rule {op : Op} (hdup : ∀ type, op ≠ .dup type)
    (h : b.step types ⟨op, position⟩ = .ok b') :
    Rule types b position op b' := by
  cases op with
  | beginScope => cases h; exact .inner (.idle rfl)
  | endScope => cases h; exact .inner (.idle rfl)
  | declare declaration =>
    simp only [step] at h
    split at h
    case isTrue hnone => cases h; exact .inner (.idle hnone)
    case isFalse hsome =>
      obtain ⟨u, hboundary, hrest⟩ := bind_eq_ok h
      obtain ⟨hstack, hpending⟩ := expectBoundary_eq_ok hboundary
      cases hrest
      exact .inner (.declare (Bool.eq_false_iff.2 hsome) hstack hpending)
  | allocResult type => cases h; exact .inner .allocResult
  | arguments => cases h; exact .inner .arguments
  | argument index type address => exact .inner (inner_of_leaf h rfl ⟨rfl, fun _ _ => rfl⟩)
  | localVar index type address => exact .inner (inner_of_leaf h rfl ⟨rfl, fun _ _ => rfl⟩)
  | result index type address => exact .inner (inner_of_leaf h rfl ⟨rfl, fun _ _ => rfl⟩)
  | global index name linkage type address =>
    exact .inner (inner_of_leaf h rfl ⟨rfl, fun _ _ => rfl⟩)
  | const32 type value => exact .inner (inner_of_leaf h rfl ⟨rfl, fun _ _ => rfl⟩)
  | const64 type value => exact .inner (inner_of_leaf h rfl ⟨rfl, fun _ _ => rfl⟩)
  | stringConst type value => exact .inner (inner_of_leaf h rfl ⟨rfl, fun _ _ => rfl⟩)
  | null type => exact .inner (inner_of_leaf h rfl ⟨rfl, fun _ _ => rfl⟩)
  | binary op type => exact .inner (inner_of_binary h _ rfl fun _ _ => ⟨rfl, fun _ _ => rfl⟩)
  | compare op type => exact .inner (inner_of_binary h _ rfl fun _ _ => ⟨rfl, fun _ _ => rfl⟩)
  | unary op type => exact .inner (inner_of_unary h _ rfl fun _ => ⟨rfl, fun _ _ => rfl⟩)
  | convert type result => exact .inner (inner_of_unary h _ rfl fun _ => ⟨rfl, fun _ _ => rfl⟩)
  | load type =>
    obtain ⟨⟨pointer, b₁⟩, hpop, hrest⟩ := bind_eq_ok h
    obtain ⟨loaded, helement, hrest⟩ := bind_eq_ok hrest
    have hunary : b.unary position (.load type) loaded = .ok b' := by rw [unary, hpop]; exact hrest
    refine .inner (inner_of_unary hunary ⟨.load type, loaded, position⟩ ?_
      fun _ => ⟨rfl, fun _ _ => rfl⟩)
    rw [operation?, helement]; rfl
  | store type bits bitOffset =>
    exact .inner (inner_of_binary h _ rfl fun _ _ => ⟨rfl, fun _ _ => rfl⟩)
  | dup type => exact absurd rfl (hdup type)
  | drop type => exact .inner (inner_of_dropValue h)
  | copy type =>
    obtain ⟨⟨src, b₁⟩, hpop, hrest⟩ := bind_eq_ok h
    obtain ⟨hpending, below, hstack, rfl⟩ := popValue_eq_ok hpop
    obtain ⟨⟨dst, b₂⟩, hpop₂, hrest⟩ := bind_eq_ok hrest
    obtain ⟨-, below₂, hstack₂, rfl⟩ := popValue_eq_ok hpop₂
    cases hrest
    refine .inner (.operate [dst, src] rfl ?_ (.inr hpending) ⟨rfl, fun _ _ => rfl⟩)
    rw [hstack]
    exact congrArg (Slot.value src :: ·) hstack₂
  | element type indexType address neg =>
    obtain ⟨⟨index, b₁⟩, hpop, hrest⟩ := bind_eq_ok h
    obtain ⟨⟨base, b₂⟩, hpop₂, hrest⟩ := bind_eq_ok hrest
    obtain ⟨result, haddressed, hrest⟩ := bind_eq_ok hrest
    have hbinary : b.binary position (.element address neg) result = .ok b' := by
      rw [binary, hpop]
      show (b₁.popValue position >>= _) = _
      rw [hpop₂]; exact hrest
    refine .inner (inner_of_binary hbinary ⟨.element address neg, result, position⟩ ?_
      fun _ _ => ⟨rfl, fun _ _ => rfl⟩)
    rw [operation?, haddressed]; rfl
  | field type index address =>
    obtain ⟨⟨base, b₁⟩, hpop, hrest⟩ := bind_eq_ok h
    obtain ⟨result, haddressed, hrest⟩ := bind_eq_ok hrest
    have hunary : b.unary position (.field index address) result = .ok b' :=
      by rw [unary, hpop]; exact hrest
    refine .inner (inner_of_unary hunary ⟨.field index address, result, position⟩ ?_
      fun _ => ⟨rfl, fun _ _ => rfl⟩)
    rw [operation?, haddressed]; rfl
  | postIncrement type delta bits bitOffset =>
    exact .inner (inner_of_unary h _ rfl fun _ => ⟨rfl, fun _ _ => rfl⟩)
  | preIncrement type delta bits bitOffset =>
    exact .inner (inner_of_unary h _ rfl fun _ => ⟨rfl, fun _ _ => rfl⟩)
  | ptrDiff type pointerType =>
    exact .inner (inner_of_binary h _ rfl fun _ _ => ⟨rfl, fun _ _ => rfl⟩)
  | call index count type =>
    obtain ⟨⟨args, b₁⟩, hpop, hrest⟩ := bind_eq_ok h
    obtain ⟨below, rfl, hstack, hpending, rfl⟩ := popArguments_eq_ok hpop
    obtain ⟨result, hresult, hrest⟩ := bind_eq_ok hrest
    refine .inner (inner_of_finishCall ⟨.call index type, result, position⟩ ?_ hstack hpending
      ⟨rfl, fun _ _ => rfl⟩ hrest)
    rw [call?, hresult]; rfl
  | callPointer count type =>
    obtain ⟨⟨args, b₁⟩, hpop, hrest⟩ := bind_eq_ok h
    obtain ⟨below, hlength, hstack, hpending, rfl⟩ := popArguments_eq_ok hpop
    obtain ⟨function, helement, hrest⟩ := bind_eq_ok hrest
    obtain ⟨result, hresult, hrest⟩ := bind_eq_ok hrest
    cases args with
    | nil => cases hlength
    | cons callee args =>
      refine .inner (inner_of_finishCall ⟨.callPointer type, result, position⟩ ?_ hstack hpending
        ⟨rfl, fun _ _ => rfl⟩ hrest)
      rw [hlength]
      simp only [call?, helement]
      show (Builder.resultType types function).toOption.map _ = _
      rw [hresult]; rfl
  | jump label cond =>
    cases cond with
    | true => exact .inner (inner_of_endArm h)
    | false => exact rule_of_exit (.jump label) h
  | jumpZero label logical =>
    cases logical with
    | true => exact .inner (inner_of_guard true h)
    | false => exact rule_of_branch true h
  | jumpNonzero label logical =>
    cases logical with
    | true => exact .inner (inner_of_guard false h)
    | false => exact rule_of_branch false h
  | label label role =>
    cases role with
    | plain => exact rule_of_plainLabel h
    | logicalAnd => exact .inner (inner_of_logicalLabel true h)
    | logicalOr => exact .inner (inner_of_logicalLabel false h)
    | otherwise => exact .inner (inner_of_elseLabel h)
    | join => exact .inner (inner_of_endLabel h)
  | switch type cases default =>
    obtain ⟨⟨value, b₁⟩, hpop, hrest⟩ := bind_eq_ok h
    obtain ⟨hpending, below, hstack, rfl⟩ := popValue_eq_ok hpop
    obtain ⟨u, hboundary, hrest⟩ := bind_eq_ok hrest
    obtain ⟨rfl, -⟩ := expectBoundary_eq_ok hboundary
    cases hrest
    exact .exit (.switch value type cases default) hstack hpending
  | ret => exact rule_of_exit .ret h
  | abort => exact rule_of_exit .abort h

/-! ## The end of a body -/

/-- A blank node has no label and no statements. -/
theorem isBlank_iff : b.isBlank ↔ b.label = none ∧ b.statements = [] := by
  rw [isBlank, Bool.and_eq_true, Option.isNone_iff_eq_none, List.isEmpty_iff]

/-- A body that is complete leaves nothing behind. Its last node returns, and is left out if it is
blank and follows a node that control does not go on from. -/
theorem finish_eq_ok {nodes : List Node} (h : b.finish = .ok nodes) :
    b.stack = [] ∧ b.pending = [] ∧
      ((nodes = b.nodes ∧ b.isBlank ∧ b.nodes.getLast?.any (!·.exit.fallsThrough)) ∨
        nodes = b.nodes ++ [⟨b.label, b.statements, .ret⟩]) := by
  unfold finish at h
  split at h
  case isTrue => cases h
  case isFalse hboundary =>
    have hparts : b.stack = [] ∧ b.pending = [] := by simpa [atBoundary] using hboundary
    refine ⟨hparts.1, hparts.2, ?_⟩
    split at h
    case isTrue hdead =>
      cases h
      exact .inl ⟨rfl, Bool.and_eq_true_iff.1 hdead⟩
    case isFalse =>
      cases h
      exact .inr rfl

end Builder
end StackToGo.Flow
