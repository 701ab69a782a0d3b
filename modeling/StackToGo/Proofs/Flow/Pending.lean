import Mathlib.Data.List.DropRight
import StackToGo.Proofs.Flow.Positions

/-!
# Side effects that are pending

A side effect that comes while operands are on the stack waits for the next tree. Two things must
not happen to it: a later call must not become a statement while it waits, and it must not get from
in front of a second arm into that arm. An operand is taken only if nothing is pending, but two
instructions change or test the stack without taking one, and they do not look at what is pending:
a call without operands, and the label that begins a second arm.

`pending_in_order_iff` says exactly when the two things happen. The first does at a call that has
neither operands nor a result and whose mark is alone on the stack (`Overtakes`). The second does
when an instruction that leaves anything behind stands between the end of the first arm and the
label.
-/

namespace StackToGo.Flow

namespace Builder

variable {types : TypeTable} {b b' : Builder} {position : Position} {op : Op}

/-! ## Runs from the start -/

/-- A run with one more instruction is the run and then the step. -/
theorem run_concat {front : List Instruction} {instruction : Instruction} :
    b.run types (front ++ [instruction]) = .ok b' ↔
      ∃ b₁, b.run types front = .ok b₁ ∧ b₁.step types instruction = .ok b' := by
  induction front generalizing b with
  | nil =>
    constructor
    · intro h
      obtain ⟨b₁, hstep, hrun⟩ := bind_eq_ok h
      cases hrun
      exact ⟨b, rfl, hstep⟩
    · rintro ⟨b₁, hrun, hstep⟩
      cases hrun
      show (b.step types instruction >>= fun b₂ => b₂.run types []) = .ok b'
      rw [hstep]
      rfl
  | cons first front ih =>
    constructor
    · intro h
      obtain ⟨b₂, hfirst, hrun⟩ := bind_eq_ok h
      obtain ⟨b₁, hfront, hstep⟩ := ih.1 hrun
      refine ⟨b₁, ?_, hstep⟩
      show (b.step types first >>= fun b₂ => b₂.run types front) = .ok b₁
      rw [hfirst]
      exact hfront
    · rintro ⟨b₁, hrun, hstep⟩
      obtain ⟨b₂, hfirst, hfront⟩ := bind_eq_ok hrun
      show (b.step types first >>= fun b₂ => b₂.run types (front ++ [instruction])) = .ok b'
      rw [hfirst]
      exact ih.2 ⟨b₁, hfront, hstep⟩

/-- What holds at the start and is kept by every instruction holds after every run. It may speak of
the instructions that have been run. -/
theorem run_induction {P : List Instruction → Builder → Prop} (hstart : P [] start)
    (hstep : ∀ front b instruction b', start.run types front = .ok b → P front b →
      b.step types instruction = .ok b' → P (front ++ [instruction]) b')
    {front : List Instruction} (h : start.run types front = .ok b) : P front b := by
  induction front using List.reverseRecOn generalizing b with
  | nil =>
    cases h
    exact hstart
  | append_singleton front instruction ih =>
    obtain ⟨b₁, hfront, hlast⟩ := run_concat.1 h
    exact hstep front b₁ instruction b hfront (ih hfront) hlast

/-! ## Calls that overtake -/

/-- What is pending has something below it on the stack. -/
def Grounded (b : Builder) : Prop := b.pending ≠ [] → b.stack ≠ []

/-- Does an instruction become a statement while side effects are pending? A call does that takes
no operands and gives no result, if only its mark is on the stack. -/
def Overtakes (types : TypeTable) (b : Builder) (op : Op) : Prop :=
  b.pending ≠ [] ∧ b.stack = [.marker] ∧ ∃ index type, op = .call index 0 type ∧
    resultType types type = .ok none

/-- The result of a call has the type that the call is read with. -/
theorem resultType_of_call {index count : Nat} {type : TypeId} {operation : Operation}
    (h : call? types position (.call index count type) = some (operation, count)) :
    resultType types type = .ok operation.type := by
  obtain ⟨result, hresult, hcall⟩ := Option.map_eq_some_iff.1 h
  obtain ⟨rfl, -⟩ := Prod.mk.inj hcall
  cases hok : resultType types type with
  | error e => rw [hok] at hresult; cases hresult
  | ok result' => rw [hok] at hresult; cases hresult; rfl

/-- What works inside a node leaves pending effects grounded, unless it overtakes them. -/
theorem Inner.grounded (h : Inner types b position op b') (hb : b.Grounded)
    (hop : ¬Overtakes types b op) : b'.Grounded := by
  intro hpending'
  cases h with
  | idle h => exact hb hpending'
  | declare h hstack hpending => exact absurd hpending hpending'
  | allocResult | arguments => exact List.cons_ne_nil _ _
  | operate | call | dropStatement | logical | join => exact absurd rfl hpending'
  | callStatement hcall htype hstack hpending hshape =>
    rcases hpending with rfl | hnil
    · obtain ⟨index, type, rfl⟩ := eq_call_of_no_operands hcall
      exact absurd ⟨hpending', hstack, index, type, rfl, htype ▸ resultType_of_call hcall⟩ hop
    · exact absurd hnil hpending'
  | callEffect hcall htype hstack hbelow hpending hshape => exact hbelow
  | dropEffect hstack hbelow => exact hbelow
  | guard hstack hpending | endArm hstack hpending => exact absurd hpending hpending'
  | otherwise hstack => exact hb hpending'

/-- Every step leaves pending effects grounded, unless it overtakes them. -/
theorem step_grounded (h : b.step types ⟨op, position⟩ = .ok b') (hb : b.Grounded)
    (hop : ¬Overtakes types b op) : b'.Grounded := by
  rcases rule_or_dup h with hrule | ⟨type, address, below, rfl, hstack, hpending, rfl⟩
  · cases hrule with
    | inner h => exact h.grounded hb hop
    | exit hexit hstack hpending => exact fun hne => absurd hpending hne
    | label hstack hpending =>
      by_cases hblank : b.isBlank
      · simp [Grounded, hblank, hpending]
      · simp [Grounded, hblank, endNode, hpending]
  · exact fun hne => absurd rfl hne

/-- The builder does not refuse a call that overtakes, and afterwards nothing is left on the
stack. -/
theorem step_of_overtakes (position : Position) (h : Overtakes types b op) :
    ∃ b', b.step types ⟨op, position⟩ = .ok b' ∧ b'.pending ≠ [] ∧ b'.stack = [] := by
  obtain ⟨hpending, hstack, index, type, rfl, hresult⟩ := h
  refine ⟨({ b with stack := [] }.addStatement
    (.eval (.mk (.call index type []) none position []))), ?_, hpending, rfl⟩
  simp [step, popArguments, popValues, hstack, hresult, finishCall, bind, Except.bind,
    pure, Except.pure]

/-! ## Labels that begin a second arm -/

/-- Does an instruction leave everything as it is, if it is accepted? -/
def isInert (op : Op) : Bool := isIdle op || beginsSecondArm op

/-- The last of the instructions that is not inert. -/
def lastActive? (front : List Instruction) : Option Op :=
  (front.rdropWhile (isInert ·.op)).getLast?.map (·.op)

/-- The last active instruction is the new one, unless that is inert. -/
theorem lastActive?_concat (front : List Instruction) :
    lastActive? (front ++ [⟨op, position⟩]) =
      if isInert op then lastActive? front else some op := by
  unfold lastActive?
  rw [List.rdropWhile_concat]
  by_cases hop : isInert op
  · rw [if_pos hop, if_pos hop]
  · rw [if_neg hop, if_neg hop, List.getLast?_concat]
    rfl

/-- Is the first arm of a `?:` on top of the stack? -/
def awaitsSecondArm (b : Builder) : Bool :=
  match b.stack with
  | .firstArm .. :: _ => true
  | _ => false

/-- While a second arm is awaited, nothing is pending if the first arm has just ended, and
something is otherwise. -/
def ArmSettled (front : List Instruction) (b : Builder) : Prop :=
  b.awaitsSecondArm → (b.pending = [] ↔ (lastActive? front).any endsFirstArm)

/-- A call is active, and ends no first arm. -/
theorem isInert_of_call {call : Operation} {count : Nat}
    (h : call? types position op = some (call, count)) :
    isInert op = false ∧ endsFirstArm op = false := by
  cases op
  case call | callPointer => exact ⟨rfl, rfl⟩
  all_goals cases h

/-- What comes on top of a first arm can only be left pending: a value that is given up there, and
a call without a result. -/
theorem Inner.armSettled {front : List Instruction} (h : Inner types b position op b')
    (hb : b.ArmSettled front) : b'.ArmSettled (front ++ [⟨op, position⟩]) := by
  intro htop
  rw [lastActive?_concat]
  cases h with
  | idle h =>
    rw [if_pos (by rw [isInert, h, Bool.true_or])]
    exact hb htop
  | declare h hstack hpending => simp [awaitsSecondArm, addStatement, hstack] at htop
  | allocResult | arguments | operate | call | callStatement | dropStatement | guard | logical
  | join => cases htop
  | callEffect hcall htype hstack hbelow hpending hshape =>
    obtain ⟨hinert, harm⟩ := isInert_of_call hcall
    simp [hinert, harm]
  | dropEffect hstack hbelow => simp [isInert, isIdle, beginsSecondArm, endsFirstArm]
  | endArm hstack hpending => simp [isInert, isIdle, beginsSecondArm, endsFirstArm, hpending]
  | otherwise hstack => exact hb htop

/-- Every step keeps what is said about an awaited second arm. -/
theorem step_armSettled {front : List Instruction} (h : b.step types ⟨op, position⟩ = .ok b')
    (hb : b.ArmSettled front) : b'.ArmSettled (front ++ [⟨op, position⟩]) := by
  rcases rule_or_dup h with hrule | ⟨type, address, below, rfl, hstack, hpending, rfl⟩
  · cases hrule with
    | inner h => exact h.armSettled hb
    | exit hexit hstack hpending => exact fun htop => by cases htop
    | label hstack hpending =>
      intro htop
      by_cases hblank : b.isBlank
      · simp [awaitsSecondArm, hblank, hstack] at htop
      · simp [awaitsSecondArm, hblank, endNode, hstack] at htop
  · exact fun htop => by cases htop

/-- The label that begins a second arm is refused unless one is awaited. -/
theorem awaitsSecondArm_of_step {label : Label}
    (h : b.step types ⟨.label label .otherwise, position⟩ = .ok b') :
    b.awaitsSecondArm := by
  change b.elseLabel label position = .ok b' at h
  cases hstack : b.stack with
  | nil =>
    rw [elseLabel, hstack] at h
    cases h
  | cons slot below =>
    cases slot with
    | firstArm => simp [awaitsSecondArm, hstack]
    | value | result | marker | guard =>
      rw [elseLabel, hstack] at h
      cases h

end Builder

/-! ## Whole runs -/

/-- No prefix of a body leaves side effects pending over an empty stack exactly if no call of it
overtakes any. The label that begins a second arm finds nothing pending exactly if the instruction
before it ends the first arm, those left out that do nothing. -/
theorem pending_in_order_iff (types : TypeTable) (body : List Instruction) :
    ((∀ front rest b, body = front ++ rest → Builder.start.run types front = .ok b →
      b.pending ≠ [] → b.stack ≠ []) ↔
      ∀ front instruction rest b, body = front ++ instruction :: rest →
        Builder.start.run types front = .ok b →
        ¬b.Overtakes types instruction.op) ∧
    ∀ front label position rest b b', body = front ++ ⟨.label label .otherwise, position⟩ :: rest →
      Builder.start.run types front = .ok b →
        b.step types ⟨.label label .otherwise, position⟩ = .ok b' →
        (b.pending = [] ↔ (Builder.lastActive? front).any endsFirstArm) := by
  refine ⟨⟨fun hgrounded front instruction rest b hbody hrun hovertakes => ?_,
    fun hcalls front rest b hbody hrun => ?_⟩,
      fun front label position rest b b' hbody hrun hlabel => ?_⟩
  · -- The call is accepted, so the prefix that ends with it leaves the stack empty.
    obtain ⟨op, position⟩ := instruction
    obtain ⟨b', hstep, hpending, hstack⟩ := Builder.step_of_overtakes position hovertakes
    have hsplit : body = (front ++ [⟨op, position⟩]) ++ rest :=
      by rw [hbody, List.append_assoc]; rfl
    exact hgrounded _ rest b' hsplit (Builder.run_concat.2 ⟨b, hrun, hstep⟩) hpending hstack
  · have hrun' : ∀ rest, body = front ++ rest → b.Grounded := by
      refine Builder.run_induction (P := fun front b => ∀ rest, body = front ++ rest → b.Grounded)
        (fun _ _ hne => absurd rfl hne) (fun front b instruction b' hrun ih hstep rest hbody => ?_)
        hrun
      rw [List.append_assoc, List.singleton_append] at hbody
      exact Builder.step_grounded hstep (ih _ hbody) (hcalls front instruction rest b hbody hrun)
    exact hrun' rest hbody
  · have hsettled : b.ArmSettled front :=
      Builder.run_induction (fun htop => by cases htop) (fun front b instruction b' _ ih hstep =>
        Builder.step_armSettled hstep ih) hrun
    exact hsettled (Builder.awaitsSecondArm_of_step hlabel)

def effectTypes : TypeTable := TypeTable.empty.internEach [.function [] [] false]

/-- A call of `f` between the mark of a call of `g` and that call. Neither has operands or a
result. -/
def overtakingBody : List Instruction :=
  [.arguments, .arguments, .call 0 0 ⟨14⟩, .call 1 0 ⟨14⟩, .const32 TypeTable.int32 1,
    .drop TypeTable.int32, .ret].map (⟨·, .unknown⟩)

/-- The expression `1 ? 2 : 3`, with a call of `f` between the end of the first arm and the start
of the second one, where no jump goes. -/
def revivingBody : List Instruction :=
  [.const32 TypeTable.int32 1, .jumpZero (.number 1) true, .const32 TypeTable.int32 2,
    .jump (.number 2) true, .arguments, .call 0 0 ⟨14⟩, .label (.number 1) .otherwise,
    .const32 TypeTable.int32 3, .label (.number 2) .join, .drop TypeTable.int32,
    .ret].map (⟨·, .unknown⟩)

/-- The builder accepts both bodies. In the first one `g` becomes a statement while `f` is pending
over an empty stack, and in the second one the label of the second arm finds `f` pending, which
gets into that arm. -/
theorem effects_overtaken_and_revived :
    (∃ b, Builder.start.run effectTypes (overtakingBody.take 4) = .ok b ∧ b.pending ≠ [] ∧
      b.stack = [] ∧
      b.statements ≠ []) ∧
    (∃ nodes, build effectTypes overtakingBody = .ok nodes) ∧
    (∃ b b' label position, Builder.start.run effectTypes (revivingBody.take 6) = .ok b ∧
      revivingBody[6]? = some ⟨.label label .otherwise, position⟩ ∧
      b.step effectTypes ⟨.label label .otherwise, position⟩ = .ok b' ∧ b.pending ≠ []) ∧
    ∃ nodes, build effectTypes revivingBody = .ok nodes := by
  refine ⟨⟨_, rfl, ?_, rfl, ?_⟩, ⟨_, rfl⟩, ⟨_, _, _, _, rfl, rfl, rfl, ?_⟩, ⟨_, rfl⟩⟩ <;>
    exact List.cons_ne_nil _ _

/-- Both bodies bring effects out of order, each in its own way. -/
theorem effects_out_of_order :
    ¬(∀ front rest b, overtakingBody = front ++ rest →
      Builder.start.run effectTypes front = .ok b → b.pending ≠ [] →
      b.stack ≠ []) ∧
    ∃ b b', Builder.start.run effectTypes (revivingBody.take 6) = .ok b ∧
      b.step effectTypes ⟨.label (.number 1) .otherwise, .unknown⟩ = .ok b' ∧ b.pending ≠ [] ∧
      (Builder.lastActive? (revivingBody.take 6)).any endsFirstArm = false := by
  refine ⟨fun hall => ?_, ?_⟩
  · have hcalls := (pending_in_order_iff effectTypes overtakingBody).1.1 hall
    exact hcalls (overtakingBody.take 3) ⟨.call 1 0 ⟨14⟩, .unknown⟩
      (overtakingBody.drop 4) _ rfl rfl ⟨List.cons_ne_nil _ _, rfl, 1, ⟨14⟩, rfl, rfl⟩
  · obtain ⟨b, hrun⟩ : ∃ b, Builder.start.run effectTypes (revivingBody.take 6) = .ok b := ⟨_, rfl⟩
    obtain ⟨b', hstep⟩ :
        ∃ b', b.step effectTypes ⟨.label (.number 1) .otherwise, .unknown⟩ = .ok b' := by
      cases hrun
      exact ⟨_, rfl⟩
    have hactive : (Builder.lastActive? (revivingBody.take 6)).any endsFirstArm = false := rfl
    have hiff :=
      (pending_in_order_iff effectTypes revivingBody).2 (revivingBody.take 6) (.number 1) .unknown
      (revivingBody.drop 7) b b' rfl hrun hstep
    refine ⟨b, b', hrun, hstep, fun hnil => ?_, hactive⟩
    rw [hiff, hactive] at hnil
    cases hnil

end StackToGo.Flow
