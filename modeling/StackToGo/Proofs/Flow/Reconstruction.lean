import StackToGo.Proofs.Flow.Tracking

/-!
# Nodes do what the instructions do

`build_preserves_meaning`: a run of the nodes that the builder makes of a body performs the same
events with the same values as a run of the body, and ends in the same way with the same state. It
needs a body that keeps to a discipline (`Structured`) which the builder relies on without checking
it.

A node is entered with an empty stack, either from the node before it or by a jump to its label.
From there the builder tracks the machine up to the instruction that ends the node, where both go
on to the same place. One step of the nodes is thus one or more steps of the machine.
-/

namespace StackToGo.Flow

open StateTransition
open Go (Ending)

/-! ## Discipline -/

/-- The labels that jumps between statements go to. -/
def plainLabels (body : List Instruction) : List Label :=
  body.filterMap fun instruction => match instruction.op with
    | .label label .plain => some label
    | _ => none

/-- Where an instruction that ends a node may go. -/
def transferTargets : Op → List Label
  | .jump label false => [label]
  | .jumpZero label false => [label]
  | .jumpNonzero label false => [label]
  | .switch _ cases default => default :: cases.map (·.2)
  | _ => []

def isDup : Op → Bool
  | .dup _ => true
  | _ => false

def isArguments : Op → Bool
  | .arguments => true
  | _ => false

/-- Is it a call without operands? -/
def isBareCall : Op → Bool
  | .call _ 0 _ => true
  | _ => false

def endsFirstArm : Op → Bool
  | .jump _ true => true
  | _ => false

def beginsSecondArm : Op → Bool
  | .label _ .otherwise => true
  | _ => false

/-- May one instruction directly follow the other? A call without operands follows the start of its
operands, and the end of a first arm is followed by the start of the second one. None stands for
the ends of the body. -/
def mayFollow (previous next : Option Op) : Bool :=
  (!next.any isBareCall || previous.any isArguments) &&
    (!previous.any endsFirstArm || next.any beginsSecondArm)

/-- May the instructions follow each other, after the given one? -/
def inSequence : Option Op → List Instruction → Bool
  | previous, [] => mayFollow previous none
  | previous, instruction :: rest =>
    mayFollow previous (some instruction.op) && inSequence (some instruction.op) rest

/-- What the builder takes for granted. -/
structure Structured (body : List Instruction) : Prop where
  noDup : ∀ instruction ∈ body, isDup instruction.op = false
  /-- No label is defined twice. -/
  labels : (definedLabels body).Nodup
  /-- Jumps between statements go to plain labels of the body. -/
  transfers : ∀ instruction ∈ body, ∀ label ∈ transferTargets instruction.op,
    label ∈ plainLabels body
  sequence : inSequence none body

instance (body : List Instruction) : Decidable (Structured body) :=
  decidable_of_iff ((∀ instruction ∈ body, isDup instruction.op = false) ∧
    (definedLabels body).Nodup ∧
      (∀ instruction ∈ body, ∀ label ∈ transferTargets instruction.op, label ∈ plainLabels body) ∧
      inSequence none body)
    ⟨fun ⟨h₁, h₂, h₃, h₄⟩ => ⟨h₁, h₂, h₃, h₄⟩,
      fun h => ⟨h.noDup, h.labels, h.transfers, h.sequence⟩⟩

/-- Labels between statements are labels of the body. -/
theorem mem_definedLabels_of_plain {body : List Instruction} {label : Label}
    (h : label ∈ plainLabels body) : label ∈ definedLabels body := by
  obtain ⟨⟨op, position⟩, hmem, hlabel⟩ := List.mem_filterMap.1 h
  refine List.mem_filterMap.2 ⟨⟨op, position⟩, hmem, ?_⟩
  cases op with
  | label l role =>
    cases role with
    | plain => exact hlabel
    | _ => cases hlabel
  | _ => cases hlabel

/-- The labels of a rest are labels of the whole. -/
theorem mem_definedLabels_cons {instruction : Instruction} {rest : List Instruction}
    {label : Label} (h : label ∈ definedLabels rest) :
    label ∈ definedLabels (instruction :: rest) := by
  rw [← List.singleton_append, definedLabels_append]
  exact List.mem_append_right _ h

/-- A switch goes to the label of a case or to the default. -/
theorem target_mem {V S : Type} (I : Interpretation V S) (type : TypeId)
    (cases : List (Value × Label)) (default : Label) (v : V) :
    I.target type cases default v ∈ default :: cases.map (·.2) := by
  unfold Interpretation.target
  cases hcase : (I.select type (cases.map (·.1)) v).bind (cases[·]?) with
  | none => exact List.mem_cons_self
  | some chosen =>
    obtain ⟨i, -, hi⟩ := Option.bind_eq_some_iff.1 hcase
    exact List.mem_cons_of_mem _ (List.mem_map_of_mem (List.mem_of_getElem? hi))

namespace Builder

/-! ## Side effects are never left alone -/

/-- What is pending has something below it on the stack, also below the mark of a call that has
just begun. -/
def Anchored (previous : Option Op) (b : Builder) : Prop :=
  b.pending ≠ [] → b.stack ≠ [] ∧ (previous.any isArguments → b.stack.tail ≠ [])

variable {types : TypeTable} {b b' : Builder} {position : Position} {op : Op}
  {previous : Option Op}

/-- A call without operands follows the start of its operands. -/
theorem arguments_of_mayFollow (h : mayFollow previous (some op)) (hop : isBareCall op) :
    previous.any isArguments := by
  rw [mayFollow, Bool.and_eq_true] at h
  simpa [hop] using h.1

/-- Where something is pending, a call without operands has something below its mark. -/
theorem Anchored.tail_ne_nil (h : b.Anchored previous)
    (hfollow : isBareCall op → previous.any isArguments) {index : Nat} {type : TypeId}
    (hop : op = .call index 0 type) (hpending : b.pending ≠ []) :
    b.stack.tail ≠ [] := by
  subst hop
  exact (h hpending).2 (hfollow rfl)

/-- A call does not start operands. -/
theorem isArguments_of_call {call : Operation} {count : Nat}
    (h : call? types position op = some (call, count)) :
    isArguments op = false := by
  cases op
  case arguments => cases h
  all_goals rfl

/-- An idle instruction does not start operands. -/
theorem isArguments_of_isIdle (h : isIdle op) : isArguments op = false := by
  cases op
  case arguments => cases h
  all_goals rfl

/-- An instruction inside a node keeps side effects anchored, if a call without operands follows
the start of its operands. -/
theorem Inner.anchored (h : Inner types b position op b') (hb : b.Anchored previous)
    (hfollow : isBareCall op → previous.any isArguments) : b'.Anchored (some op) := by
  intro hpending'
  cases h with
  | idle h => exact ⟨(hb hpending').1, fun harg => by simp [isArguments_of_isIdle h] at harg⟩
  | declare h hstack hpending => exact absurd hpending hpending'
  | allocResult => exact ⟨List.cons_ne_nil _ _, fun harg => by cases harg⟩
  | arguments => exact ⟨List.cons_ne_nil _ _, fun _ => (hb hpending').1⟩
  | operate => exact absurd rfl hpending'
  | call => exact absurd rfl hpending'
  | callStatement hop htype hstack hpending hshape =>
    rcases hpending with rfl | hnil
    · obtain ⟨index, type, rfl⟩ := eq_call_of_no_operands hop
      have htail := hb.tail_ne_nil hfollow rfl hpending'
      rw [hstack] at htail
      exact absurd rfl htail
    · exact absurd hnil hpending'
  | callEffect hop htype hstack hbelow hpending hshape =>
    exact ⟨hbelow, fun harg => by simp [isArguments_of_call hop] at harg⟩
  | dropStatement => exact absurd rfl hpending'
  | dropEffect hstack hbelow => exact ⟨hbelow, fun harg => by cases harg⟩
  | guard hstack hpending => exact absurd hpending hpending'
  | endArm hstack hpending => exact absurd hpending hpending'
  | logical => exact absurd rfl hpending'
  | otherwise hstack => exact ⟨hstack ▸ List.cons_ne_nil _ _, fun harg => by cases harg⟩
  | join => exact absurd rfl hpending'

/-- An instruction inside a node leaves the nodes before it and its label alone, and only adds
statements. -/
theorem Inner.frame (h : Inner types b position op b') :
    b'.nodes = b.nodes ∧ b'.label = b.label ∧ (b'.statements = [] → b.statements = []) := by
  cases h with
  | declare => exact ⟨rfl, rfl, fun h => (List.append_eq_nil_iff.1 h).1⟩
  | callStatement => exact ⟨rfl, rfl, fun h => (List.append_eq_nil_iff.1 h).1⟩
  | dropStatement => exact ⟨rfl, rfl, fun h => (List.append_eq_nil_iff.1 h).1⟩
  | _ => exact ⟨rfl, rfl, id⟩

/-- Is the node being filled kept when nothing more is added to it? A blank node that cannot be
reached is not. -/
def isLive (b : Builder) : Bool := !(b.isBlank && b.nodes.getLast?.any (!·.exit.fallsThrough))

/-- What works inside a node keeps it live. -/
theorem Inner.isLive (h : Inner types b position op b') (hb : b.isLive) : b'.isLive := by
  obtain ⟨hnodes, hlabel, hstatements⟩ := h.frame
  simp only [Builder.isLive, isBlank, hnodes, hlabel, Bool.not_and, Bool.or_eq_true,
    Bool.not_eq_true', List.isEmpty_eq_false_iff, Option.isNone_eq_false_iff] at hb ⊢
  exact hb.imp_left (Or.imp_right (mt hstatements))

end Builder

/-! ## Entering nodes -/

section

variable {V S : Type} (I : Interpretation V S) (types : TypeTable) (body : List Instruction)

/-- Where the machine arrives when a node leads to a destination and the instructions after it are
`next`. -/
def arrive (next : List Instruction) : Destination × World V S → Config V S
  | (.next, w) => ⟨.running next, [], w⟩
  | (.label target, w) => ⟨enter body target .plain, [], w⟩
  | (.ended ending, w) => ⟨.ended ending, [], w⟩

/-- From the instructions `ahead` the machine does what a node does, and the instructions after it
are `next`. -/
def Follows (ahead : List Instruction) (n : Node) (next : List Instruction) : Prop :=
  ∀ w : World V S,
    Reaches₁ (Config.next I types body) ⟨.running ahead, [], w⟩ (arrive body next (runNode I n w))

/-- From the instructions `ahead` the machine does what the nodes do as long as they run one after
the other. -/
def Enters : List Instruction → List Node → Prop
  | _, [] => False
  | ahead, n :: later => ∃ next, Follows I types body ahead n next ∧
      (∀ w target, (runNode I n w).1 = .label target → target ∈ plainLabels body) ∧
      (n.exit.fallsThrough → Enters next later)

/-- From the instructions `ahead` the machine has come to the instructions `rest` when the builder
has filled a part of the node. -/
def Tracks (ahead : List Instruction) (b : Builder) (rest : List Instruction) : Prop :=
  ∀ w : World V S,
    Reaches (Config.next I types body) ⟨.running ahead, [], w⟩ (locate rest (b.outcome I body w))

variable {I types body}
variable {op : Op} {position : Position} {ahead rest : List Instruction} {b b' : Builder}

/-- At a boundary the statements of the node have run, and nothing is on the stack. -/
theorem outcome_of_boundary (hstack : b.stack = []) (hpending : b.pending = []) (w : World V S) :
    b.outcome I body w = .ok ([], b.statements.foldl (runStatement I) w) := by
  rw [Builder.outcome, hstack, hpending]
  rfl

/-- What the machine has come to with one operand on the stack. -/
theorem outcome_of_operand {tree : Tree} (hstack : b.stack = [.value tree])
    (hpending : b.pending = []) (w : World V S) :
    b.outcome I body w =
        .ok ([.value (evalTree I tree (b.statements.foldl (runStatement I) w)).1],
          (evalTree I tree (b.statements.foldl (runStatement I) w)).2) := by
  rw [Builder.outcome, hstack, hpending]
  rfl

/-- The instruction that ends a node takes the machine to where the node leads. -/
theorem follows_of_exits {operands : List Tree} {exit : Exit}
    (hexit : Builder.Exits op operands exit) (hstack : b.stack = operands.map .value)
    (hpending : b.pending = []) (h : Tracks I types body ahead b (⟨op, position⟩ :: rest)) :
    Follows I types body ahead ⟨b.label, b.statements, exit⟩ rest := by
  intro w
  refine Relation.TransGen.tail' (h w) ?_
  cases hexit with
  | jump label =>
    rw [outcome_of_boundary hstack hpending]
    rfl
  | branch cond label onZero =>
    rw [outcome_of_operand hstack hpending, locate, settle_conditionalJump]
    refine execute_conditionalJump.trans ?_
    simp only [executeJump, runNode, leave]
    cases I.isZero (evalTree I cond (b.statements.foldl (runStatement I) w)).1 == onZero with
    | true => rfl
    | false => rfl
  | switch value type cases default =>
    rw [outcome_of_operand hstack hpending]
    rfl
  | ret =>
    rw [outcome_of_boundary hstack hpending]
    rfl
  | abort =>
    rw [outcome_of_boundary hstack hpending]
    rfl

/-- A node that ends with the instructions returns. -/
theorem follows_of_end (hstack : b.stack = []) (hpending : b.pending = [])
    (h : Tracks I types body ahead b []) :
    Follows I types body ahead ⟨b.label, b.statements, .ret⟩ [] := by
  intro w
  refine Relation.TransGen.tail' (h w) ?_
  rw [outcome_of_boundary hstack hpending]
  rfl

/-- A node that runs into a plain label goes there as if it jumped. -/
theorem follows_of_label {label : Label} (hstack : b.stack = []) (hpending : b.pending = [])
    (hlabel : enter body label .plain = .running rest)
    (h : Tracks I types body ahead b (⟨.label label .plain, position⟩ :: rest)) :
    Follows I types body ahead ⟨b.label, b.statements, .jump label⟩ [] := by
  intro w
  refine Relation.TransGen.tail' (h w) ?_
  rw [outcome_of_boundary hstack hpending]
  show Config.next I types body _ = some ⟨enter body label .plain, [], _⟩
  rw [hlabel]
  rfl

/-- The builder at the start of a node has nothing to catch up with. -/
theorem tracks_of_fresh (hstack : b.stack = []) (hpending : b.pending = [])
    (hstatements : b.statements = []) : Tracks I types body rest b rest := by
  intro w
  rw [outcome_of_boundary hstack hpending, hstatements]
  exact reaches_settle I types body rest [] w

/-- Only an exit that falls through leads to the next node. -/
theorem fallsThrough_of_leave {exit : Exit} {w : World V S} (h : (leave I w exit).1 = .next) :
    exit.fallsThrough := by
  cases exit with
  | fallThrough => rfl
  | branch => rfl
  | _ => cases h

/-- A node leads only to targets of the instruction that ends it. -/
theorem mem_transferTargets_of_exits {operands : List Tree} {exit : Exit}
    (hexit : Builder.Exits op operands exit) {w : World V S} {target : Label}
    (h : (leave I w exit).1 = .label target) : target ∈ transferTargets op := by
  cases hexit with
  | jump label =>
    cases h
    exact List.mem_singleton_self target
  | branch cond label onZero =>
    simp only [leave] at h
    split at h
    case isTrue =>
      cases h
      cases onZero <;> exact List.mem_singleton_self target
    case isFalse => cases h
  | switch value type cases default =>
    cases h
    exact target_mem I type cases default _
  | ret => cases h
  | abort => cases h

/-- The node with the label is where a jump to it goes. -/
theorem nodesFrom_cons_self {n : Node} {later : List Node} {label : Label}
    (h : n.label = some label) : nodesFrom (n :: later) label = n :: later :=
  List.dropWhile_cons_of_neg (by simp [h])

/-- A node with another label is passed over. -/
theorem nodesFrom_cons_ne {n : Node} {later : List Node} {label : Label}
    (h : n.label ≠ some label) : nodesFrom (n :: later) label = nodesFrom later label :=
  List.dropWhile_cons_of_pos (by simp [h])

/-- Only labels between statements count among them. -/
theorem plainLabels_cons (h : ∀ label, op ≠ .label label .plain) :
    plainLabels (⟨op, position⟩ :: rest) = plainLabels rest := by
  refine List.filterMap_cons_none ?_
  cases op with
  | label l role =>
    cases role with
    | plain => exact absurd rfl (h l)
    | _ => rfl
  | _ => rfl

/-- What works inside a node is no label between statements. -/
theorem Builder.Inner.not_plain (h : Inner types b position op b') (label : Label) :
    op ≠ .label label .plain := by
  rintro rfl
  generalize hop : Op.label label .plain = op at h
  cases h with
  | idle h => subst hop; cases h
  | operate _ hop' => subst hop; cases hop'
  | call hop' => subst hop; cases hop'
  | callStatement hop' => subst hop; cases hop'
  | callEffect hop' => subst hop; cases hop'
  | @guard _ _ onZero => cases onZero <;> cases hop
  | @logical _ _ _ isAnd => cases isAnd <;> cases hop
  | _ => cases hop

/-- What ends a node is no label between statements. -/
theorem Builder.Exits.not_plain {operands : List Tree} {exit : Exit} (h : Exits op operands exit)
    (label : Label) : op ≠ .label label .plain := by
  rintro rfl
  generalize hop : Op.label label .plain = op at h
  cases h with
  | branch _ _ onZero => cases onZero <;> cases hop
  | _ => cases hop

/-! ## All nodes -/

variable (I types body) in
/-- What the nodes that the builder is going to make of `rest` owe to the machine: the first one
continues the node being filled, and each plain label is that of a node. -/
structure Realizes (b : Builder) (rest : List Instruction) (tail : List Node) : Prop where
  entered : b.isLive → ∀ ahead, Tracks I types body ahead b rest → Enters I types body ahead tail
  label : ∀ label, b.label = some label → nodesFrom tail label = tail
  labels : ∀ label ∈ plainLabels rest, ∃ ahead, enter body label .plain = .running ahead ∧
    Enters I types body ahead (nodesFrom tail label)

/-- What is realized after an instruction inside the node is realized before it. -/
theorem Realizes.of_inner {tail : List Node} (hinner : Builder.Inner types b position op b')
    (hadvance : ∀ w, Reaches (Config.next I types body)
      (locate (⟨op, position⟩ :: rest) (b.outcome I body w)) (locate rest (b'.outcome I body w)))
    (h : Realizes I types body b' rest tail) :
    Realizes I types body b (⟨op, position⟩ :: rest) tail where
  entered hlive ahead htracks := h.entered (hinner.isLive hlive) ahead fun w =>
    (htracks w).trans (hadvance w)
  label label hlabel := h.label label (hinner.frame.2.1.trans hlabel)
  labels label hlabel := h.labels label (plainLabels_cons hinner.not_plain ▸ hlabel)

/-- The nodes after the one with the exit realize the rest, and the one with the exit follows the
machine up to it. -/
theorem Realizes.of_exits {operands : List Tree} {exit : Exit} {tail : List Node}
    (hexit : Builder.Exits op operands exit) (hstack : b.stack = operands.map .value)
    (hpending : b.pending = [])
    (htargets : ∀ target ∈ transferTargets op, target ∈ plainLabels body)
    (hnew : ∀ label ∈ definedLabels (⟨op, position⟩ :: rest), b.label ≠ some label)
    (h : Realizes I types body ({ b with stack := [] }.endNode exit) rest tail) :
    Realizes I types body b (⟨op, position⟩ :: rest) (⟨b.label, b.statements, exit⟩ :: tail) where
  entered _ ahead htracks := by
    refine ⟨rest, follows_of_exits hexit hstack hpending htracks, fun w target htarget => ?_,
      fun hfalls => ?_⟩
    · exact htargets target (mem_transferTargets_of_exits hexit htarget)
    · refine h.entered ?_ rest (tracks_of_fresh rfl hpending rfl)
      have hfalls' : exit.fallsThrough = true := hfalls
      simp [Builder.isLive, Builder.endNode, hfalls']
  label label hlabel := nodesFrom_cons_self hlabel
  labels label hlabel := by
    have hne := hnew label (mem_definedLabels_of_plain hlabel)
    rw [nodesFrom_cons_ne hne]
    exact h.labels label (plainLabels_cons hexit.not_plain ▸ hlabel)

/-- A node with a label is live. -/
theorem Builder.isLive_of_label {label : Label} (h : b.label = some label) : b.isLive := by
  simp [isLive, isBlank, h]

/-- After a plain label the builder fills a node with that label, which is entered by jumps to
it. -/
theorem Realizes.enters_label {label : Label} {tail : List Node}
    (h : Realizes I types body b rest tail) (hstack : b.stack = []) (hpending : b.pending = [])
    (hstatements : b.statements = []) (hlabel : b.label = some label) :
    Enters I types body rest (nodesFrom tail label) := by
  rw [h.label label hlabel]
  exact h.entered (Builder.isLive_of_label hlabel) rest
    (tracks_of_fresh hstack hpending hstatements)

/-- A blank node gets the label that comes next. -/
theorem Realizes.of_label_blank {label : Label} {tail : List Node} (hstack : b.stack = [])
    (hpending : b.pending = []) (hblank : b.isBlank)
    (henter : enter body label .plain = .running rest)
    (h : Realizes I types body { b with label := some label } rest tail) :
    Realizes I types body b (⟨.label label .plain, position⟩ :: rest) tail := by
  obtain ⟨hnone, hstatements⟩ := Builder.isBlank_iff.1 hblank
  refine ⟨fun _ ahead htracks => ?_, fun l hl => ?_, fun l hl => ?_⟩
  · refine h.entered (Builder.isLive_of_label rfl) ahead fun w => (htracks w).trans ?_
    show Reaches _ _ (locate rest (b.outcome I body w))
    rw [outcome_of_boundary hstack hpending]
    exact reaches_locate_of_execute rfl rfl
  · rw [hnone] at hl
    cases hl
  · rcases List.mem_cons.1 hl with rfl | hl
    · exact ⟨rest, henter, h.enters_label hstack hpending hstatements rfl⟩
    · exact h.labels l hl

/-- Any other node ends with a jump to the label that comes next. -/
theorem Realizes.of_label_jump {label : Label} {tail : List Node} (hstack : b.stack = [])
    (hpending : b.pending = []) (henter : enter body label .plain = .running rest)
    (hplain : label ∈ plainLabels body)
    (hnew : ∀ l ∈ definedLabels (⟨.label label .plain, position⟩ :: rest), b.label ≠ some l)
    (h : Realizes I types body { b.endNode (.jump label) with label := some label } rest tail) :
    Realizes I types body b (⟨.label label .plain, position⟩ :: rest)
      (⟨b.label, b.statements, .jump label⟩ :: tail) := by
  refine ⟨fun _ ahead htracks => ?_, fun l hl => nodesFrom_cons_self hl, fun l hl => ?_⟩
  · refine ⟨[], follows_of_label hstack hpending henter htracks, fun w target htarget => ?_,
      fun hfalls => ?_⟩
    · cases htarget
      exact hplain
    · cases hfalls
  · have hne := hnew l (mem_definedLabels_of_plain hl)
    rw [nodesFrom_cons_ne hne]
    rcases List.mem_cons.1 hl with rfl | hl
    · exact ⟨rest, henter, h.enters_label hstack hpending rfl rfl⟩
    · exact h.labels l hl

/-- The last node, which returns unless it is blank and cannot be reached. -/
theorem exists_realizes_of_finish {nodes : List Node} (h : b.finish = .ok nodes) :
    ∃ tail, nodes = b.nodes ++ tail ∧ Realizes I types body b [] tail := by
  obtain ⟨hstack, hpending, ⟨rfl, hblank, hdead⟩ | rfl⟩ := Builder.finish_eq_ok h
  · refine ⟨[], (List.append_nil _).symm, fun hlive => ?_, fun _ _ => rfl, fun l hl => by cases hl⟩
    rw [Builder.isLive, hblank, hdead] at hlive
    cases hlive
  · refine ⟨[⟨b.label, b.statements, .ret⟩], rfl, fun _ ahead htracks => ?_,
      fun l hl => nodesFrom_cons_self hl, fun l hl => by cases hl⟩
    refine ⟨[], follows_of_end hstack hpending htracks, fun w target htarget => ?_,
      fun hfalls => ?_⟩
    · cases htarget
    · cases hfalls

/-- The end of a first arm is directly before the label of the second arm of the same `?:`. -/
theorem secondArm_of_run {previous : Option Op} {label elseLabel : Label} {cond arm : Tree}
    {onZero : Bool} {below : List Slot}
    (hstack : b.stack = .firstArm cond arm onZero elseLabel label :: below)
    (hprevious : previous.any endsFirstArm) (hseq : inSequence previous rest)
    (hrun : b.run types rest = .ok b') :
    ∃ position' later, rest = ⟨.label elseLabel .otherwise, position'⟩ :: later := by
  cases rest with
  | nil => simp [inSequence, mayFollow, hprevious] at hseq
  | cons instruction later =>
    obtain ⟨op, position⟩ := instruction
    simp only [inSequence, mayFollow, hprevious, Bool.not_true, Bool.false_or,
      Bool.and_eq_true] at hseq
    obtain ⟨⟨-, hbegins⟩, -⟩ := hseq
    obtain ⟨b₁, hstep, -⟩ := bind_eq_ok hrun
    cases op with
    | label l role =>
      cases role with
      | otherwise =>
        have helse : b.elseLabel l position = .ok b₁ := hstep
        rw [Builder.elseLabel, hstack] at helse
        dsimp only at helse
        split at helse
        case isTrue hlabel => exact ⟨position, later, by rw [hlabel]⟩
        case isFalse => cases helse
      | _ => cases hbegins
    | _ => cases hbegins

/-- By induction on the instructions that are left: whatever the builder makes of them realizes
them. -/
theorem exists_realizes {front : List Instruction} {previous : Option Op} {nodes : List Node}
    (hbody : Structured body) (hsplit : body = front ++ rest) (hseq : inSequence previous rest)
    (hrun : b.run types rest = .ok b') (hfinish : b'.finish = .ok nodes)
    (hanchored : b.Anchored previous) (hnew : ∀ label ∈ definedLabels rest, b.label ≠ some label) :
    ∃ tail, nodes = b.nodes ++ tail ∧ Realizes I types body b rest tail := by
  induction rest generalizing b front previous with
  | nil =>
    cases hrun
    exact exists_realizes_of_finish hfinish
  | cons instruction rest ih =>
    obtain ⟨op, position⟩ := instruction
    obtain ⟨b₁, hstep, hrun⟩ := bind_eq_ok hrun
    obtain ⟨hfollow, hseq⟩ := Bool.and_eq_true_iff.1 hseq
    have hmarked := Builder.arguments_of_mayFollow hfollow
    have hmem : (⟨op, position⟩ : Instruction) ∈ body := by rw [hsplit]; simp
    have hdup : ∀ type, op ≠ .dup type := by
      rintro type rfl
      cases hbody.noDup _ hmem
    have hsplit' : body = (front ++ [⟨op, position⟩]) ++ rest :=
      hsplit.trans (List.append_cons _ _ _)
    have hnew' : ∀ label ∈ definedLabels rest, b.label ≠ some label := fun label hlabel =>
      hnew label (mem_definedLabels_cons hlabel)
    cases Builder.step_rule hdup hstep with
    | inner h =>
      have hadvance := h.advance (I := I) hbody.labels hsplit
        (fun label hop cond arm onZero elseLabel below hstack =>
          secondArm_of_run hstack (by rw [hop]; rfl) hseq hrun)
          (fun index type hop hpending => hanchored.tail_ne_nil hmarked hop hpending)
      obtain ⟨hnodes, hlabel, -⟩ := h.frame
      obtain ⟨tail, htail, hreal⟩ :=
        ih hsplit' hseq hrun (h.anchored hanchored hmarked) (hlabel ▸ hnew')
      exact ⟨tail, hnodes ▸ htail, .of_inner h hadvance hreal⟩
    | exit hexit hstack hpending =>
      obtain ⟨tail, htail, hreal⟩ :=
        ih hsplit' hseq hrun (fun h => absurd hpending h) (fun label _ h => by cases h)
      refine ⟨_ :: tail, htail.trans (List.append_cons _ _ _).symm, ?_⟩
      exact .of_exits hexit hstack hpending (hbody.transfers _ hmem) hnew hreal
    | @label label hstack hpending =>
      have henter : enter body label .plain = .running rest := enter_label hbody.labels hsplit
      have honce : label ∉ definedLabels rest := by
        have hnodup := hbody.labels
        rw [hsplit, definedLabels_append] at hnodup
        exact (List.nodup_cons.1 hnodup.of_append_right).1
      by_cases hblank : b.isBlank
      · rw [if_pos hblank] at hrun
        obtain ⟨tail, htail, hreal⟩ := ih hsplit' hseq hrun (fun h => absurd hpending h)
          (fun l hl h => honce (Option.some.inj h ▸ hl))
        exact ⟨tail, htail, .of_label_blank hstack hpending hblank henter hreal⟩
      · rw [if_neg hblank] at hrun
        obtain ⟨tail, htail, hreal⟩ := ih hsplit' hseq hrun (fun h => absurd hpending h)
          (fun l hl h => honce (Option.some.inj h ▸ hl))
        refine ⟨_ :: tail, htail.trans (List.append_cons _ _ _).symm, ?_⟩
        exact .of_label_jump hstack hpending henter
          (List.mem_filterMap.2 ⟨_, hmem, rfl⟩) hnew hreal

/-! ## Runs -/

variable (I types body) in
/-- A run of nodes stands in front of a node whose instructions the machine is about to execute, or
both have ended. -/
inductive Related : NodeConfig V S → Config V S → Prop
  | running {ahead : List Instruction} {nodes : List Node} {w : World V S}
      (h : Enters I types body ahead nodes) :
      Related ⟨.running nodes, w⟩ ⟨.running ahead, [], w⟩
  | ended {ending : Ending} {w : World V S} : Related ⟨.ended ending, w⟩ ⟨.ended ending, [], w⟩

/-- Related runs are in the same world. -/
theorem Related.world_eq {t : NodeConfig V S} {s : Config V S} (h : Related I types body t s) :
    t.world = s.world := by
  cases h with
  | running => rfl
  | ended => rfl

/-- Two runs that are related have both ended, or both can go on. -/
theorem Related.ended_or_steps {t : NodeConfig V S} {c : Config V S} (h : Related I types body t c)
    (nodes : List Node) :
    (∃ ending, t.place = .ended ending ∧ c.place = .ended ending) ∨
      t.next I nodes ≠ none ∧ c.next I types body ≠ none := by
  cases h with
  | @running ahead nodes' w henters =>
    cases nodes' with
    | nil => exact absurd henters id
    | cons n later =>
      obtain ⟨next, hfollows, -⟩ := henters
      obtain ⟨c', hstep, -⟩ := Relation.TransGen.head'_iff.1 (hfollows w)
      refine .inr ⟨Option.some_ne_none _, ?_⟩
      rw [Option.mem_def.1 hstep]
      exact Option.some_ne_none c'
  | ended => exact .inl ⟨_, rfl, rfl⟩

/-- One step of the nodes is one or more steps of the machine. -/
theorem respects_of_enters {nodes : List Node}
    (hlabels : ∀ label ∈ plainLabels body, ∃ ahead, enter body label .plain = .running ahead ∧
      Enters I types body ahead (nodesFrom nodes label)) :
    Respects (NodeConfig.next I nodes) (Config.next I types body) (Related I types body) := by
  intro t s hrelated
  cases hrelated with
  | ended => rfl
  | @running ahead nodes' w henters =>
    cases nodes' with
    | nil => exact absurd henters id
    | cons n later =>
      obtain ⟨next, hfollows, htargets, hlater⟩ := henters
      have hreaches := hfollows w
      show ∃ c, Related I types body _ c ∧ Reaches₁ _ _ c
      cases hrun : runNode I n w with
      | mk destination w' =>
        rw [hrun] at hreaches
        cases destination with
        | next =>
          have hfalls : n.exit.fallsThrough := fallsThrough_of_leave (congrArg Prod.fst hrun)
          exact ⟨_, .running (hlater hfalls), hreaches⟩
        | label target =>
          obtain ⟨ahead', henter, henters'⟩ :=
            hlabels target (htargets w target (congrArg Prod.fst hrun))
          rw [arrive, henter] at hreaches
          exact ⟨_, .running henters', hreaches⟩
        | ended ending => exact ⟨_, .ended, hreaches⟩

/-- The nodes of a structured body realize it from its start. -/
theorem build_realizes {nodes : List Node} (hbody : Structured body)
    (h : build types body = .ok nodes) : Realizes I types body Builder.start body nodes := by
  obtain ⟨b, hrun, hfinish⟩ := bind_eq_ok h
  obtain ⟨tail, rfl, hreal⟩ :=
    exists_realizes (I := I) hbody (List.nil_append body).symm hbody.sequence hrun hfinish
    (fun h => absurd rfl h) (fun label _ h => by cases h)
  exact hreal

/-- A run that has ended stays where it is. -/
theorem eq_of_reaches_ended {ending : Ending} {stack : List (Entry V)} {w : World V S}
    {c : Config V S} (h : Reaches (Config.next I types body) ⟨.ended ending, stack, w⟩ c) :
    c = ⟨.ended ending, stack, w⟩ := by
  rcases Relation.ReflTransGen.cases_head h with rfl | ⟨c', hstep, -⟩
  · rfl
  · cases hstep

/-- The nodes that are made of a body perform the same operations on the same values in the same
order as its instructions do, and they end in the same way with the same state. No run of either
gets stuck. -/
theorem build_preserves_meaning {nodes : List Node} (hbody : Structured body)
    (h : build types body = .ok nodes) (I : Interpretation V S) (s : S) :
    (∀ events, BodyPerforms I types body s events ↔ NodesPerform I nodes s events) ∧
      (∀ ending w, BodyHalts I types body s ending w ↔ NodesHalt I nodes s ending w) ∧
      (∀ c, Reaches (Config.next I types body) ⟨.running body, [], ⟨s, []⟩⟩ c →
        c.next I types body = none →
        ∃ ending, c.place = .ended ending) ∧
      ∀ t, Reaches (NodeConfig.next I nodes) ⟨.running nodes, ⟨s, []⟩⟩ t → t.next I nodes = none →
        ∃ ending, t.place = .ended ending := by
  have hreal : Realizes I types body Builder.start body nodes := build_realizes hbody h
  have hrespects := respects_of_enters hreal.labels
  have hstart : Related I types body ⟨.running nodes, ⟨s, []⟩⟩ ⟨.running body, [], ⟨s, []⟩⟩ :=
    .running (hreal.entered rfl body (tracks_of_fresh rfl rfl rfl))
  refine ⟨fun events => ⟨?_, ?_⟩, fun ending w => ⟨?_, ?_⟩, fun c hc hnone => ?_,
    fun t ht hnone => ?_⟩
  · rintro ⟨c, hc, hevents⟩
    obtain ⟨t, c', hc', hrelated, ht⟩ := tr_reaches_rev hrespects hstart hc
    refine ⟨t, ht, ?_⟩
    rw [hrelated.world_eq]
    exact hevents.trans (trace_reaches hc')
  · rintro ⟨t, ht, hevents⟩
    obtain ⟨c, hrelated, hc⟩ := tr_reaches hrespects hstart ht
    exact ⟨c, hc, hrelated.world_eq ▸ hevents⟩
  · rintro ⟨stack, hc⟩
    obtain ⟨t, c', hc', hrelated, ht⟩ := tr_reaches_rev hrespects hstart hc
    rw [eq_of_reaches_ended hc'] at hrelated
    cases hrelated
    exact ht
  · intro ht
    obtain ⟨c, hrelated, hc⟩ := tr_reaches hrespects hstart ht
    cases hrelated
    exact ⟨[], hc⟩
  · -- A run that cannot go on stands where a node has led it.
    obtain ⟨t, c', hc', hrelated, -⟩ := tr_reaches_rev hrespects hstart hc
    rcases Relation.ReflTransGen.cases_head hc' with rfl | ⟨c'', hstep, -⟩
    · rcases hrelated.ended_or_steps nodes with ⟨ending, -, hended⟩ | ⟨-, hstep⟩
      · exact ⟨ending, hended⟩
      · exact absurd hnone hstep
    · exact absurd (hstep.symm.trans hnone) (Option.some_ne_none c'')
  · obtain ⟨c, hrelated, -⟩ := tr_reaches hrespects hstart ht
    rcases hrelated.ended_or_steps nodes with ⟨ending, hended, -⟩ | ⟨hstep, -⟩
    · exact ⟨ending, hended⟩
    · exact absurd hnone hstep

end

/-- A loop `for (; x && y; ) x = f(), y ? 2 : 1`, where `f` has no result. -/
def loopBody : List Instruction :=
  [.label (.number 0) .plain,
    .localVar 0 TypeTable.int32 false, .jumpZero (.number 1) true,
    .localVar 1 TypeTable.int32 false, .label (.number 1) .logicalAnd, .jumpZero (.number 2) false,
    .localVar 0 TypeTable.int32 true, .arguments, .call 0 0 ⟨14⟩,
    .localVar 1 TypeTable.int32 false, .jumpNonzero (.number 3) true, .const32 TypeTable.int32 1,
    .jump (.number 4) true, .label (.number 3) .otherwise, .const32 TypeTable.int32 2,
    .label (.number 4) .join, .store TypeTable.int32 0 0, .drop TypeTable.int32,
    .jump (.number 0) false, .label (.number 2) .plain, .ret].map (⟨·, .unknown⟩)

/-- The nodes of the loop: the test, the assignment, and the end. -/
def loopNodes : List Node :=
  let leaf (shape : Shape) : Tree := .mk shape (some TypeTable.int32) .unknown []
  let x := leaf (.localVar 0 false)
  let y := leaf (.localVar 1 false)
  let call := Tree.mk (.call 0 ⟨14⟩ []) none .unknown []
  [⟨some (.number 0), [], .branch (leaf (.logical true x y)) (.number 2) true⟩,
    ⟨none, [.eval (leaf (.store 0 0 (leaf (.localVar 0 true))
      (leaf (.conditional (y.before [call]) (leaf (.const32 2)) (leaf (.const32 1))))))],
        .jump (.number 0)⟩,
    ⟨some (.number 2), [], .ret⟩]

/-- The loop is structured, and its body and its nodes do the same. -/
theorem loopNodes_meaning :
    Structured loopBody ∧ build (TypeTable.empty.internEach [.function [] [] false]) loopBody =
      .ok loopNodes ∧
      ∀ (I : Interpretation Int (List Int)) (s : List Int),
        (∀ events, BodyPerforms I (TypeTable.empty.internEach [.function [] [] false])
          loopBody s events ↔
          NodesPerform I loopNodes s events) ∧
        ∀ ending w, BodyHalts I (TypeTable.empty.internEach [.function [] [] false])
          loopBody s ending w ↔
          NodesHalt I loopNodes s ending w := by
  have hbody : Structured loopBody := by decide
  have hbuild : build (TypeTable.empty.internEach [.function [] [] false]) loopBody =
      .ok loopNodes := rfl
  refine ⟨hbody, hbuild, fun I s => ?_⟩
  obtain ⟨hperforms, hhalts, -⟩ := build_preserves_meaning hbody hbuild I s
  exact ⟨hperforms, hhalts⟩

end StackToGo.Flow
