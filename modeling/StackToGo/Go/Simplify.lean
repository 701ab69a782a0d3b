import StackToGo.Error
import StackToGo.Go.Block

/-!
# Clean-up of blocks

Blocks made straight from a program jump to the block right after them, to blocks that only jump
on, and have labels that nothing jumps to. Go refuses unused labels, so the clean-up is needed. Six
passes run one after the other, round by round, until a round changes nothing:

* `validate` refuses labels that are defined twice or not at all, and a list that control can fall
  out of;
* `threadJumps` sends jumps to an empty block that only jumps on straight to where it leads;
* `dropAdjacentJumps` lets a jump to the next block fall through;
* `dropDeadLabels` removes labels that no exit names;
* `dropUnreachable` removes blocks that cannot be entered;
* `mergeFallThrough` joins a block with the one it falls through to, if nothing else enters that
  one.
-/

namespace StackToGo.Go

variable {σ ε : Type}

/-- Blocks after a pass, and how much the pass changed. -/
abbrev Changed (σ ε : Type) := List (Block σ ε) × Nat

/-! ## The passes -/

/-- The labels of blocks, in order. -/
def blockLabels (blocks : List (Block σ ε)) : List String := blocks.filterMap (·.label)

/-- The labels that exits name, in order. -/
def exitTargets (blocks : List (Block σ ε)) : List String := blocks.flatMap (·.exit.targets)

/-- The first label that stands a second time, given those seen before. -/
def firstRepeated (seen : List String) : List String → Option String
  | [] => none
  | l :: rest => if l ∈ seen then some l else firstRepeated (l :: seen) rest

/-- Labels are unique, every jump names one of them, and control does not fall off the end. -/
def validate (blocks : List (Block σ ε)) : Except BlockFault Unit :=
  match firstRepeated [] (blockLabels blocks) with
  | some l => .error (.duplicateLabel l)
  | none =>
    match (exitTargets blocks).find? (· ∉ blockLabels blocks) with
    | some l => .error (.undefinedLabel l)
    | none =>
      if blocks.getLast?.any (·.exit.fallsThrough) then .error .fallsOffEnd else .ok ()

/-- Where an empty block with a label jumps on to. A block that jumps to itself leads nowhere. -/
def Block.forward? (b : Block σ ε) : Option (String × String) :=
  match b.label, b.statements, b.exit with
  | some label, [], .jump target => if label = target then none else some (label, target)
  | _, _, _ => none

/-- The labels of the blocks that only jump on, with where they jump to. -/
def forwards (blocks : List (Block σ ε)) : List (String × String) :=
  blocks.filterMap Block.forward?

/-- Follows jumps from `label` for at most `steps` steps; none if they lead on after that. -/
def follow (hops : List (String × String)) : Nat → String → Option String
  | 0, label => if (hops.lookup label).isNone then some label else none
  | steps + 1, label =>
    match hops.lookup label with
    | none => some label
    | some next => follow hops steps next

/-- Where a jump to `label` leads in the end, if it can be sent there. Jumps that go round in a
circle lead nowhere: they are still going after as many steps as there are blocks that only jump
on. -/
def destination (hops : List (String × String)) (label : String) : Option String :=
  if (hops.lookup label).isSome then follow hops hops.length label else none

/-- Sends jumps straight to where they lead in the end. -/
def threadJumps (blocks : List (Block σ ε)) : Changed σ ε :=
  let moved := blocks.map fun b => (b, b.exit.redirect (destination (forwards blocks)))
  (moved.map fun m => { m.1 with exit := m.2.1 }, moved.foldr (·.2.2 + ·) 0)

/-- Does the exit jump to the given label? -/
def Exit.jumpsTo : Exit ε → Option String → Bool
  | .jump target, some label => target == label
  | _, _ => false

/-- Lets a jump to the next block fall through. -/
def dropAdjacentJumps : List (Block σ ε) → Changed σ ε
  | [] => ([], 0)
  | [b] => ([b], 0)
  | b :: next :: rest =>
    let (tail, n) := dropAdjacentJumps (next :: rest)
    if b.exit.jumpsTo next.label then ({ b with exit := .fallThrough } :: tail, n + 1)
      else (b :: tail, n)

/-- Has the block a label that is not among those named? -/
def Block.labelIsDead (named : List String) (b : Block σ ε) : Bool := b.label.any (· ∉ named)

/-- Removes labels that no exit names. -/
def dropDeadLabels (blocks : List (Block σ ε)) : Changed σ ε :=
  let named := exitTargets blocks
  (blocks.map fun b => if b.labelIsDead named then { b with label := none } else b,
    blocks.countP (·.labelIsDead named))

/-- The blocks after `previous` that can be entered, with it in front. -/
def keepReachable (previous : Block σ ε) : List (Block σ ε) → List (Block σ ε)
  | [] => [previous]
  | b :: rest =>
    if b.label.isNone && !previous.exit.fallsThrough then keepReachable previous rest
    else previous :: keepReachable b rest

/-- Removes blocks without a label after a block that control does not go on from. -/
def dropUnreachable : List (Block σ ε) → Changed σ ε
  | [] => ([], 0)
  | b :: rest =>
    let kept := keepReachable b rest
    (kept, rest.length + 1 - kept.length)

/-- Joins the blocks after `previous` with it, and with each other, as far as they fall through. -/
def joinBlocks (previous : Block σ ε) : List (Block σ ε) → List (Block σ ε)
  | [] => [previous]
  | b :: rest =>
    if b.label.isNone && previous.exit.isFallThrough then
      joinBlocks
        { previous with statements := previous.statements ++ b.statements, exit := b.exit } rest
    else if previous.label.isNone && previous.statements.isEmpty &&
        previous.exit.isFallThrough then
      joinBlocks b rest
    else previous :: joinBlocks b rest

/-- Joins a block without a label to the block that falls through to it; an empty block without a
label that falls through vanishes. -/
def mergeFallThrough : List (Block σ ε) → Changed σ ε
  | [] => ([], 0)
  | b :: rest =>
    let joined := joinBlocks b rest
    (joined, rest.length + 1 - joined.length)

/-! ## Rounds -/

/-- A pass. -/
inductive Pass where
  | validate | threadJumps | dropAdjacentJumps | dropDeadLabels | dropUnreachable
  | mergeFallThrough
  deriving DecidableEq, Repr

/-- The name of a pass in reports. -/
def Pass.name : Pass → String
  | .validate => "validate"
  | .threadJumps => "thread_jumps"
  | .dropAdjacentJumps => "drop_adjacent_gotos"
  | .dropDeadLabels => "drop_dead_labels"
  | .dropUnreachable => "drop_unreachable"
  | .mergeFallThrough => "merge_fallthrough"

/-- The passes of a round, in order. -/
def Pass.all : List Pass :=
  [.validate, .threadJumps, .dropAdjacentJumps, .dropDeadLabels, .dropUnreachable,
    .mergeFallThrough]

/-- Runs one pass. -/
def Pass.run (p : Pass) (blocks : List (Block σ ε)) : Except BlockFault (Changed σ ε) :=
  match p with
  | .validate => (Go.validate blocks).map fun _ => (blocks, 0)
  | .threadJumps => .ok (Go.threadJumps blocks)
  | .dropAdjacentJumps => .ok (Go.dropAdjacentJumps blocks)
  | .dropDeadLabels => .ok (Go.dropDeadLabels blocks)
  | .dropUnreachable => .ok (Go.dropUnreachable blocks)
  | .mergeFallThrough => .ok (Go.mergeFallThrough blocks)

/-- What clean-up has done so far. A pass that has not run is not listed. -/
structure Report where
  changes : Nat
  rounds : Nat
  passes : List (Pass × Nat)
  deriving DecidableEq, Repr

/-- Nothing done yet. -/
def Report.empty : Report := ⟨0, 0, []⟩

/-- Adds the changes of a pass. -/
def Report.count (r : Report) (p : Pass) (n : Nat) : Report :=
  if (r.passes.lookup p).isSome then
    { r with passes := r.passes.map fun e => if e.1 = p then (p, e.2 + n) else e }
  else { r with passes := r.passes ++ [(p, n)] }

/-- What clean-up left of the blocks of a function, and the fault that stopped it, if one did. -/
structure Outcome (σ ε : Type) where
  report : Report
  blocks : List (Block σ ε)
  fault : Option BlockFault

/-- Runs passes one after the other, up to the first fault. Also counts their changes. -/
def runPasses (report : Report) (blocks : List (Block σ ε)) (total : Nat) :
    List Pass → Outcome σ ε × Nat
  | [] => (⟨report, blocks, none⟩, total)
  | p :: rest =>
    match p.run blocks with
    | .error fault => (⟨report, blocks, some fault⟩, total)
    | .ok (changed, n) => runPasses (report.count p n) changed (total + n) rest

/-- Runs rounds until one changes nothing, at most `limit` more. -/
def runRounds (rounds : Nat) (report : Report) (blocks : List (Block σ ε)) : Nat → Outcome σ ε
  | 0 => ⟨report, blocks, some (.noFixpoint rounds)⟩
  | limit + 1 =>
    let (outcome, n) := runPasses { report with rounds := report.rounds + 1 } blocks 0 Pass.all
    match outcome.fault with
    | some _ => outcome
    | none =>
      let report := { outcome.report with changes := outcome.report.changes + n }
      if n = 0 then { outcome with report := report }
        else runRounds rounds report outcome.blocks limit

/-- How many rounds may run on one function. -/
def maxRounds : Nat := 64

/-- Cleans up the blocks of a function, and adds to a report. -/
def simplify (report : Report) (blocks : List (Block σ ε)) : Outcome σ ε :=
  runRounds maxRounds report blocks maxRounds

/-- Cleans up a function. Nothing but its blocks changes. -/
def Function.simplify (report : Report) (f : Function σ ε) :
    Except BlockFault (Report × Function σ ε) :=
  let outcome := Go.simplify report f.blocks
  match outcome.fault with
  | some fault => .error fault
  | none => .ok (outcome.report, { f with blocks := outcome.blocks })

/-- Cleans up every function of a file, up to the first fault. -/
def simplifyItems (report : Report) : List (Item σ ε) → Except Error (Report × List (Item σ ε))
  | [] => .ok (report, [])
  | .function f :: rest =>
    match f.simplify report with
    | .error fault => .error (.blocks (some f.name) fault)
    | .ok (report, f) => do
      let (report, rest) ← simplifyItems report rest
      return (report, .function f :: rest)
  | item :: rest => do
    let (report, rest) ← simplifyItems report rest
    return (report, item :: rest)

end StackToGo.Go
