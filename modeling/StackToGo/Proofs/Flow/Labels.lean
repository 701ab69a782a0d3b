import StackToGo.Proofs.Flow.Pending

/-!
# Labels of nodes

A plain label begins a node wherever it stands, so the labels of the nodes are the plain labels of
the body, in order. An exit names what a jump between statements names, or the plain label that the
node goes on to. The last node always ends the run or jumps: after any other exit the builder adds
a node that returns.

`Labelled` says this of the nodes so far, and each instruction keeps it. Nothing is asked of the
body, since labels are not resolved while nodes are built: `build_labelled` also holds where a
label stands twice or is not defined at all.
-/

namespace StackToGo.Flow

/-- The labels that an exit names. -/
def Exit.targets : Exit → List Label
  | .jump target => [target]
  | .branch _ target _ => [target]
  | .switch _ _ cases default => default :: cases.map (·.2)
  | _ => []

/-- The labels of nodes, in order. -/
def nodeLabels (nodes : List Node) : List Label := nodes.filterMap (·.label)

/-- The labels that the exits of nodes name. -/
def nodeTargets (nodes : List Node) : List Label := nodes.flatMap (·.exit.targets)

/-- The labels that the jumps between statements name. -/
def jumpTargets (body : List Instruction) : List Label := body.flatMap (transferTargets ·.op)

/-- The labels between statements of two bodies in a row. -/
theorem plainLabels_append (front back : List Instruction) :
    plainLabels (front ++ back) = plainLabels front ++ plainLabels back := List.filterMap_append

/-- The targets of a body with one more instruction. -/
theorem jumpTargets_concat (front : List Instruction) (instruction : Instruction) :
    jumpTargets (front ++ [instruction]) =
      jumpTargets front ++ transferTargets instruction.op := by
  simp [jumpTargets]

/-- The labels of nodes with one more node. -/
theorem nodeLabels_concat (nodes : List Node) (n : Node) :
    nodeLabels (nodes ++ [n]) = nodeLabels nodes ++ n.label.toList := by
  cases h : n.label <;> simp [nodeLabels, h]

/-- The targets of nodes with one more node. -/
theorem nodeTargets_concat (nodes : List Node) (n : Node) :
    nodeTargets (nodes ++ [n]) = nodeTargets nodes ++ n.exit.targets := by
  simp [nodeTargets]

namespace Builder

variable {types : TypeTable} {b b' : Builder} {position : Position} {op : Op}
  {front : List Instruction}

/-! ## What an instruction has to do with labels -/

/-- An instruction inside a node does not leave it. -/
theorem Inner.transferTargets_eq (h : Inner types b position op b') : transferTargets op = [] := by
  cases h with
  | idle h | operate _ h | call h | callStatement h | callEffect h => cases op <;> first
    | rfl
    | cases h
  | @guard _ _ onZero => cases onZero <;> rfl
  | @logical _ _ _ isAnd => cases isAnd <;> rfl
  | _ => rfl

/-- An exit names the targets of its instruction. -/
theorem Exits.targets_eq {operands : List Tree} {exit : Exit} (h : Exits op operands exit) :
    exit.targets = transferTargets op := by
  cases h with
  | branch cond label onZero => cases onZero <;> rfl
  | _ => rfl

/-- An instruction that ends a node does not fall through. -/
theorem Exits.ne_fallThrough {operands : List Tree} {exit : Exit} (h : Exits op operands exit) :
    exit ≠ .fallThrough := by
  rintro rfl
  cases h

/-! ## Nodes so far -/

/-- The nodes have the labels and targets of the instructions that have been run. -/
structure Labelled (front : List Instruction) (b : Builder) : Prop where
  /-- Every plain label so far begins a node; the last one may begin the node being filled. -/
  labels : nodeLabels b.nodes ++ b.label.toList = plainLabels front
  exits : ∀ n ∈ b.nodes, n.exit ≠ .fallThrough
  /-- All targets of jumps are named. -/
  named : jumpTargets front ⊆ nodeTargets b.nodes
  /-- Beside them only plain labels are, by the nodes that go on to them. -/
  targets : nodeTargets b.nodes ⊆ jumpTargets front ++ plainLabels front

/-- Nothing is labelled at the start. -/
theorem labelled_start : Labelled [] start where
  labels := rfl
  exits n hn := by cases hn
  named := List.nil_subset _
  targets := List.nil_subset _

/-- An instruction that neither leaves a node nor begins one. -/
theorem Labelled.within (h : Labelled front b) (hnodes : b'.nodes = b.nodes)
    (hlabel : b'.label = b.label) (htargets : transferTargets op = [])
    (hplain : ∀ label, op ≠ .label label .plain) :
    Labelled (front ++ [⟨op, position⟩]) b' := by
  have hlabels : plainLabels (front ++ [⟨op, position⟩]) = plainLabels front := by
    rw [plainLabels_append, plainLabels_cons hplain]
    exact List.append_nil _
  have hjumps : jumpTargets (front ++ [⟨op, position⟩]) = jumpTargets front := by
    rw [jumpTargets_concat, htargets, List.append_nil]
  obtain ⟨hl, he, hn, ht⟩ := h
  constructor <;> simp only [hlabels, hjumps, hnodes, hlabel] <;> assumption

/-- An exit adds the targets of its instruction. -/
theorem Labelled.exit {operands : List Tree} {exit : Exit} {stack : List Slot}
    (h : Labelled front b) (hexit : Exits op operands exit) :
    Labelled (front ++ [⟨op, position⟩]) ({ b with stack }.endNode exit) := by
  have hlabels : plainLabels (front ++ [⟨op, position⟩]) = plainLabels front := by
    rw [plainLabels_append, plainLabels_cons hexit.not_plain]
    exact List.append_nil _
  refine ⟨?_, fun n hn => ?_, ?_, ?_⟩
  · rw [hlabels, ← h.labels]
    simp [endNode, nodeLabels_concat]
  · rcases List.mem_append.1 hn with hn | hn
    · exact h.exits n hn
    · rw [List.mem_singleton.1 hn]
      exact hexit.ne_fallThrough
  · rw [jumpTargets_concat, endNode, nodeTargets_concat, hexit.targets_eq]
    exact List.append_subset.2 ⟨List.Subset.trans h.named (List.subset_append_left _ _),
      List.subset_append_right _ _⟩
  · rw [hlabels, jumpTargets_concat, endNode, nodeTargets_concat, hexit.targets_eq]
    refine List.append_subset.2 ⟨fun label hlabel => ?_, fun label hlabel => by simp [hlabel]⟩
    exact (List.mem_append.1 (h.targets hlabel)).elim (fun hjump => by simp [hjump]) fun hplain =>
      by simp [hplain]

/-- A plain label begins a node. The node before it, if it is not blank, goes on to the label. -/
theorem Labelled.label (h : Labelled front b) (label : Label) :
    Labelled (front ++ [⟨.label label .plain, position⟩])
      { (if b.isBlank then b else b.endNode (.jump label)) with label := some label } := by
  have hlabels : plainLabels (front ++ [⟨.label label .plain, position⟩]) =
      plainLabels front ++ [label] := by
    rw [plainLabels_append]
    rfl
  have hjumps : jumpTargets (front ++ [⟨.label label .plain, position⟩]) = jumpTargets front := by
    rw [jumpTargets_concat]
    exact List.append_nil _
  by_cases hblank : b.isBlank
  · have hnone : b.label = none := (isBlank_iff.1 hblank).1
    rw [if_pos hblank]
    refine ⟨?_, h.exits, hjumps ▸ h.named, ?_⟩
    · rw [hlabels, ← h.labels, hnone]
      simp
    · rw [hjumps, hlabels, ← List.append_assoc]
      exact List.Subset.trans h.targets (List.subset_append_left _ _)
  · rw [if_neg hblank]
    refine ⟨?_, fun n hn => ?_, ?_, ?_⟩
    · rw [hlabels, ← h.labels]
      simp [endNode, nodeLabels_concat]
    · rcases List.mem_append.1 hn with hn | hn
      · exact h.exits n hn
      · rw [List.mem_singleton.1 hn]
        rintro ⟨⟩
    · rw [hjumps, endNode, nodeTargets_concat]
      exact List.Subset.trans h.named (List.subset_append_left _ _)
    · rw [hjumps, hlabels, endNode, nodeTargets_concat, ← List.append_assoc]
      exact List.append_subset.2 ⟨List.Subset.trans h.targets (List.subset_append_left _ _),
        List.subset_append_right _ _⟩

/-- Every step adds the labels and targets of its instruction. -/
theorem step_labelled (h : b.step types ⟨op, position⟩ = .ok b') (hb : Labelled front b) :
    Labelled (front ++ [⟨op, position⟩]) b' := by
  rcases rule_or_dup h with hrule | ⟨type, address, below, rfl, hstack, hpending, rfl⟩
  · cases hrule with
    | inner hinner =>
      obtain ⟨hnodes, hlabel, -⟩ := hinner.frame
      exact hb.within hnodes hlabel hinner.transferTargets_eq hinner.not_plain
    | exit hexit hstack hpending => exact hb.exit hexit
    | label hstack hpending => exact hb.label _
  · exact hb.within rfl rfl rfl nofun

/-- After a run the nodes have the labels and targets of its instructions. -/
theorem run_labelled (h : start.run types front = .ok b) : Labelled front b :=
  run_induction labelled_start (fun _ _ _ _ _ hb hstep => step_labelled hstep hb) h

end Builder

/-- What the nodes of a body have of its labels, and how the last one is left. -/
structure NodesLabelled (body : List Instruction) (nodes : List Node) : Prop where
  labels : nodeLabels nodes = plainLabels body
  exits : ∀ n ∈ nodes, n.exit ≠ .fallThrough
  named : jumpTargets body ⊆ nodeTargets nodes
  targets : nodeTargets nodes ⊆ jumpTargets body ++ plainLabels body
  closed : ∃ n, nodes.getLast? = some n ∧ n.exit.fallsThrough = false

/-- The nodes of a body have its labels and targets. -/
theorem build_labelled {types : TypeTable} {body : List Instruction} {nodes : List Node}
    (h : build types body = .ok nodes) : NodesLabelled body nodes := by
  obtain ⟨b, hrun, hfinish⟩ := bind_eq_ok h
  have hb := Builder.run_labelled hrun
  obtain ⟨-, -, ⟨rfl, hblank, hlast⟩ | rfl⟩ := Builder.finish_eq_ok hfinish
  · refine ⟨?_, hb.exits, hb.named, hb.targets, by simpa [Option.any_eq_true] using hlast⟩
    rw [← hb.labels, (Builder.isBlank_iff.1 hblank).1, Option.toList_none, List.append_nil]
  · refine ⟨?_, fun n hn => ?_, ?_, ?_, ⟨_, List.getLast?_concat, rfl⟩⟩
    · rw [nodeLabels_concat, ← hb.labels]
    · rcases List.mem_append.1 hn with hn | hn
      · exact hb.exits n hn
      · rw [List.mem_singleton.1 hn]
        rintro ⟨⟩
    · rw [nodeTargets_concat]
      exact List.Subset.trans hb.named (List.subset_append_left _ _)
    · rw [nodeTargets_concat]
      exact List.append_subset.2 ⟨hb.targets, List.nil_subset _⟩

end StackToGo.Flow
