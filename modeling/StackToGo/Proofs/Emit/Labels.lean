import Mathlib.Data.List.Nodup
import StackToGo.Proofs.Blocks.Cleanup
import StackToGo.Proofs.Blocks.Progress
import StackToGo.Proofs.Emit.Functions
import StackToGo.Proofs.Emit.LocalNames
import StackToGo.Proofs.Flow.Labels
import StackToGo.Proofs.Integer

/-!
# Labels of blocks

A numbered label is spelled as its number and a named one as its name, and no name is spelled as a
number. So different labels stay different (`biUnique_spelled`), and each block has the label and
the targets of its node (`Lowers`). `blocks_valid_iff`: the blocks of a function are valid exactly
if the plain labels of its body are distinct and the jumps between statements name no other label.
-/

namespace StackToGo.Emit

open Identifier

variable {env : Env} {s s' : State}

/-! ## Spelling -/

/-- The label is spelled as the text. -/
def Spelled (env : Env) (label : Label) (text : String) : Prop := Gives env (labelText label) text

/-- A numbered label is spelled by its number, which is not negative. -/
theorem spelled_number_iff {n : Int32} {text : String} :
    Spelled env (.number n) text ↔ 0 ≤ n.toInt ∧ numbered n.toInt.toNat = text := by
  have hlt : n < 0 ↔ n.toInt < 0 := Int32.lt_iff_toInt_lt
  constructor
  · rintro ⟨s, s', -, h⟩
    rw [labelText] at h
    split at h
    case isTrue => exact absurd h not_yields_breach
    case isFalse hn =>
      obtain ⟨rfl, -⟩ := yields_pure.1 h
      have hpos : 0 ≤ n.toInt := not_lt.1 (mt hlt.2 hn)
      refine ⟨hpos, ?_⟩
      rw [numbered, ← Int.toNat_of_nonneg hpos]
      rfl
  · rintro ⟨hpos, rfl⟩
    refine ⟨.start env.target, .start env.target, .refl _, ?_⟩
    rw [labelText, if_neg (mt hlt.1 (not_lt.2 hpos)), yields_pure]
    refine ⟨?_, rfl⟩
    rw [numbered, ← Int.toNat_of_nonneg hpos]
    rfl

/-- A named label is spelled as its name. -/
theorem spelled_named_iff {name : NameId} {text : String} :
    Spelled env (.named name) text ↔ spelling env.dict ⟨name, false, none⟩ = .ok text :=
  gives_identifier_iff

/-- Labels are spelled alike only if they are the same, and each in one way only. -/
theorem biUnique_spelled (hd : env.dict.Distinct) : Relator.BiUnique (Spelled env) := by
  constructor
  · intro label label' text h h'
    cases label with
    | number n =>
      obtain ⟨hn, rfl⟩ := spelled_number_iff.1 h
      cases label' with
      | number n' =>
        obtain ⟨hn', heq⟩ := spelled_number_iff.1 h'
        have hnat := numbered_inj heq
        have hint : n.toInt = n'.toInt := by omega
        rw [Int32.toInt_inj.1 hint]
      | named name => exact absurd rfl (spelling_ne_numbered (spelled_named_iff.1 h') _)
    | named name =>
      have hname := spelled_named_iff.1 h
      cases label' with
      | number n' =>
        obtain ⟨-, heq⟩ := spelled_number_iff.1 h'
        exact absurd heq.symm (spelling_ne_numbered hname _)
      | named name' =>
        have hkey := spelling_inj hd hname (spelled_named_iff.1 h')
        rw [(Key.mk.inj hkey).1]
  · intro label text text' h h'
    cases label with
    | number n => exact (spelled_number_iff.1 h).2.symm.trans (spelled_number_iff.1 h').2
    | named name =>
      exact Except.ok.inj ((spelled_named_iff.1 h).symm.trans (spelled_named_iff.1 h'))

/-! ## Blocks -/

/-- The block has the label of the node, and is left for the same labels. -/
structure Lowers (env : Env) (n : Flow.Node) (b : Go.Block Go.Stmt Go.Expr) : Prop where
  label : Option.Rel (Spelled env) n.label b.label
  /-- The cases of a switch are sorted, so its labels may change places. -/
  targets : ∃ labels, labels.Perm n.exit.targets ∧ List.Forall₂ (Spelled env) labels b.exit.targets
  fallsThrough : b.exit.fallsThrough = n.exit.fallsThrough

/-- The key of a case is its integer, wrapped to the type of the switch. -/
theorem wrap?_of_caseKey {k : Kind} {position : Position} {v : Value} {key : Int}
    (h : Yields env (caseKey k position v) s key s') : v.integer?.bind k.wrap? = some key := by
  have hwrap (n : Int) (h : Yields env (wrapCase k position n) s key s') :
      k.wrap? n = some key := by
    unfold wrapCase at h
    split at h
    · rename_i key' hkey
      rw [hkey, (yields_pure.1 h).1]
    · exact absurd h not_yields_unsupported
  cases v with
  | int32 v => exact hwrap _ h
  | int64 v => exact hwrap _ h
  | _ => exact absurd h not_yields_unsupported

/-- The keys are the integers of the cases, wrapped, with the same labels. -/
theorem keys_of_caseKeys {k : Kind} {position : Position} {cases : List (Value × Label)}
    {keys : List (Int × Label)} (h : Yields env (caseKeys k position cases) s keys s') :
    keys.map (fun c => (some c.1, c.2)) = cases.map fun c => (c.1.integer?.bind k.wrap?, c.2) := by
  induction cases generalizing s keys with
  | nil =>
    rw [caseKeys, yields_pure] at h
    rw [← h.1]
    rfl
  | cons first rest ih =>
    simp only [caseKeys, yields_bind, yields_pure] at h
    obtain ⟨key, s₁, hkey, more, s₂, hmore, rfl, rfl⟩ := h
    rw [List.map_cons, List.map_cons, ih hmore, wrap?_of_caseKey hkey]

/-- A case is written as its integer and the text of its label. -/
def WritesCase (env : Env) (c : Int × Label) (written : Go.Expr × String) : Prop :=
  written.1 = .int c.1 ∧ Spelled env c.2 written.2

/-- The cases of a switch are written one by one. -/
theorem writesCase_of_caseTargets (hs : Reached env s) {cases : List (Int × Label)}
    {texts : List (Go.Expr × String)} (h : Yields env (caseTargets cases) s texts s') :
    List.Forall₂ (WritesCase env) cases texts := by
  induction cases generalizing s texts with
  | nil =>
    rw [caseTargets, yields_pure] at h
    rw [← h.1]
    exact .nil
  | cons first rest ih =>
    simp only [caseTargets, yields_bind, yields_pure] at h
    obtain ⟨text, s₁, htext, more, s₂, hmore, rfl, rfl⟩ := h
    exact .cons ⟨rfl, s, s₁, hs, htext⟩
      (ih (hs.evolves ((steady_labelText _).evolves htext)) hmore)

/-- A switch is written from its cases, sorted by their keys, and its default. -/
theorem exists_writesCase_of_switch (hs : Reached env s) {f : Frame} {v : Tree} {type : TypeId}
    {cases : List (Value × Label)} {default : Label} {lowered : Go.Exit Go.Expr}
    (h : Yields env (nodeExit f (.switch v type cases default)) s lowered s') :
    ∃ k keys scrutinee written text, env.program.types.kind type = .ok k ∧
      keys.map (fun c => (some c.1, c.2)) = cases.map (fun c => (c.1.integer?.bind k.wrap?, c.2)) ∧
      Gives env (expr f .value v) scrutinee ∧
      List.Forall₂ (WritesCase env) (sortCases keys) written ∧
      Spelled env default text ∧ lowered = .switch scrutinee written text := by
  simp only [nodeExit, yields_bind, yields_pure, yields_kind] at h
  obtain ⟨k, _, ⟨hk, rfl⟩, keys, s₁, hkeys, scrutinee, s₂, hscrutinee, written, s₃, hwritten, text,
      s₄, htext, rfl, -⟩ := h
  have hs₁ : Reached env s₁ := hs.evolves ((steady_caseKeys _ _ _).evolves hkeys)
  have hs₂ : Reached env s₂ := hs₁.evolves ((steady_expr f .value v).evolves hscrutinee)
  have hs₃ : Reached env s₃ := hs₂.evolves ((steady_caseTargets _).evolves hwritten)
  exact ⟨k, keys, scrutinee, written, text, hk, keys_of_caseKeys hkeys, ⟨s₁, s₂, hs₁, hscrutinee⟩,
    writesCase_of_caseTargets hs₂ hwritten, ⟨s₃, s₄, hs₃, htext⟩, rfl⟩

/-- An exit is written with the same labels, up to their order, and falls through just if it
did. -/
theorem exit_of_nodeExit (hs : Reached env s) {f : Frame} {exit : Flow.Exit}
    {lowered : Go.Exit Go.Expr} (h : Yields env (nodeExit f exit) s lowered s') :
    (∃ labels, labels.Perm exit.targets ∧ List.Forall₂ (Spelled env) labels lowered.targets) ∧
      lowered.fallsThrough = exit.fallsThrough := by
  cases exit with
  | fallThrough | ret | abort =>
    rw [nodeExit, yields_pure] at h
    rw [← h.1]
    exact ⟨⟨[], .nil, .nil⟩, rfl⟩
  | jump target =>
    simp only [nodeExit, yields_bind, yields_pure] at h
    obtain ⟨text, s₁, htext, rfl, -⟩ := h
    exact ⟨⟨[target], .rfl, .cons ⟨s, s₁, hs, htext⟩ .nil⟩, rfl⟩
  | branch cond target onZero =>
    simp only [nodeExit, yields_bind, yields_pure] at h
    obtain ⟨condition, s₁, hcondition, text, s₂, htext, rfl, -⟩ := h
    have hs₁ := hs.evolves ((steady_truth f cond onZero).evolves hcondition)
    exact ⟨⟨[target], .rfl, .cons ⟨s₁, s₂, hs₁, htext⟩ .nil⟩, rfl⟩
  | switch v type cases default =>
    obtain ⟨k, keys, scrutinee, written, text, -, hkeys, -, hwritten, htext, rfl⟩ :=
      exists_writesCase_of_switch hs h
    have hlabels : keys.map (·.2) = cases.map (·.2) := by
      simpa only [List.map_map, Function.comp_def] using congrArg (List.map Prod.snd) hkeys
    refine ⟨⟨(sortCases keys).map (·.2) ++ [default], ?_, ?_⟩, rfl⟩
    · have hsorted : ((sortCases keys).map (·.2)).Perm (cases.map (·.2)) := by
        rw [← hlabels]
        exact (List.mergeSort_perm keys _).map _
      exact (List.perm_append_singleton default _).trans (hsorted.cons default)
    · have hcases : List.Forall₂ (Spelled env) ((sortCases keys).map (·.2)) (written.map (·.2)) :=
        List.rel_map (fun _ _ hcase => hcase.2) hwritten
      exact List.rel_append hcases (.cons htext .nil)

/-- A block has the label and the exit of its node. -/
theorem lowers_of_block (hs : Reached env s) {f : Frame} {n : Flow.Node}
    {b : Go.Block Go.Stmt Go.Expr} (h : Yields env (block f n) s b s') : Lowers env n b := by
  obtain ⟨hlabel, s₁, s₂, -, -, hs₂, hexit⟩ := exists_yields_of_block hs h
  obtain ⟨htargets, hfalls⟩ := exit_of_nodeExit hs₂ hexit
  exact ⟨hlabel, htargets, hfalls⟩

/-! ## Functions -/

/-- Blocks that nodes are lowered to have the labels of the nodes. -/
theorem spelled_blockLabels {nodes : List Flow.Node} {blocks : List (Go.Block Go.Stmt Go.Expr)}
    (h : List.Forall₂ (Lowers env) nodes blocks) :
    List.Forall₂ (Spelled env) (Flow.nodeLabels nodes) (Go.blockLabels blocks) :=
  List.rel_filterMap (fun _ _ hlowers => hlowers.label) h

/-- The targets of the blocks are those of the nodes, spelled, up to their order. -/
theorem spelled_exitTargets {nodes : List Flow.Node} {blocks : List (Go.Block Go.Stmt Go.Expr)}
    (h : List.Forall₂ (Lowers env) nodes blocks) :
    ∃ labels, labels.Perm (Flow.nodeTargets nodes) ∧
    List.Forall₂ (Spelled env) labels (Go.exitTargets blocks) := by
  induction h with
  | nil => exact ⟨[], .nil, .nil⟩
  | cons hlowers _ ih =>
    obtain ⟨first, hfirst, hspelled⟩ := hlowers.targets
    obtain ⟨later, hlater, hspelled'⟩ := ih
    exact ⟨first ++ later, hfirst.append hlater, List.rel_append hspelled hspelled'⟩

/-- Control does not fall off the end of blocks that the nodes of a body are lowered to. -/
theorem closed_of_lowers {body : List Instruction} {nodes : List Flow.Node}
    {blocks : List (Go.Block Go.Stmt Go.Expr)} (hnodes : Flow.NodesLabelled body nodes)
    (h : List.Forall₂ (Lowers env) nodes blocks) :
    ∀ b ∈ blocks.getLast?, b.exit.fallsThrough = false := by
  intro b hb
  obtain ⟨n, hn, hclosed⟩ := hnodes.closed
  have hlast := List.rel_reverse h
  rw [← List.head?_reverse] at hn hb
  generalize nodes.reverse = nodes', blocks.reverse = blocks' at hn hb hlast
  cases hlast with
  | nil => cases hn
  | cons hlowers _ =>
    obtain rfl := Option.some.inj hn
    obtain rfl := Option.some.inj hb
    exact hlowers.fallsThrough.trans hclosed

/-- If labels stay different, one list of them is part of another exactly if that is so of their
spellings. -/
theorem subset_iff_of_spelled (hd : env.dict.Distinct) {labels labels' : List Label}
    {texts texts' : List String} (h : List.Forall₂ (Spelled env) labels texts)
    (h' : List.Forall₂ (Spelled env) labels' texts') :
    texts ⊆ texts' ↔ labels ⊆ labels' := by
  induction h with
  | nil => simp
  | cons hspelled _ ih =>
    simp only [List.cons_subset, ih, List.rel_mem (biUnique_spelled hd) hspelled h']

open StackToGo.Flow in
/-- The blocks are valid just if labels stand once and all targets are labels. -/
theorem valid_iff_of_lowers (hd : env.dict.Distinct) {body : List Instruction} {nodes : List Node}
    {blocks : List (Go.Block Go.Stmt Go.Expr)} (hnodes : NodesLabelled body nodes)
    (h : List.Forall₂ (Lowers env) nodes blocks) :
    Go.Valid blocks ↔ (plainLabels body).Nodup ∧ jumpTargets body ⊆ plainLabels body := by
  have hlabels := spelled_blockLabels h
  rw [hnodes.labels] at hlabels
  have hnodup : (Go.blockLabels blocks).Nodup ↔ (plainLabels body).Nodup :=
    (List.rel_nodup (biUnique_spelled hd) hlabels).symm
  have hdefined : Go.exitTargets blocks ⊆ Go.blockLabels blocks ↔
      jumpTargets body ⊆ plainLabels body := by
    obtain ⟨labels, hperm, htargets⟩ := spelled_exitTargets h
    rw [subset_iff_of_spelled hd htargets hlabels, hperm.subset_congr_left]
    constructor
    · exact fun hsub => List.Subset.trans hnodes.named hsub
    · exact fun hsub =>
        List.Subset.trans hnodes.targets (List.append_subset.2 ⟨hsub, List.Subset.refl _⟩)
  constructor
  · exact fun hvalid => ⟨hnodup.1 hvalid.nodup, hdefined.1 hvalid.defined⟩
  · rintro ⟨hdistinct, hsub⟩
    exact ⟨hnodup.2 hdistinct, hdefined.2 hsub, closed_of_lowers hnodes h⟩

/-- The blocks of a function are those of its nodes. -/
theorem Writes.lowers {index : Nat} {definition : FunctionDef} {f : Frame} {nodes : List Flow.Node}
    {head : Go.Header} {g : Go.Function Go.Stmt Go.Expr}
    (h : Writes env index definition f nodes head g) :
    List.Forall₂ (Lowers env) nodes g.blocks := by
  obtain ⟨s, s', hs, hblocks⟩ := h.blocks_given
  exact (forall₂_of_mapM (steady_block f) hs hblocks).imp fun _ _ ⟨_, _, hreached, hblock⟩ =>
    lowers_of_block hreached hblock

/-- Blocks of which the last one does not fall through do not fall off the end. -/
theorem validate_ne_fallsOffEnd {blocks : List (Go.Block Go.Stmt Go.Expr)}
    (h : ∀ b ∈ blocks.getLast?, b.exit.fallsThrough = false) :
    Go.validate blocks ≠ .error .fallsOffEnd := by
  have hlast : blocks.getLast?.any (·.exit.fallsThrough) = false := by
    rw [Option.any_eq_false]
    exact h
  rw [Go.validate, hlast]
  split
  · rintro ⟨⟩
  · split <;> rintro ⟨⟩

/-- The clean-up finds that control falls off the end only if it is so of the blocks it is
given. -/
theorem simplify_ne_fallsOffEnd {g : Go.Function Go.Stmt Go.Expr}
    (h : Go.validate g.blocks ≠ .error .fallsOffEnd) (report : Go.Report) :
    g.simplify report ≠ .error .fallsOffEnd := by
  cases hvalidate : Go.validate g.blocks with
  | error fault =>
    rw [Go.Function.simplify_of_invalid hvalidate]
    rintro ⟨⟩
    exact h hvalidate
  | ok _ =>
    have hvalid := (Go.validate_eq_ok_iff g.blocks).1 hvalidate
    obtain ⟨k, -, hk⟩ := Go.exists_settles hvalid
    have hresult := Go.Function.simplify_of_settles report hvalid hk
    split at hresult
    · obtain ⟨report', heq⟩ := hresult
      simp [heq]
    · simp [hresult]

open StackToGo.Flow in
/-- The nodes of a body end in jumps, returns or tests, there is at least one, and their labels are
the plain labels of the body in order. The blocks that are written for them are valid exactly if
these labels are distinct and hold all the labels that statements jump to. Control never falls off
their end. -/
theorem blocks_valid_iff :
    (∀ (types : TypeTable) (body : List Instruction)
      (nodes : List Node), build types body = .ok nodes →
      nodes ≠ [] ∧ (∀ n ∈ nodes, n.exit ≠ .fallThrough) ∧ nodeLabels nodes = plainLabels body) ∧
    ∀ (env : Env) (names : List Bytes) (s s' : State) (index : Nat) (definition : FunctionDef),
      env.dict = .ofList names → Reached env s →
      env.program.objects[index]? = some (.function definition) →
      ¬definition.isStub → Yields env (functionDefinition index definition) s () s' →
      ∃ (nodes : List Node) (g : Go.Function Go.Stmt Go.Expr)
        (items : List (Go.Item Go.Stmt Go.Expr)),
        build env.program.types definition.body = .ok nodes ∧ s'.items = items ++ [.function g] ∧
        s.items <+: items ∧
        (Go.validate g.blocks = .ok () ↔ (plainLabels definition.body).Nodup ∧
          ∀ instruction ∈ definition.body, ∀ label ∈ transferTargets instruction.op,
            label ∈ plainLabels definition.body) ∧
        Go.validate g.blocks ≠ .error .fallsOffEnd ∧ ∀ report,
        g.simplify report ≠ .error .fallsOffEnd := by
  constructor
  · intro types body nodes h
    have hnodes := build_labelled h
    obtain ⟨n, hn, -⟩ := hnodes.closed
    exact ⟨List.ne_nil_of_mem (List.mem_of_getLast? hn), hnodes.exits, hnodes.labels⟩
  · intro env names s s' index definition hdict hs hobject hstub h
    obtain ⟨f, nodes, head, g, items, hwrites, hgrow, hitems⟩ :=
      exists_writes_of_functionDefinition hs h hobject hstub
    have hnodes := build_labelled hwrites.nodes_eq
    have hd : env.dict.Distinct := hdict ▸ Dictionary.distinct_ofList names
    have hclosed := validate_ne_fallsOffEnd (closed_of_lowers hnodes hwrites.lowers)
    refine ⟨nodes, g, items, hwrites.nodes_eq, hitems, hgrow, ?_, hclosed,
      simplify_ne_fallsOffEnd hclosed⟩
    rw [Go.validate_eq_ok_iff, valid_iff_of_lowers hd hnodes hwrites.lowers]
    refine and_congr_right fun _ => ?_
    simp only [jumpTargets, List.subset_def, List.mem_flatMap, forall_exists_index, and_imp]
    exact ⟨fun h i hi l hl => h i hi hl, fun h l i hi hl => h i hi l hl⟩

/-- A step without a result that does not fail leaves the state it ends in. -/
theorem yields_of_isOk {m : Emit Unit} (h : ((m env).perform s).1.isOk) :
    Yields env m s () ((m env).perform s).2 := by
  rw [Yields]
  generalize (m env).perform s = outcome at h
  obtain ⟨result, s'⟩ := outcome
  cases result with
  | error _ => cases h
  | ok _ => rfl

/-- The function `f` that waits until its argument is zero. -/
def waitingFunction : FunctionDef where
  name := ⟨2⟩
  linkage := .unexported
  type := ⟨14⟩
  position := .unknown
  arguments := [⟨1⟩]
  body :=
    [.beginScope, .label (.number 0) .plain, .argument 0 TypeTable.int32 false,
      .jumpZero (.named ⟨1⟩) false,
    .jump (.number 0) false, .label (.named ⟨1⟩) .plain, .endScope].map (⟨·, .unknown⟩)

def waiting : Env where
  dict := .ofList [[0x78], [0x66]]
  program :=
    ⟨TypeTable.empty.internEach [.function [TypeTable.int32] [] false],
      [.function waitingFunction]⟩
  target := ⟨8, false⟩
  options := {}
  qualifier := fun _ _ => ""

/-- The blocks of the function that waits are valid. -/
theorem waiting_blocks_valid : ∃ s' g items,
    Yields waiting (functionDefinition 0 waitingFunction) (.start waiting.target) () s' ∧
      s'.items = items ++ [.function g] ∧ Go.validate g.blocks = .ok () := by
  have hyields :
      Yields waiting (functionDefinition 0 waitingFunction) (.start waiting.target) () _ :=
    yields_of_isOk (by decide +kernel)
  obtain ⟨nodes, g, items, -, hitems, -, hvalid, -⟩ :=
    blocks_valid_iff.2 waiting _ _ _ 0 waitingFunction rfl (.refl _) rfl (by decide) hyields
  exact ⟨_, g, items, hyields, hitems, hvalid.2 (by decide)⟩

end StackToGo.Emit
