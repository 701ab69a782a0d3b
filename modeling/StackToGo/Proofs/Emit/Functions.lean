import Mathlib.Data.Option.Defs
import StackToGo.Proofs.Emit.Evolution

/-!
# What is written for a function

A function that is no stub gets one Go function: the frame says what is known about it, the builder
makes nodes of its body, and header and blocks are written from these. `Writes` names the parts, so
that what is proved about one of them does not depend on the others.
-/

namespace StackToGo.Emit

variable {env : Env} {s s' : State}

/-- What steps give that are taken for the members of a list one after the other. -/
theorem forall₂_of_mapM {α β : Type} {m : α → Emit β} (hm : ∀ a, Steady (m a)) (hs : Reached env s)
    {list : List α} {results : List β} (h : Yields env (list.mapM m) s results s') :
    List.Forall₂ (fun a b => Gives env (m a) b) list results := by
  induction list generalizing s results with
  | nil =>
    rw [List.mapM_nil, yields_pure] at h
    rw [← h.1]
    exact .nil
  | cons a rest ih =>
    simp only [List.mapM_cons, yields_bind, yields_pure] at h
    obtain ⟨b, s₁, hb, more, s₂, hmore, rfl, rfl⟩ := h
    exact .cons ⟨s, s₁, hs, hb⟩ (ih (hs.evolves ((hm a).evolves hb)) hmore)

/-- A block is written from its label, its statements and its exit, in this order. -/
theorem exists_yields_of_block (hs : Reached env s) {f : Frame} {n : Flow.Node}
    {b : Go.Block Go.Stmt Go.Expr} (h : Yields env (block f n) s b s') :
    Option.Rel (fun l text => Gives env (labelText l) text) n.label b.label ∧
      ∃ s₁ s₂, Reached env s₁ ∧ Yields env (nodeStatements f n.statements) s₁ b.statements s₂ ∧
        Reached env s₂ ∧ Yields env (nodeExit f n.exit) s₂ b.exit s' := by
  rw [block] at h
  obtain ⟨label, s₁, hs₁, hlabel, h⟩ : ∃ label s₁, Reached env s₁ ∧
      Option.Rel (fun l text => Gives env (labelText l) text) n.label label ∧
      Yields env (do
        let statements ← nodeStatements f n.statements
        return ⟨label, statements, ← nodeExit f n.exit⟩) s₁ b s' := by
    cases hn : n.label with
    | none =>
      rw [hn, yields_bind] at h
      obtain ⟨label, s₁, hpure, h⟩ := h
      obtain ⟨rfl, rfl⟩ := yields_pure.1 hpure
      exact ⟨none, s, hs, .none, h⟩
    | some l =>
      rw [hn, yields_bind] at h
      obtain ⟨label, s₁, htext, h⟩ := h
      obtain ⟨text, hspelled, rfl⟩ := yields_map.1 htext
      exact ⟨some text, s₁, hs.evolves ((steady_labelText l).evolves hspelled),
        .some ⟨s, s₁, hs, hspelled⟩, h⟩
  simp only [yields_bind, yields_pure] at h
  obtain ⟨statements, s₂, hstatements, exit, s₃, hexit, rfl, rfl⟩ := h
  exact ⟨hlabel, s₁, s₂, hs₁, hstatements,
    hs₁.evolves ((steady_nodeStatements f _).evolves hstatements), hexit⟩

/-- The Go function `g` has the header and the blocks that are written for a definition with the
given frame and nodes. -/
structure Writes (env : Env) (index : Nat) (definition : FunctionDef) (f : Frame)
    (nodes : List Flow.Node) (head : Go.Header) (g : Go.Function Go.Stmt Go.Expr) : Prop where
  frame_eq : Frame.ofDefinition env.program.types index definition = .ok f
  nodes_eq : Flow.build env.program.types definition.body = .ok nodes
  head_given : Gives env (header f g.name) head
  header_eq : g.header = head.text
  blocks_given : Gives env (nodes.mapM (block f)) g.blocks

/-- The step that writes an object, apart from what is noted about it. -/
def definitionOf (index : Nat) : Object → Emit Unit
  | .function definition => functionDefinition index definition
  | .data definition => dataDefinition definition

/-- An object that is written without an error is noted first. -/
theorem exists_yields_of_objectDefinition {index : Nat} {o : Object} {u : Unit}
    (h : Yields env (objectDefinition index o) s u s') : ∃ s₁,
      Yields env (note (.object index (env.dict.displayName o.name))) s () s₁ ∧
        Yields env (definitionOf index o) s₁ () s' := by
  simp only [objectDefinition, yields_bind, yields_read] at h
  obtain ⟨_, _, ⟨rfl, rfl⟩, ⟨⟩, s₁, hnote, hwrite⟩ := h
  refine ⟨s₁, hnote, ?_⟩
  have hrun :
      Yields env (fun env => (definitionOf index o env).mapError
        (.inObject (env.dict.displayName o.name)))
      s₁ u s' := by
    cases o <;> exact hwrite
  rw [Yields, Action.perform_mapError, Prod.mk.injEq] at hrun
  obtain ⟨hok, hstate⟩ := hrun
  refine Prod.ext ?_ hstate
  cases hresult : ((definitionOf index o env).perform s₁).1 with
  | error e =>
    rw [hresult] at hok
    cases hok
  | ok u => rfl

/-- A function that is no stub is written from its frame and its nodes: first its name and its
header, then what is declared in it, then its blocks. -/
theorem exists_yields_of_functionDefinition (hs : Reached env s) {index : Nat}
    {definition : FunctionDef} {u : Unit}
    (h : Yields env (functionDefinition index definition) s u s')
    (hobject : env.program.objects[index]? = some (.function definition))
    (hstub : ¬definition.isStub) :
    ∃ f nodes name head comment locals blocks s₁ s₂ s₃ s₄ s₅,
      Frame.ofDefinition env.program.types index definition = .ok f ∧
      Flow.build env.program.types definition.body = .ok nodes ∧
      Yields env (package? index >>= fun _ => note (.nodesBuilt nodes.length)) s () s₁ ∧
      Yields env (identifier definition.name definition.linkage.isExported none) s₁ name s₂ ∧
      Yields env (header f name) s₂ head s₃ ∧
      Yields env (positionComment definition.position >>= fun comment => (comment, ·) <$>
        localLines f.locals) s₃
        (comment, locals) s₄ ∧
      Yields env (nodes.mapM (block f)) s₄ blocks s₅ ∧
      s' = { s₅ with
        items := s₅.items ++ [.function ⟨name, head.text, comment, locals, blocks⟩] } := by
  rw [functionDefinition, yields_bind] at h
  obtain ⟨package, s₁, hpackage, h⟩ := h
  have hnone : package.isSome = false := by
    rw [hs.package?_isSome hpackage, Env.isStub, hobject]
    simpa using hstub
  simp only [hnone, Bool.false_eq_true, if_false, yields_bind, yields_types, yields_lift] at h
  obtain ⟨table, s₂, ⟨rfl, rfl⟩, f, s₃, ⟨hf, rfl⟩, nodes, s₄, ⟨hnodes, rfl⟩, ⟨⟩, s₅, hnote, name,
    s₆, hname, head, s₇, hhead, comment, s₈, hcomment, locals, s₉, hlocals, blocks, s₁₀,
    hblocks, hitem⟩ := h
  rw [addItem, yields_modify] at hitem
  exact ⟨f, nodes, name, head, comment, locals, blocks, s₅, s₆, s₇, s₉, s₁₀, hf, hnodes,
    yields_bind.2 ⟨package, _, hpackage, hnote⟩, hname, hhead,
    yields_bind.2 ⟨comment, s₈, hcomment, yields_map.2 ⟨locals, hlocals, rfl⟩⟩,
    hblocks, hitem.symm⟩

/-- A function that is no stub is written at the end of the file. -/
theorem exists_writes_of_functionDefinition (hs : Reached env s) {index : Nat}
    {definition : FunctionDef} {u : Unit}
    (h : Yields env (functionDefinition index definition) s u s')
    (hobject : env.program.objects[index]? = some (.function definition))
    (hstub : ¬definition.isStub) :
    ∃ f nodes head g items, Writes env index definition f nodes head g ∧ s.items <+: items ∧
      s'.items = items ++ [.function g] := by
  obtain ⟨f, nodes, name, head, comment, locals, blocks, s₁, s₂, s₃, s₄, s₅, hf, hnodes, hs₁,
    hname, hhead, hlocals, hblocks, rfl⟩ := exists_yields_of_functionDefinition hs h hobject hstub
  have hs₂ : Evolves env s s₂ :=
    ((steady_bind (steady_package? index) fun _ => steady_note _).evolves hs₁).trans
      ((steady_identifier _ _ _).evolves hname)
  have hs₄ : Evolves env s s₄ := (hs₂.trans ((steady_header f name).evolves hhead)).trans
    ((steady_bind (steady_positionComment _) fun _ => steady_map _ (steady_localLines _)).evolves
      hlocals)
  have hs₅ : Evolves env s s₅ := hs₄.trans ((steady_mapM (steady_block f) nodes).evolves hblocks)
  refine ⟨f, nodes, head, ⟨name, head.text, comment, locals, blocks⟩, s₅.items, ?_,
    hs₅.items_grow, rfl⟩
  exact ⟨hf, hnodes, ⟨s₂, s₃, hs.evolves hs₂, hhead⟩, rfl, ⟨s₄, s₅, hs.evolves hs₄, hblocks⟩⟩

end StackToGo.Emit
