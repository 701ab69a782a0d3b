import StackToGo.Proofs.Emit.Reading
import StackToGo.Proofs.Flow.Duplicates

/-!
# The address of a store is computed once

The marks of the Go code of a tree are those of the tree (`matching`), so a store that computes its
address once is one definition of `p`, and each second use of the address is a `p` in the scope of
that definition.
-/

namespace StackToGo.Emit

/-- What is related part by part is related as a whole. -/
theorem forall₂_flatten {α β γ : Type} {R : β → γ → Prop} {f : α → List β} {list : List α}
    {parts : List (List γ)}
    (h : List.Forall₂ (fun a part => List.Forall₂ R (f a) part) list parts) :
    List.Forall₂ R (list.flatMap f) parts.flatten := by
  induction h with
  | nil => exact .nil
  | cons hfirst _ ih => exact List.rel_append hfirst ih

/-- The code of a tree has the marks of the tree. -/
def matching : Reading where
  holds σ t marks := List.Forall₂ (Matches σ.env σ.frame) (t.marks σ.within) marks
  plain hplain hcomma hown hoperands := by
    rw [Tree.marks_mk, Shape.marks_of_plain hplain]
    exact List.rel_append (forall₂_flatten hcomma)
      (List.rel_append hown.matched (forall₂_flatten hoperands))
  compound hcomma hgives htarget hvalue := by
    rw [Tree.marks_mk, Shape.marks_compound]
    exact List.rel_append (forall₂_flatten hcomma)
      (List.rel_append htarget (.cons (.bind hgives) (.cons (.use hgives) hvalue)))

/-! ## Statements and exits -/

/-- What a tree is rendered as. -/
inductive Rendering where
  | statement
  /-- The condition of a jump that is taken when the value is zero, or when it is not. -/
  | condition (zero : Bool)
  /-- The value that a switch looks at. -/
  | scrutinee

/-- Renders a tree, and gives the marks of the Go code. Outside of it `p` is not bound. -/
def Rendering.marks (f : Frame) (t : Tree) : Rendering → Emit (List Go.Mark)
  | .statement => (Go.Stmt.marksAll · none) <$> Emit.statement f t
  | .condition zero => (·.marks none) <$> truth f t zero
  | .scrutinee => (·.marks none) <$> expr f .value t

/-- Rendering a tree is steady. -/
theorem Rendering.steady (f : Frame) (t : Tree) (r : Rendering) : Steady (r.marks f t) := by
  cases r with
  | statement => exact steady_map _ (steady_statement f t)
  | condition zero => exact steady_map _ (steady_truth f t zero)
  | scrutinee => exact steady_map _ (steady_expr f .value t)

/-- The marks of the code of a tree are those of the tree. -/
theorem Rendering.marks_match {env : Env} {f : Frame} {t : Tree} {r : Rendering} {s s' : State}
    {marks : List Go.Mark} (hs : Reached env s) (h : Yields env (r.marks f t) s marks s') :
    List.Forall₂ (Matches env f) (t.marks []) marks := by
  let σ : Scene := ⟨env, f, [], none⟩
  have hadmits : σ.Admits s := .outside hs
  obtain ⟨hreads, hruns⟩ := matching.reads_and_runs t σ
  cases r with
  | statement =>
    obtain ⟨list, hlist, rfl⟩ := yields_map.1 h
    exact (hruns s list s' hadmits hlist).2
  | condition zero =>
    obtain ⟨x, hx, rfl⟩ := yields_map.1 h
    exact σ.ensures_truthOf (P := matching.holds σ t) (steady_expr f .value t)
      (hreads .value) t zero s x s' hadmits hx
  | scrutinee =>
    obtain ⟨x, hx, rfl⟩ := yields_map.1 h
    exact hreads .value s x s' hadmits hx

/-- In a tree that is rendered, each second use is inside the value of one store, whose address it
stands for. -/
theorem origin_of_rendered {env : Env} {f : Frame} {g : Position → Position} {t : Tree}
    {marks : List Go.Mark} (hclosed : t.Closed [])
    (h : List.Forall₂ (Matches env f) ((t.relocate g).marks []) marks) {origin : Position}
    {within : List Compound} (huse : .use origin within ∈ t.marks []) :
    within.map (·.origin) = [origin] := by
  have hmatched : ∀ m ∈ t.marks [], ∃ m', Matches env f (m.relocate g) m' := by
    intro m hm
    have hmoved : (t.relocate g).marks [] = (t.marks []).map (Tree.Mark.relocate g) :=
      Tree.marks_relocate g t []
    obtain ⟨m', -, hm'⟩ := exists_mem_of_forall₂ h (hmoved ▸ List.mem_map_of_mem hm)
    exact ⟨m', hm'⟩
  have hstray : .stray ∉ t.marks [] := by
    intro hmem
    obtain ⟨m', hm'⟩ := hmatched _ hmem
    cases hm'
  have hone : ∃ c, within = [c] := by
    obtain ⟨m', hm'⟩ := hmatched _ huse
    have hlength : within.length = 1 := by
      cases within with
      | nil => cases hm'
      | cons c rest =>
        cases rest with
        | nil => rfl
        | cons c' rest => cases hm'
    exact List.length_eq_one_iff.1 hlength
  obtain ⟨c, rfl⟩ := hone
  obtain ⟨inner, hinner, hin⟩ := hclosed.origin_of_use hstray huse
  rw [List.append_nil] at hinner
  subst hinner
  simpa [eq_comm] using hin

open StackToGo.Flow in
/-- For every body that the builder accepts, and every way to render its statements and exits.

`nodes'` are the nodes of the body with its instructions numbered, so that the position of a tree
tells which instruction made it. A duplication makes one address and one second use. A second use
in a tree that is rendered is inside the value of exactly one store that computes its address once,
and the address of that store is the one that the same duplication made. In the Go code that
address is computed by one definition of `p`, and each use of the address is a `p` in the scope of
that definition; each name that the tree refers to is in the code once. The number of open stores
is the same before and after, whether the tree is rendered or refused. -/
theorem duplicates_kept_once {types : TypeTable} {body : List Instruction} {nodes : List Node}
    (h : build types body = .ok nodes) :
    ∃ nodes', build types (numbered body) = .ok nodes' ∧
      nodes = nodes'.map (Node.relocate (positionAt body)) ∧
      (∀ part index, Tree.countAll part (place index) (nodes'.flatMap Node.trees) =
        if body[index]?.any (isDuplication ·.op) then 1 else 0) ∧
      ∀ t ∈ nodes'.flatMap Node.trees, ∀ (env : Env) (f : Frame) (r : Rendering) (s : State),
        ((r.marks f (t.relocate (positionAt body)) env).perform s).2.compoundDepth =
          s.compoundDepth ∧
        ∀ marks s', Reached env s →
          Yields env (r.marks f (t.relocate (positionAt body))) s marks s' →
          (∀ origin within, .use origin within ∈ t.marks [] → within.map (·.origin) = [origin]) ∧
          List.Forall₂ (Matches env f) ((t.relocate (positionAt body)).marks []) marks := by
  obtain ⟨nodes', hnodes', hmoved⟩ := build_numbered h
  refine ⟨nodes', hnodes', hmoved, build_numbered_count hnodes', ?_⟩
  intro t ht env f r s
  refine ⟨(r.steady f _ env s).compoundDepth_eq, fun marks s' hs hyields => ?_⟩
  have hmatch := Rendering.marks_match hs hyields
  exact ⟨fun origin within huse => origin_of_rendered (build_closed hnodes' t ht) hmatch huse,
    hmatch⟩

/-- A program with a function `f` that returns a pointer to an `int`. -/
def counter : Env where
  dict := .ofList [[0x66]]
  program := ⟨TypeTable.empty.internEach [.function [] [⟨15⟩] false, .pointer TypeTable.int32],
    [.function ⟨⟨1⟩, .unexported, ⟨14⟩, .unknown, [], [⟨.ret, .unknown⟩]⟩]⟩
  target := ⟨8, false⟩
  options := {}
  qualifier := fun _ _ => ""

/-- The statement `*f() += 1`. All instructions are at the same position. -/
def counterBody : List Instruction :=
  [.allocResult ⟨15⟩, .arguments, .call 0 0 ⟨14⟩, .dup ⟨15⟩, .load ⟨15⟩,
    .const32 TypeTable.int32 1, .binary .add TypeTable.int32, .store TypeTable.int32 0 0,
    .drop TypeTable.int32, .ret].map (⟨·, .unknown⟩)

/-- The tree of the statement, with the numbers of its instructions. -/
def counterTree : Tree :=
  let call := Tree.mk (.call 0 ⟨14⟩ []) (some ⟨15⟩) (Flow.place 2) []
  let load :=
    Tree.mk (.load ⟨15⟩ (.mk .dupRef (some ⟨15⟩) (Flow.place 3) [])) (some TypeTable.int32)
      (Flow.place 4) []
  let one := Tree.mk (.const32 1) (some TypeTable.int32) (Flow.place 5) []
  let sum := Tree.mk (.binary .add load one) (some TypeTable.int32) (Flow.place 6) []
  .mk (.store 0 0 (.mk (.dup call) (some ⟨15⟩) (Flow.place 3) []) sum) (some TypeTable.int32)
    (Flow.place 7) []

def counterFrame : Frame :=
  ⟨0, ⟨⟨1⟩, .unexported, ⟨14⟩, .unknown, [], counterBody⟩, [], [⟨15⟩], false, []⟩

/-- The code is `store_4(func() (*int32, int32) { p := _f(); return p, ((*p) + int32(1)) }())`. -/
def counterMarks : List Go.Mark :=
  let call := Go.Expr.call (.name "_f") []
  [.name "_f", .bind call, .use (some call), .use (some call)]

open StackToGo.Flow in
/-- The statement keeps one duplicated address, and its code calls `f` once. -/
theorem counterBody_kept_once :
    (∃ nodes, build counter.program.types counterBody = .ok nodes) ∧
    build counter.program.types (numbered counterBody) = .ok [⟨none, [.eval counterTree], .ret⟩] ∧
    (∀ part, Tree.countAll part (place 3) [counterTree] = 1) ∧
    (∃ s', Yields counter (Rendering.statement.marks counterFrame
      (counterTree.relocate (positionAt counterBody))) (.start counter.target) counterMarks s') ∧
    (∀ origin within, .use origin within ∈ counterTree.marks [] →
      within.map (·.origin) = [origin]) ∧
    List.Forall₂ (Matches counter counterFrame)
      ((counterTree.relocate (positionAt counterBody)).marks []) counterMarks := by
  obtain ⟨nodes, hbuild⟩ : ∃ nodes, build counter.program.types counterBody = .ok nodes := ⟨_, rfl⟩
  obtain ⟨s', hyields⟩ : ∃ s', Yields counter
      (Rendering.statement.marks counterFrame (counterTree.relocate (positionAt counterBody)))
      (.start counter.target) counterMarks s' := ⟨_, rfl⟩
  obtain ⟨nodes', hnodes', -, hcount, htrees⟩ := duplicates_kept_once hbuild
  have hnumbered : build counter.program.types (numbered counterBody) =
      .ok [⟨none, [.eval counterTree], .ret⟩] := rfl
  obtain rfl := Except.ok.inj (hnodes'.symm.trans hnumbered)
  have hmem : counterTree ∈ [(⟨none, [.eval counterTree], .ret⟩ : Node)].flatMap Node.trees :=
    List.mem_cons_self
  have hrendered :=
    (htrees counterTree hmem counter counterFrame .statement (.start counter.target)).2
      counterMarks s'
    (.refl _) hyields
  exact ⟨⟨nodes, hbuild⟩, hnumbered, fun part => hcount part 3, ⟨s', hyields⟩, hrendered⟩

end StackToGo.Emit
