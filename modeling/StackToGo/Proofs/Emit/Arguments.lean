import StackToGo.Proofs.Emit.Parameters
import StackToGo.Proofs.Emit.Reading
import StackToGo.Proofs.Flow.Retention

/-!
# Arguments and parameters

A reference to an argument is spelled by the name that the function gives to the argument. The
header has a parameter for each argument of the function type, spelled in the same way, but the
function that a program starts with may have a fixed header. Nothing compares the two.
`argument_declared_iff`: the name of an argument that a body refers to is in the code of the
function, and the header declares it exactly if it is not the fixed one and has a parameter of that
name.
-/

namespace StackToGo

/-! ## References -/

/-- The place of the argument that a shape refers to. -/
def Shape.argument? : Shape → Option Nat
  | .argument index _ => some index
  | _ => none

/-- The places of the arguments that a tree refers to. -/
def Tree.arguments : Tree → List Nat :=
  Tree.fold fun shape _ _ comma operands =>
    comma.flatten ++ (shape.argument?.toList ++ operands.flatten)

/-- A tree refers to what its comma list, its shape and its operands do. -/
theorem Tree.arguments_mk (shape : Shape) (type : Option TypeId) (position : Position)
    (comma : List Tree) :
    (Tree.mk shape type position comma).arguments =
      comma.flatMap Tree.arguments ++
        (shape.argument?.toList ++ shape.operands.flatMap Tree.arguments) := by
  rw [Tree.arguments, Tree.fold_mk, List.flatMap_def, List.flatMap_def]

/-- That a tree refers to an argument passes on from its parts. -/
theorem Tree.inherited_arguments (index : Nat) : Tree.Inherited fun t => index ∈ t.arguments := by
  rintro shape type position comma ⟨t, ht, hindex⟩
  rw [Tree.arguments_mk]
  rcases List.mem_append.1 ht with ht | ht
  · exact List.mem_append_left _ (List.mem_flatMap.2 ⟨t, ht, hindex⟩)
  · exact List.mem_append_right _ (List.mem_append_right _ (List.mem_flatMap.2 ⟨t, ht, hindex⟩))

namespace Go

/-- What an exit refers to. -/
def Exit.marks : Exit Expr → List Mark
  | .branch condition _ => condition.marks none
  | .switch scrutinee _ _ => scrutinee.marks none
  | _ => []

/-- What a block refers to. -/
def Block.marks (b : Block Stmt Expr) : List Mark :=
  b.statements.flatMap (·.marks none) ++ b.exit.marks

/-- The names that a header declares. -/
def Header.declared (h : Header) : List String :=
  h.params.filterMap (·.name) ++ ((if h.variadic then ["args"] else []) ++
    if h.result.isSome then ["r0"] else [])

end Go

namespace Emit

open Identifier

variable {env : Env} {s s' : State}

/-- The code names the arguments that the tree refers to. -/
def NamesArguments (env : Env) (f : Frame) (t : Tree) (marks : List Go.Mark) : Prop :=
  ∀ index ∈ t.arguments, ∃ text, SpellsArgument env f index text ∧ .name text ∈ marks

/-- Arguments of trees are named in the code of all of them. -/
theorem names_of_forall₂ {f : Frame} {list : List Tree} {parts : List (List Go.Mark)}
    (h : List.Forall₂ (NamesArguments env f) list parts) {index : Nat}
    (hindex : index ∈ list.flatMap Tree.arguments) :
    ∃ text, SpellsArgument env f index text ∧ .name text ∈ parts.flatten := by
  induction h with
  | nil => cases hindex
  | cons hfirst _ ih =>
    rcases List.mem_append.1 (List.flatMap_cons ▸ hindex) with hindex | hindex
    · obtain ⟨text, hspells, hmem⟩ := hfirst index hindex
      exact ⟨text, hspells, List.mem_append_left _ hmem⟩
    · obtain ⟨text, hspells, hmem⟩ := ih hindex
      exact ⟨text, hspells, List.mem_append_right _ hmem⟩

/-- All arguments that a tree refers to are named in its code. -/
def naming : Reading where
  holds σ t marks := NamesArguments σ.env σ.frame t marks
  plain {σ shape type position comma effects parts own} hplain hcomma hown hoperands
    index hindex := by
    rw [Tree.arguments_mk, List.mem_append, List.mem_append, Option.mem_toList] at hindex
    rcases hindex with hindex | hindex | hindex
    · obtain ⟨text, hspells, hmem⟩ := names_of_forall₂ hcomma hindex
      exact ⟨text, hspells, List.mem_append_left _ hmem⟩
    · cases shape with
      | argument place address =>
        obtain ⟨text, hspells, rfl⟩ := hown.argument place address rfl
        cases hindex
        exact ⟨text, hspells, by simp⟩
      | _ => cases hindex
    · obtain ⟨text, hspells, hmem⟩ := names_of_forall₂ hoperands hindex
      exact ⟨text, hspells, List.mem_append_right _ (List.mem_append_right _ hmem)⟩
  compound {env f bits bitOffset target value type stored origin position comma effects p marks}
    hcomma hgives htarget
      hvalue index hindex := by
    have hparts : index ∈ comma.flatMap Tree.arguments ∨ index ∈ target.arguments ∨
        index ∈ value.arguments := by
      simpa [Tree.arguments_mk, Shape.argument?, Shape.operands] using hindex
    rcases hparts with hindex | hindex | hindex
    · obtain ⟨text, hspells, hmem⟩ := names_of_forall₂ hcomma hindex
      exact ⟨text, hspells, List.mem_append_left _ hmem⟩
    · obtain ⟨text, hspells, hmem⟩ := htarget index hindex
      exact ⟨text, hspells, by simp [hmem]⟩
    · obtain ⟨text, hspells, hmem⟩ := hvalue index hindex
      exact ⟨text, hspells, by simp [hmem]⟩

/-- Code that refers to more names the arguments too. -/
theorem NamesArguments.mono {f : Frame} {t : Tree} {marks marks' : List Go.Mark}
    (h : NamesArguments env f t marks) (hsub : marks ⊆ marks') :
    NamesArguments env f t marks' := by
  intro index hindex
  obtain ⟨text, hspells, hmem⟩ := h index hindex
  exact ⟨text, hspells, hsub hmem⟩

/-! ## Blocks -/

/-- Statements that define nothing refer to what each of them does. -/
theorem DefinesNothing.marksAll_eq {list : List Go.Stmt} (h : Scene.DefinesNothing list)
    (bound : Option Go.Expr) : Go.Stmt.marksAll list bound = list.flatMap (·.marks bound) := by
  induction list with
  | nil => rfl
  | cons first rest ih =>
    rw [Go.Stmt.marksAll_cons, h first List.mem_cons_self,
      ih fun s hs => h s (List.mem_cons_of_mem _ hs), List.flatMap_cons]

/-- The statements of a node name its arguments. -/
theorem names_of_nodeStatements (hs : Reached env s) {f : Frame} {statements : List Flow.Statement}
    {list : List Go.Stmt} (h : Yields env (nodeStatements f statements) s list s') :
    ∀ t ∈ statements.flatMap Flow.Statement.trees,
    NamesArguments env f t (list.flatMap (·.marks none)) := by
  induction statements generalizing s list with
  | nil => exact nofun
  | cons statement rest ih =>
    intro t ht
    cases statement with
    | eval first =>
      simp only [nodeStatements, yields_bind, yields_pure] at h
      obtain ⟨code, s₁, hcode, more, s₂, hmore, rfl, rfl⟩ := h
      rw [List.flatMap_append]
      rcases List.mem_cons.1 ht with rfl | ht
      · obtain ⟨hnothing, hnames⟩ :=
          (naming.reads_and_runs t ⟨env, f, [], none⟩).2 s code s₁ (.outside hs) hcode
        rw [DefinesNothing.marksAll_eq hnothing] at hnames
        exact NamesArguments.mono hnames (List.subset_append_left _ _)
      · have hs₁ := hs.evolves ((steady_statement f first).evolves hcode)
        exact (ih hs₁ hmore t ht).mono (List.subset_append_right _ _)
    | init index position =>
      rw [nodeStatements, yields_bind] at h
      obtain ⟨l, s₁, hl, h⟩ := h
      have hs₁ := hs.evolves ((steady_lift _).evolves hl)
      split at h
      · exact ih hs₁ h t ht
      · simp only [yields_bind, yields_pure] at h
        obtain ⟨name, s₂, hname, code, s₃, hcode, more, s₄, hmore, rfl, rfl⟩ := h
        have hs₃ := (hs₁.evolves ((steady_localName l).evolves hname)).evolves
          ((steady_initializer _ _ _ _).evolves hcode)
        exact (ih hs₃ hmore t ht).mono (List.subset_append_right _ _)

/-- The exit of a node names its arguments. -/
theorem names_of_nodeExit (hs : Reached env s) {f : Frame} {exit : Flow.Exit}
    {lowered : Go.Exit Go.Expr} (h : Yields env (nodeExit f exit) s lowered s') :
    ∀ t ∈ exit.trees, NamesArguments env f t lowered.marks := by
  intro t ht
  have hreads := (naming.reads_and_runs t ⟨env, f, [], none⟩).1 .value
  cases exit with
  | branch cond target onZero =>
    obtain rfl := List.mem_singleton.1 ht
    simp only [nodeExit, yields_bind, yields_pure] at h
    obtain ⟨condition, s₁, hcondition, text, s₂, -, rfl, -⟩ := h
    exact Scene.ensures_truthOf ⟨env, f, [], none⟩ (P := NamesArguments env f t)
      (steady_expr f .value t) hreads t onZero s condition s₁ (.outside hs) hcondition
  | switch v type cases default =>
    obtain rfl := List.mem_singleton.1 ht
    simp only [nodeExit, yields_bind, yields_pure] at h
    obtain ⟨k, s₁, hk, keys, s₂, hkeys, scrutinee, s₃, hscrutinee, texts, s₄, -, text, s₅,
        -, rfl, -⟩ := h
    have hs₂ :=
      (hs.evolves ((steady_kind type).evolves hk)).evolves ((steady_caseKeys _ _ _).evolves hkeys)
    exact hreads s₂ scrutinee s₃ (.outside hs₂) hscrutinee
  | _ => cases ht

/-- The block of a node names its arguments. -/
theorem names_of_block (hs : Reached env s) {f : Frame} {n : Flow.Node}
    {b : Go.Block Go.Stmt Go.Expr} (h : Yields env (block f n) s b s') :
    ∀ t ∈ n.trees, NamesArguments env f t b.marks := by
  obtain ⟨-, s₁, s₂, hs₁, hstatements, hs₂, hexit⟩ := exists_yields_of_block hs h
  intro t ht
  rcases List.mem_append.1 ht with ht | ht
  · exact (names_of_nodeStatements hs₁ hstatements t ht).mono (List.subset_append_left _ _)
  · exact (names_of_nodeExit hs₂ hexit t ht).mono (List.subset_append_right _ _)

/-- An argument that a body refers to is named in the code of the function. -/
theorem Writes.names {index : Nat} {definition : FunctionDef} {f : Frame} {nodes : List Flow.Node}
    {head : Go.Header} {g : Go.Function Go.Stmt Go.Expr}
    (h : Writes env index definition f nodes head g) {place : Nat} {type : TypeId} {address : Bool}
    {position : Position} (hmem : ⟨.argument place type address, position⟩ ∈ definition.body) :
    ∃ text, SpellsArgument env f place text ∧ .name text ∈ g.blocks.flatMap Go.Block.marks := by
  obtain ⟨t, ht, hplace⟩ :=
    Flow.exists_tree_of_argument h.nodes_eq (Tree.inherited_arguments place) hmem fun comma => by
    simp [Tree.arguments_mk, Shape.argument?]
  obtain ⟨n, hn, ht⟩ := List.mem_flatMap.1 ht
  obtain ⟨s, s', hs, hblocks⟩ := h.blocks_given
  obtain ⟨b, hb, s₁, s₂, hs₁, hblock⟩ :=
    exists_mem_of_forall₂ (forall₂_of_mapM (steady_block f) hs hblocks) hn
  obtain ⟨text, hspells, hname⟩ := names_of_block hs₁ hblock t ht place hplace
  exact ⟨text, hspells, List.mem_flatMap.2 ⟨b, hb, hname⟩⟩

/-! ## Headers -/

/-- A parameter with a name is spelled by the name of an argument. -/
theorem mem_parameters_iff (hs : Reached env s) {names : List NameId} {types : List TypeId}
    {params : List Go.Param} (h : Yields env (parameters names types) s params s') {text : String}
    (htext : text ≠ "_") :
    text ∈ params.filterMap (·.name) ↔ ∃ place < types.length, ∃ name, names[place]? = some name ∧
      ¬name.isNone ∧
      spelling env.dict ⟨name, false, none⟩ = .ok text := by
  induction types generalizing names s params with
  | nil =>
    rw [parameters, yields_pure] at h
    obtain ⟨rfl, -⟩ := h
    simp
  | cons type rest ih =>
    obtain ⟨first, t, s₁, tail, rfl, hs₁, htail, hfirst⟩ := exists_yields_of_parameters hs h
    have hcons : text ∈ (⟨some first, t⟩ :: tail).filterMap Go.Param.name ↔
        text = first ∨ text ∈ tail.filterMap (·.name) := by
      simp
    rw [hcons, ih hs₁ htail]
    constructor
    · rintro (rfl | ⟨place, hplace, name, hname, hspelled⟩)
      · rcases hfirst with ⟨name, hname, hspelled⟩ | ⟨-, rfl⟩
        · rw [List.head?_eq_getElem?] at hname
          exact ⟨0, Nat.succ_pos _, name, hname, hspelled⟩
        · exact absurd rfl htext
      · rw [List.getElem?_tail] at hname
        exact ⟨place + 1, Nat.succ_lt_succ hplace, name, hname, hspelled⟩
    · rintro ⟨place, hplace, name, hname, hnamed, hspelled⟩
      cases place with
      | zero =>
        left
        rw [← List.head?_eq_getElem?] at hname
        rcases hfirst with ⟨name', hname', -, hspelled'⟩ | ⟨hnone, -⟩
        · obtain rfl := Option.some.inj (hname.symm.trans hname')
          exact Except.ok.inj (hspelled.symm.trans hspelled')
        · exact absurd (hnone name hname) hnamed
      | succ place =>
        rw [← List.getElem?_tail] at hname
        exact .inr ⟨place, Nat.lt_of_succ_lt_succ hplace, name, hname, hnamed, hspelled⟩

/-- A name is not spelled as anything else that a header declares. -/
theorem not_mem_of_spelling {dict : Dictionary} {key : Key} {text : String}
    (h : spelling dict key = .ok text) : text ∉ ["_", "args", "r0"] := by
  obtain ⟨first, rest, hlist, hfirst, hrest, -⟩ := isLegal_of_spelling h
  intro hmem
  simp only [List.mem_cons, List.not_mem_nil, or_false] at hmem
  rcases hmem with rfl | rfl | rfl
  · exact hrest (List.cons.inj hlist).2.symm
  · rcases hfirst with rfl | rfl <;> cases hlist
  · rcases hfirst with rfl | rfl <;> cases hlist

/-- The header declares the name of an argument exactly if it has a parameter for an argument of
that name. -/
theorem mem_declared_iff (hd : env.dict.Distinct) (hs : Reached env s) {f : Frame} {name : String}
    {head : Go.Header} (h : Yields env (header f name) s head s') {argument : NameId}
    {text : String} (htext : spelling env.dict ⟨argument, false, none⟩ = .ok text)
    (hnamed : ¬argument.isNone) :
    text ∈ head.declared ↔ ¬IsEntry env f ∧
      ∃ place < f.arguments.length, f.definition.arguments[place]? = some argument := by
  obtain ⟨hblank, hargs, hresult⟩ : text ≠ "_" ∧ text ≠ "args" ∧ text ≠ "r0" := by
    simpa using not_mem_of_spelling htext
  have hdeclared : text ∈ head.declared ↔ text ∈ head.params.filterMap (·.name) := by
    rw [Go.Header.declared, List.mem_append]
    refine or_iff_left ?_
    split <;> split <;> simp [hargs, hresult]
  rw [hdeclared]
  rcases header_params hs h with ⟨hentry, hparams⟩ | ⟨hentry, s₁, s₂, hs₁, hparams⟩
  · simp [hparams, entryParameters, hentry]
  · rw [mem_parameters_iff hs₁ hparams hblank]
    simp only [hentry, not_false_eq_true, true_and]
    constructor
    · rintro ⟨place, hplace, name, hname, -, hspelled⟩
      have hkey := spelling_inj hd htext hspelled
      exact ⟨place, hplace, (Key.mk.inj hkey).1 ▸ hname⟩
    · rintro ⟨place, hplace, hargument⟩
      exact ⟨place, hplace, argument, hargument, hnamed, htext⟩

/-- For every function in the file and every reference of its body to an argument: the argument has
a name, which is in the code of the function. The header declares it exactly if it is not the fixed
one that the function which a program starts with may have, and has a parameter for an argument of
the same name. -/
theorem argument_declared_iff {names : List Bytes} (hdict : env.dict = .ofList names)
    {text : String} (hgenerate : (generate env).answer = .text text) {index : Nat}
    {definition : FunctionDef}
    (hobject : env.program.objects[index]? = some (.function definition))
    (hstub : ¬definition.isStub) :
    ∃ (f : Frame) (head : Go.Header) (g : Go.Function Go.Stmt Go.Expr)
        (items : List (Go.Item Go.Stmt Go.Expr)) (before after : Go.Report)
          (blocks : List (Go.Block Go.Stmt Go.Expr)),
      Frame.ofDefinition env.program.types index definition = .ok f ∧
      Gives env (header f g.name) head ∧
      g.header = head.text ∧ g.simplify before = .ok (after, { g with blocks }) ∧
      .function { g with blocks } ∈ items ∧ text = Go.sourceText items ∧
      ∀ place type address position, ⟨.argument place type address, position⟩ ∈ definition.body →
        ∃ argument spelled, definition.arguments[place]? = some argument ∧ ¬argument.isNone ∧
          spelling env.dict ⟨argument, false, none⟩ = .ok spelled ∧
          .name spelled ∈ g.blocks.flatMap Go.Block.marks ∧
          (spelled ∈ head.declared ↔ ¬IsEntry env f ∧
            ∃ other < f.arguments.length, definition.arguments[other]? = some argument) := by
  obtain ⟨s, hfile⟩ := yields_of_generate hgenerate
  obtain ⟨s₁, s₂, items, report, items', hs₁, hwrite, hitems, hclean, htext⟩ :=
    exists_yields_of_fileText hfile hobject
  obtain ⟨s₃, hs₃, hdefinition⟩ := exists_yields_functionDefinition hs₁ hwrite
  obtain ⟨f, nodes, head, g, front, hwrites, -, hfront⟩ :=
    exists_writes_of_functionDefinition hs₃ hdefinition hobject hstub
  have hg : .function g ∈ items := hitems (hfront ▸ List.mem_concat_self)
  obtain ⟨before, after, blocks, hsimplify, hblocks⟩ := Go.exists_simplify_of_mem hclean hg
  have hdef := Frame.definition_of_ofDefinition hwrites.frame_eq
  refine ⟨f, head, g, items', before, after, blocks, hwrites.frame_eq, hwrites.head_given,
    hwrites.header_eq, hsimplify, hblocks, htext, ?_⟩
  intro place type address position hmem
  obtain ⟨spelled, ⟨argument, hargument, hnamed, hspelled⟩, hname⟩ := hwrites.names hmem
  obtain ⟨s₄, s₅, hs₄, hhead⟩ := hwrites.head_given
  have hd : env.dict.Distinct := hdict ▸ Dictionary.distinct_ofList names
  have hiff := mem_declared_iff hd hs₄ hhead hspelled hnamed
  rw [hdef] at hargument hiff
  exact ⟨argument, spelled, hargument, hnamed, hspelled, hname, hiff⟩

/-- A function with an argument `x` that returns the argument. -/
def returningArgument (name : NameId) (linkage : Linkage) (type : TypeId) : FunctionDef where
  name := name
  linkage := linkage
  type := type
  position := .unknown
  arguments := [⟨1⟩]
  body :=
    [.beginScope, .result 0 ⟨16⟩ true, .argument 0 TypeTable.int32 false,
      .store TypeTable.int32 0 0,
    .drop TypeTable.int32, .ret, .endScope].map (⟨·, .unknown⟩)

/-- The function `main` of one argument, and the function `f` whose type has none. -/
def unbound : Env where
  dict := .ofList [[0x78], [0x6D, 0x61, 0x69, 0x6E], [0x66]]
  program := ⟨TypeTable.empty.internEach [.function [TypeTable.int32] [TypeTable.int32] false,
      .function [] [TypeTable.int32] false, .pointer TypeTable.int32],
    [.function (returningArgument ⟨2⟩ .exported ⟨14⟩),
      .function (returningArgument ⟨3⟩ .unexported ⟨15⟩)]⟩
  target := ⟨8, false⟩
  options := {}
  qualifier := fun _ _ => ""

/-- Neither function of the file declares `_x`. -/
theorem unbound_text : (generate unbound).answer = .text
    ("func Xmain(int32, **int8) (r0 int32) \x7b\n\tstore_4(&r0, _x)\n\treturn\n\x7d\n\n" ++
      "func _f() (r0 int32) \x7b\n\tstore_4(&r0, _x)\n\treturn\n\x7d\n\n" ++
      "func bool2int(b bool) int32 \x7b if b \x7b return 1 \x7d; return 0 \x7d\n" ++
      "func store_4(p *int32, v int32) int32 \x7b *p = v; return v \x7d\n") :=
  Answer.eq_text_of_text? (by decide +kernel)

/-- The function names `_x`, which its header does not declare. -/
theorem unbound_argument : ∃ text, (generate unbound).answer = .text text ∧
    ∃ (head : Go.Header) (g : Go.Function Go.Stmt Go.Expr), g.header = head.text ∧
      .name "_x" ∈ g.blocks.flatMap Go.Block.marks ∧ "_x" ∉ head.declared := by
  obtain ⟨f, head, g, items, before, after, blocks, hf, -, hheader, -, -, -, hreferences⟩ :=
    @argument_declared_iff unbound [[0x78], [0x6D, 0x61, 0x69, 0x6E], [0x66]] rfl _ unbound_text 1
      (returningArgument ⟨3⟩ .unexported ⟨15⟩) rfl (by decide)
  obtain ⟨argument, spelled, hargument, -, hspelled, hname, hiff⟩ :=
    hreferences 0 TypeTable.int32 false .unknown (by simp [returningArgument])
  obtain rfl := Option.some.inj hargument
  obtain rfl : "_x" = spelled := Except.ok.inj hspelled
  have hlength : f.arguments.length = 0 := by
    cases hf
    rfl
  refine ⟨_, unbound_text, head, g, hheader, hname, fun hdeclared => ?_⟩
  obtain ⟨-, other, hother, -⟩ := hiff.1 hdeclared
  rw [hlength] at hother
  exact absurd hother (Nat.not_lt_zero other)

/-- So it is not true that the header of a function declares all arguments that its body refers
to. -/
theorem arguments_may_be_unbound :
    ¬∀ (env : Env) (text : String) (index : Nat) (definition : FunctionDef) (f : Frame)
      (name : String) (head : Go.Header), (generate env).answer = .text text →
        env.program.objects[index]? = some (.function definition) → ¬definition.isStub →
        Frame.ofDefinition env.program.types index definition = .ok f →
        Gives env (header f name) head →
        ∀ place type address position, ⟨.argument place type address, position⟩ ∈ definition.body →
          ∀ argument spelled, definition.arguments[place]? = some argument →
            spelling env.dict ⟨argument, false, none⟩ = .ok spelled → spelled ∈ head.declared := by
  intro h
  have hhead : Gives unbound
      (header ⟨0, returningArgument ⟨2⟩ .exported ⟨14⟩, [TypeTable.int32], [TypeTable.int32],
        false, []⟩ "Xmain")
      ⟨"Xmain", entryParameters, false, some (.scalar .int32)⟩ := ⟨_, _, .refl _, rfl⟩
  have hdeclared :=
    h unbound _ 0 (returningArgument ⟨2⟩ .exported ⟨14⟩) _ "Xmain" _ unbound_text
      rfl (by decide) rfl
    hhead 0 TypeTable.int32 false .unknown (by simp [returningArgument]) ⟨1⟩ "_x" rfl rfl
  exact absurd hdeclared (by decide)

end Emit

end StackToGo
