import StackToGo.Proofs.Emit.Functions
import StackToGo.Proofs.Flow.Rules

/-!
# Parameters and objects

Locals keep clear of the names of objects, but parameters do not: a parameter is spelled as an
unexported object of its name would be. So a function captures an object that it refers to exactly
if the object is unexported and shares its name with a parameter.
-/

namespace StackToGo

namespace Go

variable {σ ε : Type}

/-- Clean-up keeps all functions, and changes their blocks only. -/
theorem exists_simplify_of_mem {report report' : Report} {items items' : List (Item σ ε)}
    (h : simplifyItems report items = .ok (report', items')) {g : Function σ ε}
    (hg : .function g ∈ items) :
    ∃ before after blocks, g.simplify before = .ok (after, { g with blocks }) ∧
    .function { g with blocks } ∈ items' := by
  induction items generalizing report report' items' with
  | nil => cases hg
  | cons item rest ih =>
    cases item with
    | function f =>
      rw [simplifyItems] at h
      split at h
      case h_1 => cases h
      case h_2 report₁ f' hf =>
        obtain ⟨⟨report₂, rest'⟩, hrest, h⟩ := Flow.bind_eq_ok h
        cases h
        rcases List.mem_cons.1 hg with heq | hg
        · cases heq
          have hblocks : f' = { g with blocks := f'.blocks } := by
            rw [Function.simplify] at hf
            split at hf <;> cases hf
            rfl
          rw [hblocks] at hf
          exact ⟨report, report₁, f'.blocks, hf, hblocks ▸ List.mem_cons_self⟩
        · obtain ⟨before, after, blocks, hsimplify, hblocks⟩ := ih hrest hg
          exact ⟨before, after, blocks, hsimplify, List.mem_cons_of_mem _ hblocks⟩
    | _ =>
      obtain ⟨⟨report₁, rest'⟩, hrest, h⟩ := Flow.bind_eq_ok h
      cases h
      obtain ⟨before, after, blocks, hsimplify, hblocks⟩ :=
        ih hrest ((List.mem_cons.1 hg).resolve_left nofun)
      exact ⟨before, after, blocks, hsimplify, List.mem_cons_of_mem _ hblocks⟩

/-- A function of the file is there after clean-up, with other blocks. -/
theorem exists_mem_simplifyItems {report report' : Report} {items items' : List (Item σ ε)}
    (h : simplifyItems report items = .ok (report', items')) {g : Function σ ε}
    (hg : .function g ∈ items) : ∃ blocks, .function { g with blocks } ∈ items' := by
  obtain ⟨_, _, blocks, -, hblocks⟩ := exists_simplify_of_mem h hg
  exact ⟨blocks, hblocks⟩

end Go

/-- The text of an answer, if it is one. -/
def Answer.text? : Answer → Option String
  | .text s => some s
  | _ => none

/-- An answer with a text is that text. -/
theorem Answer.eq_text_of_text? {a : Answer} {s : String} (h : a.text? = some s) :
    a = .text s := by
  cases a with
  | text s' => exact congrArg Answer.text (Option.some.inj h)
  | error e => cases h
  | panic message => cases h

/-- The frame of a function has its definition. -/
theorem Frame.definition_of_ofDefinition {types : TypeTable} {index : Nat}
    {definition : FunctionDef} {f : Frame} (h : ofDefinition types index definition = .ok f) :
    f.definition = definition := by
  obtain ⟨t, -, h⟩ := Flow.bind_eq_ok h
  split at h
  · obtain ⟨locals, -, h⟩ := Flow.bind_eq_ok h
    cases h
    rfl
  · cases h

namespace Emit

variable {env : Env} {s s' : State}

/-- Does the instruction read or call the object at the place? -/
def refersTo (index : Nat) : Op → Bool
  | .global i _ _ _ _ => i = index
  | .call i _ _ => i = index
  | _ => false

/-! ## Headers -/

/-- A name spells the first parameter, or there is none. -/
theorem exists_yields_of_parameters (hs : Reached env s) {names : List NameId} {type : TypeId}
    {rest : List TypeId} {params : List Go.Param}
    (h : Yields env (parameters names (type :: rest)) s params s') :
    ∃ text t s₁ tail, params = ⟨some text, t⟩ :: tail ∧ Reached env s₁ ∧
      Yields env (parameters names.tail rest) s₁ tail s' ∧
      ((∃ name, names.head? = some name ∧ ¬name.isNone ∧
        Identifier.spelling env.dict ⟨name, false, none⟩ = .ok text) ∨
        (∀ name, names.head? = some name → name.isNone) ∧ text = "_") := by
  rw [parameters, yields_bind] at h
  obtain ⟨t, s₁, ht, h⟩ := h
  have hs₁ : Reached env s₁ := hs.evolves ((steady_goType type).evolves ht)
  split at h
  case h_1 name hname =>
    split at h
    case isTrue hnone =>
      simp only [yields_bind, yields_pure] at h
      obtain ⟨_, _, ⟨rfl, rfl⟩, tail, s₂, htail, rfl, rfl⟩ := h
      refine ⟨"_", t, s₁, tail, rfl, hs₁, htail, .inr ⟨fun name' hname' => ?_, rfl⟩⟩
      rw [hname] at hname'
      exact Option.some.inj hname' ▸ hnone
    case isFalse hnamed =>
      simp only [yields_bind, yields_pure] at h
      obtain ⟨text, s₂, htext, tail, s₃, htail, rfl, rfl⟩ := h
      exact ⟨text, t, s₂, tail, rfl, hs₁.evolves ((steady_identifier _ _ _).evolves htext), htail,
        .inl ⟨name, hname, hnamed, hs₁.yields_identifier.1 ⟨s₂, htext⟩⟩⟩
  case h_2 hnone =>
    simp only [yields_bind, yields_pure] at h
    obtain ⟨_, _, ⟨rfl, rfl⟩, tail, s₂, htail, rfl, rfl⟩ := h
    refine ⟨"_", t, s₁, tail, rfl, hs₁, htail, .inr ⟨fun name hname => ?_, rfl⟩⟩
    rw [hnone] at hname
    cases hname

/-- There is a parameter for each type, and a named one is spelled by its name alone. -/
theorem parameters_spelled (hs : Reached env s) {names : List NameId} {types : List TypeId}
    {params : List Go.Param} (h : Yields env (parameters names types) s params s') {place : Nat}
    {name : NameId} (hname : names[place]? = some name) (hnamed : ¬name.isNone) :
    (place < types.length → ∃ param spelled, params[place]? = some param ∧
      param.name = some spelled) ∧
    ∀ param spelled, params[place]? = some param → param.name = some spelled →
      Identifier.spelling env.dict ⟨name, false, none⟩ = .ok spelled := by
  induction types generalizing names s params place with
  | nil =>
    rw [parameters, yields_pure] at h
    obtain ⟨rfl, -⟩ := h
    exact ⟨fun hlt => absurd hlt (Nat.not_lt_zero _),
      fun param spelled hparam => by simp at hparam⟩
  | cons type rest ih =>
    obtain ⟨text, t, s₁, tail, rfl, hs₁, htail, htext⟩ := exists_yields_of_parameters hs h
    cases place with
    | zero =>
      rw [← List.head?_eq_getElem?] at hname
      refine ⟨fun _ => ⟨_, text, rfl, rfl⟩, fun param spelled hparam hspelled => ?_⟩
      cases hparam
      rw [← Option.some.inj hspelled]
      rcases htext with ⟨name', hname', -, hspelling⟩ | ⟨hnone, -⟩
      · rw [hname] at hname'
        exact Option.some.inj hname' ▸ hspelling
      · exact absurd (hnone name hname) hnamed
    | succ place =>
      rw [← List.getElem?_tail] at hname
      obtain ⟨hexists, hspelled⟩ := ih hs₁ htail hname
      exact ⟨fun hlt => hexists (Nat.lt_of_succ_lt_succ hlt), hspelled⟩

/-- Is it the function that a program starts with, and does it keep its shape whatever arguments it
declares? -/
def IsEntry (env : Env) (f : Frame) : Prop :=
  env.dict.nameBytes f.definition.name = .ok [0x6D, 0x61, 0x69, 0x6E] ∧ f.arguments.length ≠ 2

/-- The parameters of a function are those of its arguments, unless a program starts with it. -/
theorem header_params (hs : Reached env s) {f : Frame} {name : String} {head : Go.Header}
    (h : Yields env (header f name) s head s') :
    (IsEntry env f ∧ head.params = entryParameters) ∨
      ¬IsEntry env f ∧ ∃ s₁ s₂, Reached env s₁ ∧
        Yields env (parameters f.definition.arguments f.arguments) s₁ head.params s₂ := by
  rw [header, yields_bind] at h
  obtain ⟨result, s₁, hresult, h⟩ := h
  rw [yields_bind] at h
  obtain ⟨isEntry, s₂, hentry, h⟩ := h
  have hs₂ : Reached env s₂ :=
    (hs.evolves ((steady_resultOf f).evolves hresult)).evolves ((steady_isMain _).evolves hentry)
  have hname : env.dict.nameBytes f.definition.name = .ok [0x6D, 0x61, 0x69, 0x6E] ↔
      isEntry = true := by
    simp only [isMain, yields_bind, yields_read, yields_lift, yields_pure] at hentry
    obtain ⟨_, _, ⟨rfl, -⟩, bytes, _, ⟨hbytes, -⟩, hmain, -⟩ := hentry
    rw [hbytes, ← hmain, beq_iff_eq, Except.ok.injEq]
  have hiff : IsEntry env f ↔ (isEntry && f.arguments.length != 2) = true := by
    rw [IsEntry, hname, Bool.and_eq_true, bne_iff_ne]
  split at h
  case isTrue hguard =>
    left
    refine ⟨hiff.2 hguard, ?_⟩
    split at h <;>
    · simp only [yields_bind, yields_pure] at h
      obtain ⟨_, _, -, rfl, -⟩ := h
      rfl
  case isFalse hguard =>
    right
    rw [yields_bind] at h
    obtain ⟨params, s₃, hparams, h⟩ := h
    rw [yields_pure] at h
    obtain ⟨rfl, -⟩ := h
    exact ⟨mt hiff.1 hguard, s₂, s₃, hs₂, hparams⟩

/-- The header names the parameter for the argument `argument`, and spells it `spelled`. -/
def NamesParameter (definition : FunctionDef) (head : Go.Header) (argument : NameId)
    (spelled : String) : Prop :=
  ∃ (place : Nat) (param : Go.Param), definition.arguments[place]? = some argument ∧
    ¬argument.isNone ∧
    head.params[place]? = some param ∧ param.name = some spelled

/-- A named argument has a parameter in the header. -/
theorem exists_namesParameter (hs : Reached env s) {f : Frame} {name : String} {head : Go.Header}
    (h : Yields env (header f name) s head s') (hentry : ¬IsEntry env f) {place : Nat}
    {argument : NameId} (hargument : f.definition.arguments[place]? = some argument)
    (hnamed : ¬argument.isNone) (hplace : place < f.arguments.length) :
    ∃ spelled, NamesParameter f.definition head argument spelled := by
  rcases header_params hs h with ⟨hentry', -⟩ | ⟨-, s₁, s₂, hs₁, hparams⟩
  · exact absurd hentry' hentry
  · obtain ⟨param, spelled, hparam, hspelled⟩ :=
      (parameters_spelled hs₁ hparams hargument hnamed).1 hplace
    exact ⟨spelled, place, param, hargument, hnamed, hparam, hspelled⟩

/-- A parameter is spelled as its argument. -/
theorem NamesParameter.spelling_eq (hs : Reached env s) {f : Frame} {name : String}
    {head : Go.Header} (h : Yields env (header f name) s head s') {argument : NameId}
    {spelled : String} (hparameter : NamesParameter f.definition head argument spelled) :
    Identifier.spelling env.dict ⟨argument, false, none⟩ = .ok spelled := by
  obtain ⟨place, param, hargument, hnamed, hparam, hspelled⟩ := hparameter
  rcases header_params hs h with ⟨-, hentry⟩ | ⟨-, s₁, s₂, hs₁, hparams⟩
  · -- The parameters of the entry have no names.
    have hunnamed : ∀ p ∈ entryParameters, p.name = none := by simp [entryParameters]
    rw [hentry] at hparam
    rw [hunnamed param (List.mem_of_getElem? hparam)] at hspelled
    cases hspelled
  · exact (parameters_spelled hs₁ hparams hargument hnamed).2 param spelled hparam hspelled

/-! ## Whole files -/

/-- Objects are written one after the other. -/
theorem exists_yields_objectDefinition {index : Nat} {objects : List Object} {u : Unit}
    (h : Yields env (objectDefinitions index objects) s u s') {place : Nat} {o : Object}
    (ho : objects[place]? = some o) :
    ∃ s₁ s₂, Evolves env s s₁ ∧ Yields env (objectDefinition (index + place) o) s₁ () s₂ ∧
    Evolves env s₂ s' := by
  induction objects generalizing index s place with
  | nil => simp at ho
  | cons first rest ih =>
    rw [objectDefinitions, yields_bind] at h
    obtain ⟨⟨⟩, s₁, hfirst, hrest⟩ := h
    cases place with
    | zero =>
      cases ho
      exact ⟨s, s₁, .refl s, hfirst, (steady_objectDefinitions _ _).evolves hrest⟩
    | succ place =>
      obtain ⟨s₂, s₃, hs₂, ho, hs₃⟩ := ih hrest ho
      refine ⟨s₂, s₃, ((steady_objectDefinition _ _).evolves hfirst).trans hs₂, ?_, hs₃⟩
      rwa [Nat.add_right_comm] at ho

/-- The definition of a function object is that of the function. -/
theorem exists_yields_functionDefinition (hs : Reached env s) {index : Nat}
    {definition : FunctionDef}
    (h : Yields env (objectDefinition index (.function definition)) s () s') :
    ∃ s₁, Reached env s₁ ∧ Yields env (functionDefinition index definition) s₁ () s' := by
  obtain ⟨s₁, hnote, hwrite⟩ := exists_yields_of_objectDefinition h
  exact ⟨s₁, hs.evolves ((steady_note _).evolves hnote), hwrite⟩

/-- A function that is no stub is written with a header. -/
theorem exists_header_of_functionDefinition (hs : Reached env s) {index : Nat}
    {definition : FunctionDef} {u : Unit}
    (h : Yields env (functionDefinition index definition) s u s')
    (hobject : env.program.objects[index]? = some (.function definition))
    (hstub : ¬definition.isStub) :
    ∃ f name head comment locals blocks,
      Frame.ofDefinition env.program.types index definition = .ok f ∧
      Gives env (header f name) head ∧
      .function ⟨name, head.text, comment, locals, blocks⟩ ∈ s'.items := by
  obtain ⟨f, nodes, head, ⟨name, _, comment, locals, blocks⟩, items, hwrites, -, hitems⟩ :=
    exists_writes_of_functionDefinition hs h hobject hstub
  obtain rfl := hwrites.header_eq
  exact ⟨f, name, head, comment, locals, blocks, hwrites.frame_eq, hwrites.head_given,
    hitems ▸ List.mem_concat_self⟩

/-- The answer of the generator is the text of the file. -/
theorem yields_of_generate {text : String} (h : (generate env).answer = .text text) :
    ∃ s, Yields env fileText (.start env.target) text s := by
  unfold generate at h
  rcases hrun : (fileText env).perform (.start env.target) with ⟨result, s⟩
  rw [hrun] at h
  cases result with
  | ok text' =>
    cases h
    exact ⟨s, hrun⟩
  | error e =>
    dsimp only at h
    split at h <;> cases h

/-- Every object is written in some state of emission, and what is written stays in the file up to
clean-up. -/
theorem exists_yields_of_fileText {text : String}
    (h : Yields env fileText (.start env.target) text s') {index : Nat} {o : Object}
    (ho : env.program.objects[index]? = some o) :
    ∃ s₁ s₂ items report items', Reached env s₁ ∧
      Yields env (objectDefinition index o) s₁ () s₂ ∧ s₂.items ⊆ items ∧
      Go.simplifyItems .empty items = .ok (report, items') ∧ text = Go.sourceText items' := by
  simp only [fileText, fileItems, yields_bind, yields_read, yields_get, yields_pure,
    yields_lift] at h
  obtain ⟨items, s₅, ⟨_, s₀, ⟨rfl, rfl⟩, ⟨⟩, s₃, hobjects, routines, s₄, hroutines, _, _,
    ⟨rfl, rfl⟩, ⟨⟩, s₆, hnote, rfl, rfl⟩, ⟨report, items'⟩, s₇, ⟨hclean, rfl⟩, ⟨⟩, s₈, hnote',
      rfl, rfl⟩ := h
  obtain ⟨s₁, s₂, hs₁, hobject, hs₂⟩ := exists_yields_objectDefinition hobjects ho
  rw [Nat.zero_add] at hobject
  have hitems : s₂.items <+: s₄.items :=
    (hs₂.trans (steady_routineTexts.evolves hroutines)).items_grow
  exact ⟨s₁, s₂, _, report, items', hs₁, hobject,
    List.Subset.trans hitems.subset (List.subset_append_left _ _), hclean, rfl⟩

/-- Every function that is no stub is in the file. A parameter of it is spelled as an object that
the function refers to exactly if the object is unexported and has the name of the parameter. -/
theorem parameter_captures_iff {names : List Bytes} (hdict : env.dict = .ofList names)
    {text : String} (hgenerate : (generate env).answer = .text text) {index : Nat}
    {definition : FunctionDef}
    (hobject : env.program.objects[index]? = some (.function definition))
    (hstub : ¬definition.isStub) :
    ∃ (f : Frame) (name : String) (head : Go.Header) (items : List (Go.Item Go.Stmt Go.Expr))
        (g : Go.Function Go.Stmt Go.Expr),
      Frame.ofDefinition env.program.types index definition = .ok f ∧
      Gives env (header f name) head ∧
      text = Go.sourceText items ∧ .function g ∈ items ∧ g.header = head.text ∧
      (∀ (place : Nat) argument, ¬IsEntry env f → definition.arguments[place]? = some argument →
        ¬argument.isNone →
        place < f.arguments.length → ∃ spelled, NamesParameter definition head argument spelled) ∧
      ∀ argument spelled, NamesParameter definition head argument spelled →
        ∀ referred o objectText, definition.body.any (refersTo referred ·.op) →
          env.program.objects[referred]? = some o →
          Gives env (identifier o.name o.linkage.isExported none) objectText →
          (spelled = objectText ↔ o.linkage = .unexported ∧ o.name = argument) := by
  obtain ⟨s, hfile⟩ := yields_of_generate hgenerate
  obtain ⟨s₁, s₂, items, report, items', hs₁, hwrite, hitems, hclean, htext⟩ :=
    exists_yields_of_fileText hfile hobject
  obtain ⟨s₃, hs₃, hdefinition⟩ := exists_yields_functionDefinition hs₁ hwrite
  obtain ⟨f, name, head, comment, locals, blocks, hf, ⟨s₄, s₅, hs₄, hhead⟩, hitem⟩ :=
    exists_header_of_functionDefinition hs₃ hdefinition hobject hstub
  obtain ⟨blocks', hblocks'⟩ := Go.exists_mem_simplifyItems hclean (hitems hitem)
  have hdef := Frame.definition_of_ofDefinition hf
  refine ⟨f, name, head, items', _, hf, ⟨s₄, s₅, hs₄, hhead⟩, htext, hblocks', rfl, ?_, ?_⟩
  · intro place argument hentry hargument hnamed hplace
    rw [← hdef] at hargument ⊢
    exact exists_namesParameter hs₄ hhead hentry hargument hnamed hplace
  · intro argument spelled hparameter referred o objectText _ ho hobjectText
    rw [← hdef] at hparameter
    have hspelling := hparameter.spelling_eq hs₄ hhead
    rw [gives_identifier_iff] at hobjectText
    constructor
    · rintro rfl
      have hkey :=
        Identifier.spelling_inj (hdict ▸ Dictionary.distinct_ofList names) hspelling hobjectText
      obtain ⟨hname, hexported, -⟩ := Identifier.Key.mk.inj hkey
      refine ⟨?_, hname.symm⟩
      cases hlinkage : o.linkage with
      | unexported => rfl
      | exported =>
        rw [hlinkage] at hexported
        cases hexported
    · rintro ⟨hlinkage, rfl⟩
      rw [hlinkage] at hobjectText
      exact Except.ok.inj (hspelling.symm.trans hobjectText)

/-- The function `f` with the argument `x` that returns the variable `x`. -/
def capturingFunction : FunctionDef where
  name := ⟨2⟩
  linkage := .unexported
  type := ⟨14⟩
  position := .unknown
  arguments := [⟨1⟩]
  body :=
    [.beginScope, .result 0 ⟨15⟩ true, .global 0 ⟨1⟩ .unexported TypeTable.int32 false,
      .store TypeTable.int32 0 0,
    .drop TypeTable.int32, .ret, .endScope].map (⟨·, .unknown⟩)

def capturing : Env where
  dict := .ofList [[0x78], [0x66]]
  program :=
    ⟨TypeTable.empty.internEach [.function [TypeTable.int32] [TypeTable.int32] false,
      .pointer TypeTable.int32],
    [.data ⟨⟨1⟩, .unexported, TypeTable.int32, .unknown, none⟩, .function capturingFunction]⟩
  target := ⟨8, false⟩
  options := {}
  qualifier := fun _ _ => ""

/-- In the file of the program, `_x` is the argument where the variable is meant. -/
theorem capturing_text : (generate capturing).answer = .text
    ("var _x int32\nfunc _f(_x int32) (r0 int32) \x7b\n\tstore_4(&r0, _x)\n\treturn\n\x7d\n\n" ++
      "func bool2int(b bool) int32 \x7b if b \x7b return 1 \x7d; return 0 \x7d\n" ++
      "func store_4(p *int32, v int32) int32 \x7b *p = v; return v \x7d\n") :=
  Answer.eq_text_of_text? (by decide +kernel)

/-- The parameter of the function `f` is spelled as the variable `x` is. -/
theorem capturing_parameter : ∃ text, (generate capturing).answer = .text text ∧
    ∃ (items : List (Go.Item Go.Stmt Go.Expr)) (g : Go.Function Go.Stmt Go.Expr)
      (head : Go.Header),
      text = Go.sourceText items ∧ .function g ∈ items ∧ g.header = head.text ∧
      NamesParameter capturingFunction head ⟨1⟩ "_x" ∧
      capturingFunction.body.any (refersTo 0 ·.op) ∧
      Gives capturing (identifier ⟨1⟩ false none) "_x" := by
  have hobject : Gives capturing (identifier ⟨1⟩ false none) "_x" := ⟨_, _, .refl _, rfl⟩
  obtain ⟨f, name, head, items, g, hf, -, htext, hg, hheader, hexists, hiff⟩ :=
    @parameter_captures_iff capturing [[0x78], [0x66]] rfl _ capturing_text 1 capturingFunction
      rfl (by decide)
  have hentry : ¬IsEntry capturing f := by
    rintro ⟨hname, -⟩
    rw [Frame.definition_of_ofDefinition hf] at hname
    have hbytes : ([0x66] : Bytes) = [0x6D, 0x61, 0x69, 0x6E] := Except.ok.inj hname
    exact absurd hbytes (by decide)
  have hlength : f.arguments.length = 1 := by
    cases hf
    rfl
  obtain ⟨spelled, hspelled⟩ :=
    hexists 0 ⟨1⟩ hentry rfl (by decide) (by rw [hlength]; exact Nat.one_pos)
  have hcaptured : spelled = "_x" :=
    (hiff ⟨1⟩ spelled hspelled 0 _ "_x" rfl rfl hobject).2 ⟨rfl, rfl⟩
  rw [hcaptured] at hspelled
  exact ⟨_, capturing_text, items, g, head, htext, hg, hheader, hspelled, rfl, hobject⟩

/-- So it is not true that the parameters of a function never capture what it refers to. -/
theorem parameters_may_capture :
    ¬∀ (env : Env) (text : String) (index : Nat) (definition : FunctionDef) (f : Frame)
      (name : String) (head : Go.Header), (generate env).answer = .text text →
        env.program.objects[index]? = some (.function definition) → ¬definition.isStub →
        Frame.ofDefinition env.program.types index definition = .ok f →
        Gives env (header f name) head →
        ∀ argument spelled, NamesParameter definition head argument spelled →
          ∀ referred o objectText, definition.body.any (refersTo referred ·.op) →
            env.program.objects[referred]? = some o →
            Gives env (identifier o.name o.linkage.isExported none) objectText →
            spelled ≠ objectText := by
  intro h
  have hhead :
      Gives capturing (header ⟨1, capturingFunction, [TypeTable.int32], [TypeTable.int32],
        false, []⟩ "_f")
      ⟨"_f", [⟨some "_x", .scalar .int32⟩], false, some (.scalar .int32)⟩ := ⟨_, _, .refl _, rfl⟩
  exact h capturing _ 1 capturingFunction _ "_f" _ capturing_text rfl (by decide)
    rfl hhead ⟨1⟩ "_x" ⟨0, _, rfl, by decide, rfl, rfl⟩ 0 _ "_x" rfl rfl ⟨_, _, .refl _, rfl⟩ rfl

end Emit
end StackToGo
