import StackToGo.Proofs.Flow.Labels
import StackToGo.Proofs.Locals.Nesting

/-!
# Locals that are set where they are declared

The body of a function is read twice: once for the table of its locals, and once for its nodes. A
statement that sets a local to the value of its declaration has the index of the local only, and
the declaration is looked up in the table. So the two readings have to agree.
`Builder.step_settings`: each instruction adds the statement of its own declaration, if that has a
value, after those of the instructions before it. `locals_agree_with_nodes` joins this with what is
known about the table.
-/

namespace StackToGo.Flow

open Local

/-- The index of the local that a statement sets, and the place of its declaration. -/
def Statement.setting? : Statement → Option (Nat × Position)
  | .init index position => some (index, position)
  | .eval _ => none

/-- The settings of locals in nodes, in order. -/
def nodeSettings (nodes : List Node) : List (Nat × Position) :=
  nodes.flatMap fun n => n.statements.filterMap Statement.setting?

/-- The declarations that have a value, in order. -/
def initialized (body : List Instruction) : List (Declaration × Position) :=
  (declarations body).filter fun d => d.1.value.isSome

/-- The declarations with a value of a body with one more instruction. -/
theorem initialized_concat (front : List Instruction) (instruction : Instruction) :
    initialized (front ++ [instruction]) = initialized front ++ initialized [instruction] := by
  rw [initialized, declarations_append, List.filter_append]
  rfl

/-- Trees that are statements set no local. -/
theorem filterMap_setting?_eval (trees : List Tree) :
    (trees.map Statement.eval).filterMap Statement.setting? = [] := by
  rw [List.filterMap_map, List.filterMap_eq_nil_iff]
  intro t _
  rfl

namespace Builder

variable {types : TypeTable} {b b' : Builder} {position : Position} {op : Op}

/-- The settings of locals so far. -/
def settings (b : Builder) : List (Nat × Position) :=
  nodeSettings b.nodes ++ b.statements.filterMap Statement.setting?

/-- The statement that an instruction adds, if it declares a local with a value. -/
def added (instruction : Instruction) : List (Nat × Position) :=
  (initialized [instruction]).map fun d => (d.1.index, d.2)

/-- Only declarations add settings. -/
theorem added_of_not_declare (h : ∀ d, op ≠ .declare d) : added ⟨op, position⟩ = [] := by
  cases op with
  | declare d => exact absurd rfl (h d)
  | _ => rfl

/-- An instruction that declares nothing leaves the settings as they are. -/
theorem settings_of_not_declare (h : ∀ d, op ≠ .declare d) (hsettings : b'.settings = b.settings) :
    b'.settings = b.settings ++ added ⟨op, position⟩ := by
  rw [hsettings, added_of_not_declare h, List.append_nil]

/-- Ending a node keeps the settings. -/
theorem settings_endNode (exit : Exit) : (b.endNode exit).settings = b.settings := by
  simp [settings, endNode, nodeSettings]

/-- A statement adds its setting. -/
theorem settings_addStatement (s : Statement) :
    (b.addStatement s).settings = b.settings ++ s.setting?.toList := by
  cases h : s.setting? <;> simp [settings, addStatement, h]

/-- An instruction inside a node adds a setting only if it declares a local with a value. -/
theorem Inner.settings_eq (h : Inner types b position op b') :
    b'.settings = b.settings ++ added ⟨op, position⟩ := by
  cases h with
  | idle h =>
    cases op with
    | declare d =>
      have hnone : d.value = none := Option.isNone_iff_eq_none.1 h
      simp [added, initialized, declarations, declared?, hnone]
    | beginScope | endScope => exact (List.append_nil _).symm
    | _ => cases h
  | @declare d h hstack hpending =>
    have hsome : d.value.isSome = true := by simpa using h
    rw [settings_addStatement]
    simp [added, initialized, declarations, declared?, hsome, Statement.setting?]
  | operate _ hop | call hop | callEffect hop =>
    exact settings_of_not_declare (by rintro d rfl; cases hop) rfl
  | callStatement hop =>
    refine settings_of_not_declare (by rintro d rfl; cases hop) ?_
    rw [settings_addStatement]
    exact List.append_nil _
  | dropStatement hstack =>
    refine settings_of_not_declare (by rintro d ⟨⟩) ?_
    rw [settings, List.filterMap_append, filterMap_setting?_eval, List.append_nil]
    rfl
  | @guard _ _ onZero => exact settings_of_not_declare (by cases onZero <;> rintro d ⟨⟩) rfl
  | _ => exact settings_of_not_declare (by rintro d ⟨⟩) rfl

/-- A declaration does not end a node. -/
theorem Exits.not_declare {operands : List Tree} {exit : Exit} (h : Exits op operands exit)
    (d : Declaration) : op ≠ .declare d := by
  cases h with
  | branch _ _ onZero => cases onZero <;> rintro ⟨⟩
  | _ => rintro ⟨⟩

/-- Every step adds the setting of its instruction. -/
theorem step_settings (h : b.step types ⟨op, position⟩ = .ok b') :
    b'.settings = b.settings ++ added ⟨op, position⟩ := by
  rcases rule_or_dup h with hrule | ⟨type, address, below, rfl, hstack, hpending, rfl⟩
  · cases hrule with
    | inner hinner => exact hinner.settings_eq
    | exit hexit hstack hpending =>
      exact settings_of_not_declare hexit.not_declare (settings_endNode _)
    | @label label hstack hpending =>
      refine settings_of_not_declare (by rintro d ⟨⟩) ?_
      by_cases hblank : b.isBlank
      · rw [if_pos hblank]
        rfl
      · rw [if_neg hblank]
        exact settings_endNode (.jump label)
  · exact settings_of_not_declare (by rintro d ⟨⟩) rfl

/-- After a run the settings are those of its declarations with a value. -/
theorem run_settings {front : List Instruction} (h : start.run types front = .ok b) :
    b.settings = (initialized front).map fun d => (d.1.index, d.2) := by
  refine run_induction (P := fun front b => b.settings =
    (initialized front).map fun d => (d.1.index, d.2)) rfl ?_ h
  rintro front b instruction b' - hb hstep
  rw [step_settings hstep, hb, initialized_concat, List.map_append]
  rfl

end Builder

/-- The nodes of a body set the locals that are declared with a value, in the order of their
declarations. -/
theorem build_settings {types : TypeTable} {body : List Instruction} {nodes : List Node}
    (h : build types body = .ok nodes) :
    nodeSettings nodes = (initialized body).map fun d => (d.1.index, d.2) := by
  obtain ⟨b, hrun, hfinish⟩ := bind_eq_ok h
  rw [← Builder.run_settings hrun, Builder.settings]
  obtain ⟨-, -, ⟨rfl, hblank, -⟩ | rfl⟩ := Builder.finish_eq_ok hfinish
  · simp [(Builder.isBlank_iff.1 hblank).2]
  · simp [nodeSettings]

/-- A body has a table of locals exactly if its blocks are nested and its declarations are numbered
in order. The entries of the table are the declarations in order; each local belongs to no block if
at most one is open where it is declared, and else to the innermost one. If the body has nodes too,
their statements set the locals that are declared with a value, in order, and by its index each of
these statements finds its own declaration. -/
theorem locals_agree_with_nodes (types : TypeTable) (body : List Instruction) :
    ((∃ locals, Local.ofBody body = .ok locals) ↔ WellNested body ∧ NumberedInOrder body) ∧
      ∀ locals, Local.ofBody body = .ok locals →
        locals.length = (declarations body).length ∧
        (∀ front declaration position rest, body =
          front ++ ⟨.declare declaration, position⟩ :: rest →
          ∃ scope, locals[(declarations front).length]? = some ⟨declaration, position, scope⟩ ∧
            (scope = none ↔ depth front ≤ 1) ∧
            (1 < depth front → ∃ outer, InnermostOpen front outer ∧
              scope = some (outer.countP isBegin))) ∧
        ∀ nodes, build types body = .ok nodes →
          nodeSettings nodes = (initialized body).map (fun d => (d.1.index, d.2)) ∧
          ∀ f : Frame, f.locals = locals →
            (nodeSettings nodes).map (fun s => (f.getLocal s.1).map Local.site) =
              (initialized body).map .ok := by
  refine ⟨ofBody_isOk_iff body, fun locals hlocals => ⟨?_, ?_, fun nodes hnodes => ?_⟩⟩
  · rw [← ofBody_sites hlocals, List.length_map]
  · intro front declaration position rest hbody
    have hnested := ((ofBody_isOk_iff body).1 ⟨locals, hlocals⟩).1
    exact ⟨_, ofBody_entry hlocals hbody, scopeAfter_spec hbody hnested⟩
  · have hsettings := build_settings hnodes
    refine ⟨hsettings, ?_⟩
    rintro f rfl
    rw [hsettings, List.map_map]
    exact List.map_congr_left fun d hd => getLocal_site hlocals (List.mem_of_mem_filter hd)

/-- Two blocks one after the other, the first with a label in it. The local without a value is not
set. -/
def nestedBody : List Instruction :=
  [.beginScope, .declare ⟨0, ⟨1⟩, TypeTable.int32, some (.int32 1)⟩, .beginScope,
    .declare ⟨1, ⟨2⟩, TypeTable.int32, none⟩, .label (.number 5) .plain,
    .declare ⟨2, ⟨1⟩, TypeTable.int32, some (.int32 2)⟩, .endScope, .beginScope,
      .declare ⟨3, ⟨2⟩, TypeTable.int32, some (.int32 3)⟩, .endScope, .ret, .endScope].mapIdx
      fun column op => ⟨op, ⟨"nested.c", 1, column⟩⟩

/-- The locals and the nodes of the body agree on its blocks. -/
theorem nestedBody_agrees :
    ∃ locals nodes, Local.ofBody nestedBody = .ok locals ∧
      build TypeTable.empty nestedBody = .ok nodes ∧
      locals.map (·.scope) = [none, some 1, some 1, some 2] ∧ nodes.length = 2 ∧
      (nodeSettings nodes).map (fun s => (s.1, s.2.column)) = [(0, 1), (2, 5), (3, 8)] ∧
      ∀ f : Frame, f.locals = locals →
        (nodeSettings nodes).map (fun s => (f.getLocal s.1).map Local.site) =
          (initialized nestedBody).map .ok := by
  obtain ⟨locals, hlocals, hscopes⟩ : ∃ locals, Local.ofBody nestedBody = .ok locals ∧
      locals.map (·.scope) = [none, some 1, some 1, some 2] := ⟨_, rfl, rfl⟩
  obtain ⟨nodes, hnodes, hlength⟩ : ∃ nodes, build TypeTable.empty nestedBody = .ok nodes ∧
      nodes.length = 2 :=
    ⟨_, rfl, rfl⟩
  obtain ⟨hsettings, hresolves⟩ :=
    ((locals_agree_with_nodes TypeTable.empty nestedBody).2 locals hlocals).2.2
    nodes hnodes
  refine ⟨locals, nodes, hlocals, hnodes, hscopes, hlength, ?_, hresolves⟩
  rw [hsettings]
  rfl

end StackToGo.Flow
