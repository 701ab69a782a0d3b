import StackToGo.Proofs.Emit.Objects

/-!
# Support functions of a file

A file declares the routines and the accessor of the string table that its code calls, and no
others. `support_declared_iff_requested`: what the objects asked for while they were written is
declared once, with parameters whose types are made of the Go text of its type, and what they did
not ask for is not declared. All that the code calls was asked for. All that was asked for is
called by what was written for the objects, although clean-up may remove the call.
-/

namespace StackToGo

namespace StringPool

/-- The accessor declares `str`. -/
theorem declaredName_accessor : Go.declaredName accessor = "str" := by decide

/-- The table declares `strTab`. -/
theorem declaredName_table (p : StringPool) : Go.declaredName p.table = "strTab" := by
  have hstart : "var strTab = []byte(\"".toList =
      "var".toList ++ ' ' :: ("strTab".toList ++ ' ' :: "= []byte(\"".toList) :=
    rfl
  have hline :
      p.table.toList = "var".toList ++ ' ' :: ("strTab".toList ++ ' ' :: ("= []byte(\"".toList ++
      ((escapeBytes p.data).toList ++ "\")".toList))) := by
    unfold table
    rw [String.toList_append, String.toList_append, hstart]
    simp only [List.append_assoc, List.cons_append]
  exact Go.declaredName_eq hline (by decide) (by decide) (.inl rfl)

end StringPool

namespace Emit

open StackToGo.Go
open StackToGo.Identifier (IsLegal isLegal_of_spelling)

variable {env : Env} {s s' : State} {parts : List (List (Item Stmt Expr))} {routines : List String}
  {out : List (Item Stmt Expr)}

/-! ## Requests -/

/-- Every routine is on the list once. -/
theorem Evolves.nodup_requests (h : Evolves env s s') (hs : s.needs.requests.Nodup) :
    s'.needs.requests.Nodup := by
  induction h with
  | refl | goType | sizeOf | identifier | stringOffset | addItem | note | routineTexts => exact hs
  | trans _ _ ih ih' => exact ih' (ih hs)
  | require s family id => exact Routine.Needs.nodup_require hs family id
  | package? s index =>
    obtain ⟨packages, asked, h⟩ := package?_frame env s index
    rwa [h]
  | compound _ ih => exact ih hs

/-! ## What the parts of objects declare -/

/-- A legal identifier has no other characters than the parts of identifiers and `X`. -/
theorem not_mem_toList_of_isLegal {text : String} (h : IsLegal text) {c : Char}
    (hc : ¬Identifier.IsPart c) (hX : c ≠ 'X') : c ∉ text.toList := by
  obtain ⟨first, rest, hlist, hfirst, -, hrest⟩ := h
  rw [hlist, List.mem_cons]
  rintro (rfl | hmem)
  · rcases hfirst with rfl | rfl
    · exact hX rfl
    · exact hc (.inr (.inl rfl))
  · exact hc (hrest c hmem)

/-- A legal identifier has no blank and no parenthesis. -/
theorem plain_of_isLegal {text : String} (h : IsLegal text) :
    ' ' ∉ text.toList ∧ '(' ∉ text.toList := by
  constructor
  · exact not_mem_toList_of_isLegal h (by unfold Identifier.IsPart; decide) (by decide)
  · exact not_mem_toList_of_isLegal h (by unfold Identifier.IsPart; decide) (by decide)

/-- A function declares the name in its header. -/
theorem declaredName_function {g : Go.Function Stmt Expr} {head : Go.Header}
    (hname : IsLegal head.name) (hheader : g.header = head.text) :
    declaredName (Item.function g).firstLine = head.name := by
  obtain ⟨rest, hrest⟩ :
      ∃ rest, g.header.toList = "func".toList ++ ' ' :: (head.name.toList ++ '(' :: rest) :=
    ⟨_, by rw [hheader, Header.text]; simp only [String.toList_append, List.append_assoc]; rfl⟩
  obtain ⟨tail, htail⟩ : ∃ tail, g.firstLine = g.header ++ tail := by
    unfold Function.firstLine
    split
    · exact ⟨_, by rw [String.append_assoc]⟩
    · exact ⟨_, rfl⟩
  have hline :
      g.firstLine.toList = "func".toList ++ ' ' ::
        (head.name.toList ++ '(' :: (rest ++ tail.toList)) := by
    rw [htail, String.toList_append, hrest]
    simp
  exact declaredName_eq hline (by decide) (plain_of_isLegal hname) (.inr rfl)

/-- A declaration of a variable declares its name. -/
theorem declaredName_declarationText {name : String} (hname : IsLegal name) (t : Go.Ty)
    (comment : Option String) : declaredName (declarationText name t comment) = name := by
  obtain ⟨rest, hrest⟩ : ∃ rest, (declarationText name t comment).toList =
      "var".toList ++ ' ' :: (name.toList ++ ' ' :: rest) := by
    unfold declarationText
    cases comment <;> exact ⟨_, by simp only [String.toList_append, List.append_assoc]; rfl⟩
  exact declaredName_eq hrest (by decide) (plain_of_isLegal hname) (.inl rfl)

/-- The parts of an object declare names of the program, or what runs before it starts. -/
theorem Written.declares {index : Nat} {o : Object} {part : List (Item Stmt Expr)}
    (h : Written env index o part) {item : Item Stmt Expr} (hitem : item ∈ part) :
    IsLegal (declaredName item.firstLine) ∨ declaredName item.firstLine = "init" := by
  cases h with
  | stub h => cases hitem
  | function hstub hwrites hname hhead =>
    obtain rfl := List.mem_singleton.1 hitem
    have hlegal := isLegal_of_spelling hname
    rw [← hhead] at hlegal
    rw [declaredName_function hlegal hwrites.header_eq]
    exact .inl hlegal
  | data hname t comment initial =>
    rcases List.mem_cons.1 hitem with rfl | hitem
    · have hlegal := isLegal_of_spelling hname
      left
      rwa [show (Item.text (declarationText _ t comment)).firstLine =
        declarationText _ t comment from rfl,
        declaredName_declarationText hlegal]
    · obtain ⟨statement, -, rfl⟩ := List.mem_map.1 hitem
      right
      show declaredName "func init() \x7b" = "init"
      decide

/-! ## What the file declares -/

/-- What begins with neither `X` nor an underscore is no legal identifier. -/
theorem not_isLegal {x : String} (h : x.toList.head? ≠ some 'X' ∧ x.toList.head? ≠ some '_') :
    ¬IsLegal x := by
  rintro ⟨first, rest, hlist, hfirst, -⟩
  rw [hlist] at h
  rcases hfirst with rfl | rfl
  · exact h.1 rfl
  · exact h.2 rfl

/-- Names that are not those of the program are declared by the texts behind the objects. -/
theorem File.declarations_eq (h : File env s parts routines out) {x : String} (hx : ¬IsLegal x)
    (hinit : x ≠ "init") (hbool : x ≠ "bool2int") :
    declarations x out =
        routines.filter (declaredName · = x) ++ s.strings.declarations.filter
          (declaredName · = x) := by
  have hparts : declarations x parts.flatten = [] := by
    refine declarations_eq_nil fun item hitem heq => ?_
    obtain ⟨part, hpart, hitem⟩ := List.mem_flatten.1 hitem
    obtain ⟨o, -, hwritten⟩ := exists_mem_of_forall₂ h.written.flip hpart
    rcases hwritten.declares hitem with hlegal | hname
    · exact hx (heq ▸ hlegal)
    · exact hinit (heq ▸ hname)
  have hfirst : declaredName Routine.boolToInt = "bool2int" := by decide
  rw [declarations_of_cleaned h.cleaned, declarations_append, hparts, declarations_text,
    List.cons_append, List.filter_cons_of_neg (by simpa [hfirst] using hbool.symm),
    List.filter_append, List.nil_append]

/-- The routines of a file are those that were asked for, each once. -/
theorem File.exists_order (h : File env s parts routines out) :
    ∃ order : List (Routine.Family × TypeId),
      order.Perm s.needs.requests ∧ order.Nodup ∧
      List.Forall₂ (fun key text => Routine.Defines env.program.types env.target key.1 key.2 text)
        order routines := by
  obtain ⟨m, hm, htexts⟩ := h.routines_given
  obtain ⟨entries, hperm, -, hentries⟩ := (Routine.maintains_texts s.needs m hm).2 routines htexts
  refine ⟨entries.map Routine.Entry.key, hperm,
    hperm.nodup_iff.2 (Evolves.nodup_requests h.reached List.nodup_nil), ?_⟩
  rw [List.forall₂_map_left_iff]
  exact hentries.imp fun e text he => he.defines

/-- If there is a need the name is declared once, as it should be, and otherwise it is not
declared. -/
def DeclaredIf (need : Prop) (x : String) (P : String → Prop) (out : List (Item Stmt Expr)) :
    Prop :=
  (need → ∃ text, P text ∧ declarations x out = [text]) ∧ (¬need → declarations x out = [])

/-- A routine is declared just if it was asked for. -/
theorem File.declaredIf_routine (h : File env s parts routines out) (family : Routine.Family)
    (id : TypeId) :
    DeclaredIf ((family, id) ∈ s.needs.requests) (Routine.name family id)
      (Routine.Defines env.program.types env.target family id) out := by
  have hsupport := Routine.isSupportName_name family id
  have hlegal : ¬IsLegal (Routine.name family id) := by
    refine not_isLegal ?_
    rw [Routine.toList_name]
    cases family <;> simp [Routine.Family.stem]
  have hne (x : String) (hx : isSupportName x = false) : Routine.name family id ≠ x := by
    rintro rfl
    rw [hsupport] at hx
    cases hx
  -- Neither the names of the program nor the other support functions get in the way.
  have hstrings :
      s.strings.declarations.filter (declaredName · = Routine.name family id) = [] := by
    rw [StringPool.declarations_eq]
    split
    · rfl
    · simp [StringPool.declaredName_accessor, StringPool.declaredName_table,
        (hne "strTab" (by decide)).symm, (Routine.name_ne_str family id).symm]
  obtain ⟨order, hperm, hnodup, horder⟩ := h.exists_order
  rw [DeclaredIf, h.declarations_eq hlegal (hne "init" (by decide)) (hne "bool2int" (by decide)),
    hstrings, List.append_nil, ← hperm.mem_iff]
  refine ⟨fun hmem => Routine.filter_texts horder hnodup hmem, fun hmem => ?_⟩
  refine Routine.filter_texts_eq_nil horder fun key hkey heq => hmem ?_
  obtain ⟨hfamily, hid⟩ := Routine.name_inj heq
  rwa [show (family, id) = key from Prod.ext hfamily.symm hid.symm]

/-- The accessor and the table are declared just if the pool is not empty. -/
theorem File.declaredIf_string (h : File env s parts routines out) {x text : String}
    (hlegal : ¬IsLegal x) (hinit : x ≠ "init") (hbool : x ≠ "bool2int")
    (hroutine : ∀ family id, Routine.name family id ≠ x)
    (htext : [StringPool.accessor, s.strings.table].filter (declaredName · = x) = [text]) :
    DeclaredIf (s.strings.isEmpty = false) x (· = text) out := by
  have hroutines : routines.filter (declaredName · = x) = [] := by
    obtain ⟨order, -, -, horder⟩ := h.exists_order
    exact Routine.filter_texts_eq_nil horder fun key _ => hroutine key.1 key.2
  rw [DeclaredIf, h.declarations_eq hlegal hinit hbool, hroutines, List.nil_append,
    StringPool.declarations_eq]
  constructor
  · intro hempty
    rw [if_neg (by simp [hempty])]
    exact ⟨text, rfl, htext⟩
  · intro hempty
    rw [if_pos (by simpa using hempty)]
    rfl

/-- In every file, a routine that some object asked for is declared once, by a function whose
parameters and result have types made of the Go text of its type, and no other routine is declared.
The accessor and the table of strings are declared once if some object asked for a string, and
otherwise not at all. What the code of the file calls was asked for, and what was asked for is
called in the parts of the objects as they were written. -/
theorem support_declared_iff_requested {text : String} (h : (generate env).answer = .text text) :
    ∃ out s, fileParts env = .ok (out, s) ∧ text = sourceText out ∧
      (∀ family id, DeclaredIf ((family, id) ∈ s.needs.requests) (Routine.name family id)
        (Routine.Defines env.program.types env.target family id) out) ∧
      DeclaredIf (s.strings.isEmpty = false) "str" (· = StringPool.accessor) out ∧
      DeclaredIf (s.strings.isEmpty = false) "strTab" (· = s.strings.table) out ∧
      (∀ c ∈ out.flatMap Item.calls, ∀ family id, c.name = Routine.name family id →
        (family, id) ∈ s.needs.requests) ∧
      (∀ c ∈ out.flatMap Item.calls, c.name = "str" → s.strings.isEmpty = false) ∧
      (∀ family id, (family, id) ∈ s.needs.requests →
        ∃ c ∈ s.items.flatMap Item.calls, c.name = Routine.name family id) ∧
      (s.strings.isEmpty = false → ∃ c ∈ s.items.flatMap Item.calls, c.name = "str") := by
  obtain ⟨s, parts, routines, out, hfile, hparts, htext⟩ := exists_file_of_generate h
  have hstart (family : Routine.Family) (id : TypeId) :
      (family, id) ∉ (State.start env.target).needs.requests :=
    List.not_mem_nil
  refine ⟨out, s, hparts, htext, hfile.declaredIf_routine, ?_, ?_, ?_, ?_, ?_, ?_⟩
  · refine hfile.declaredIf_string (not_isLegal (by decide)) (by decide)
      (by decide) Routine.name_ne_str ?_
    simp [StringPool.declaredName_accessor, StringPool.declaredName_table]
  · refine hfile.declaredIf_string (not_isLegal (by decide)) (by decide) (by decide) ?_ ?_
    · intro family id heq
      exact absurd (heq ▸ Routine.isSupportName_name family id) (by decide)
    · simp [StringPool.declaredName_accessor, StringPool.declaredName_table]
  · exact fun c hc => hfile.supply.routine c (hfile.calls_subset hc)
  · intro c hc hname
    obtain ⟨id, offset, start, -, hlookup, -⟩ :=
      hfile.supply.string c (hfile.calls_subset hc) hname
    exact StringPool.isEmpty_of_lookup hlookup
  · intro family id hmem
    rw [hfile.items_eq]
    exact (hfile.supply.called family id hmem).resolve_left (hstart family id)
  · intro hpooled
    rw [hfile.items_eq]
    exact (hfile.supply.pooled hpooled).resolve_left (by rintro ⟨⟩)

/-- A program with a variable `x`, a function `f` that stores its value in the result, and a
pointer `p` to a string. -/
def storing : Env where
  dict := .ofList [[0x78], [0x66], [0x70]]
  program :=
    ⟨TypeTable.empty.internEach [.function [TypeTable.int32] [TypeTable.int32] false,
      .pointer TypeTable.int32,
    .pointer TypeTable.int8],
    [.data ⟨⟨1⟩, .unexported, TypeTable.int32, .unknown, none⟩, .function capturingFunction,
      .data ⟨⟨3⟩, .unexported, ⟨16⟩, .unknown, some (.string ⟨1⟩ 0)⟩]⟩
  target := ⟨8, false⟩
  options := {}
  qualifier := fun _ _ => ""

/-- Its file declares the one store that is called, with parameters of the type that is stored. -/
theorem storing_support : ∃ text out s, (generate storing).answer = .text text ∧
    fileParts storing = .ok (out, s) ∧ text = sourceText out ∧
    ⟨"store_4", none⟩ ∈ out.flatMap Item.calls ∧
    declarations "store_4" out =
      ["func store_4(p *int32, v int32) int32 \x7b *p = v; return v \x7d"] ∧
    DeclaresFunction "func store_4(p *int32, v int32) int32 \x7b *p = v; return v \x7d" "store_4"
      [("p", "*int32"), ("v", "int32")] "int32" ∧
    declarations "copy_4" out = [] ∧ declarations "str" out = [StringPool.accessor] ∧
    declarations "strTab" out = [s.strings.table] := by
  obtain ⟨text, htext⟩ :=
    Option.isSome_iff_exists.1 (by decide +kernel : (generate storing).answer.text?.isSome)
  obtain ⟨out, s, hparts, hsource, hroutine, haccessor, htable, hcalled, hstring, -⟩ :=
    support_declared_iff_requested (Answer.eq_text_of_text? htext)
  have hcalls : out.flatMap Item.calls = [⟨"store_4", none⟩, ⟨"str", some 0⟩] :=
    eq_of_fileParts (g := (·.1.flatMap Item.calls)) (by decide +kernel) hparts
  have hneeds : s.needs.requests = [(.store, ⟨4⟩)] :=
    eq_of_fileParts (g := (·.2.needs.requests)) (by decide +kernel) hparts
  have hpooled : s.strings.isEmpty = false := hstring ⟨"str", some 0⟩ (by simp [hcalls]) rfl
  have hrequested : (.store, ⟨4⟩) ∈ s.needs.requests :=
    hcalled ⟨"store_4", none⟩ (by simp [hcalls]) _ _ rfl
  obtain ⟨_, ⟨k, t, hk, ht, hheader, rfl⟩, hstore⟩ := (hroutine .store ⟨4⟩).1 hrequested
  obtain ⟨_, rfl, haccessor⟩ := haccessor.1 hpooled
  obtain ⟨_, rfl, htable⟩ := htable.1 hpooled
  cases hk
  cases ht
  refine ⟨text, out, s, Answer.eq_text_of_text? htext, hparts, hsource, by simp [hcalls],
    hstore, hheader, ?_, haccessor, htable⟩
  exact (hroutine .copy ⟨4⟩).2 (by simp [hneeds])

end Emit
end StackToGo
