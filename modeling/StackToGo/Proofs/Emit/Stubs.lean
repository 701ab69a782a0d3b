import StackToGo.Proofs.Emit.Objects

/-!
# Stubs and their packages

A stub is a function that the program only names: some Go package implements it.
`stubs_asked_once`: whichever way generation ends, no package was asked for twice, and only
packages of stubs were asked for. If there is a file, then the package of each stub was asked for,
and the Go functions of the file are those of the other functions of the program, in the order of
the objects.
-/

namespace StackToGo

/-- The function of an object with its place, if the object is one and no stub. -/
def ownFunction (index : Nat) : Object → List (FunctionDef × Nat)
  | .function f => if f.isStub then [] else [(f, index)]
  | .data _ => []

/-- The functions that the program has code for, with the places of their objects. -/
def Program.ownFunctions (p : Program) : List (FunctionDef × Nat) :=
  p.objects.zipIdx.flatMap fun o => ownFunction o.2 o.1

namespace Go

/-- The function that a part of a file is, if it is one. -/
def Item.function? : Item Stmt Expr → Option (Function Stmt Expr)
  | .function f => some f
  | _ => none

/-- The functions of a file with their own blocks. -/
def functions (items : List (Item Stmt Expr)) : List (Function Stmt Expr) :=
  items.filterMap Item.function?

/-- The functions in parts in front and behind. -/
theorem functions_append (front back : List (Item Stmt Expr)) :
    functions (front ++ back) = functions front ++ functions back := List.filterMap_append

/-- The functions of all parts are those of each of them. -/
theorem functions_flatten (parts : List (List (Item Stmt Expr))) :
    functions parts.flatten = parts.flatMap functions := by
  rw [functions, List.filterMap_flatten, List.flatMap]
  rfl

/-- Texts hold no functions. -/
theorem functions_text (texts : List String) : functions (texts.map .text) = [] := by
  rw [functions, List.filterMap_map, List.filterMap_eq_nil_iff]
  exact fun _ _ => rfl

/-- Clean-up goes through the functions one by one. -/
theorem forall₂_functions {items items' : List (Item Stmt Expr)}
    (h : List.Forall₂ Cleaned items items') :
    List.Forall₂ (fun f g => Cleaned (.function f) (.function g)) (functions items)
      (functions items') := by
  refine List.rel_filterMap (fun item item' hitem => ?_) h
  cases hitem with
  | function h => exact .some (.function h)
  | init | text => exact .none

end Go

namespace Emit

open StackToGo.Go

variable {env : Env} {s s' : State}

/-! ## Packages that were asked for -/

/-- The places of the objects with packages, in the order in which these were asked for. -/
def askedPlaces (packages : List (Nat × Option String)) : List Nat :=
  (packages.reverse.filter (·.2.isSome)).map (·.1)

/-- An object is asked about last if it is the last one with a package. -/
theorem askedPlaces_cons (index : Nat) (package : Option String)
    (packages : List (Nat × Option String)) :
    askedPlaces ((index, package) :: packages) =
      askedPlaces packages ++ if package.isSome then [index] else [] := by
  rw [askedPlaces, List.reverse_cons, List.filter_append, List.map_append, List.filter_singleton]
  cases package <;> rfl

/-- What is known about packages was asked for, once for each object. -/
structure Inquired (env : Env) (packages : List (Nat × Option String)) (asked : List FunctionDef) :
    Prop where
  nodup : (packages.map (·.1)).Nodup
  asks : List.Forall₂ (fun index f => env.program.objects[index]? = some (.function f) ∧ f.isStub)
    (askedPlaces packages) asked

/-- No object is asked about twice. -/
theorem Inquired.nodup_askedPlaces {packages : List (Nat × Option String)}
    {asked : List FunctionDef} (h : Inquired env packages asked) :
    (askedPlaces packages).Nodup := by
  have hsublist : (askedPlaces packages).Sublist (packages.reverse.map (·.1)) :=
    List.filter_sublist.map _
  refine hsublist.nodup ?_
  rw [List.map_reverse, List.nodup_reverse]
  exact h.nodup

/-- Looking up a package asks at most once. -/
theorem Inquired.package? (h : Inquired env s.packages s.asked) (index : Nat) :
    Inquired env ((package? index env).perform s).2.packages
      ((package? index env).perform s).2.asked := by
  rw [perform_package?]
  split
  · exact h
  · exact h
  · rename_i o hunknown ho
    -- Only an object without an entry gets one, and only the entry of a stub comes with a
    -- question.
    refine ⟨List.nodup_cons.2 ⟨fun hmem => ?_, h.nodup⟩, ?_⟩
    · obtain ⟨entry, hentry, hindex⟩ := List.mem_map.1 hmem
      have hdifferent := List.lookup_eq_none_iff.1 hunknown entry hentry
      simp [hindex] at hdifferent
    · rw [askedPlaces_cons]
      cases o with
      | data d => simpa [packageOf] using h.asks
      | function f =>
        by_cases hstub : f.isStub
        · simp only [packageOf, hstub, if_true]
          exact List.rel_append h.asks (.cons ⟨ho, hstub⟩ .nil)
        · simpa [packageOf, hstub] using h.asks

/-- Emission asks at most once for each object. -/
theorem Evolves.inquired (h : Evolves env s s') (hs : Inquired env s.packages s.asked) :
    Inquired env s'.packages s'.asked := by
  induction h with
  | refl | goType | sizeOf | identifier | stringOffset | require | addItem | note | routineTexts =>
    exact hs
  | trans _ _ ih ih' => exact ih' (ih hs)
  | package? s index => exact hs.package? index
  | compound _ ih => exact ih hs

/-- Who was asked about stays so. -/
theorem Evolves.mem_askedPlaces (h : Evolves env s s') {index : Nat}
    (hindex : index ∈ askedPlaces s.packages) :
    index ∈ askedPlaces s'.packages := by
  induction h with
  | refl | goType | sizeOf | identifier | stringOffset | require | addItem | note | routineTexts =>
    exact hindex
  | trans _ _ ih ih' => exact ih' (ih hindex)
  | package? s index' =>
    rw [perform_package?]
    split
    · exact hindex
    · exact hindex
    · rw [askedPlaces_cons]
      exact List.mem_append_left _ hindex
  | compound _ ih => exact ih hindex

/-- Looking up a package asks about the object. -/
theorem mem_askedPlaces_of_package? {index : Nat} {package : Option String}
    (hsome : package.isSome) (h : Yields env (package? index) s package s') :
    index ∈ askedPlaces s'.packages := by
  rw [Yields, perform_package?] at h
  split at h
  · rename_i known _ hknown
    cases h
    obtain ⟨front, back, hpackages, -⟩ := List.lookup_eq_some_iff.1 hknown
    rw [askedPlaces, List.mem_map]
    exact ⟨(index, package), List.mem_filter.2 ⟨by simp [hpackages], hsome⟩, rfl⟩
  · cases h
  · cases h
    rw [askedPlaces_cons, if_pos hsome]
    exact List.mem_append_right _ List.mem_cons_self

/-- The definition of a stub asks for its package. -/
theorem mem_askedPlaces_of_functionDefinition {index : Nat} {definition : FunctionDef}
    (hs : Reached env s) (hstub : env.isStub index)
    (h : Yields env (functionDefinition index definition) s () s') :
    index ∈ askedPlaces s'.packages := by
  rw [functionDefinition, yields_bind] at h
  obtain ⟨package, s₁, hpackage, h⟩ := h
  have hsome : package.isSome = true := (hs.package?_isSome hpackage).trans hstub
  rw [if_pos hsome] at h
  exact ((steady_note _).evolves h).mem_askedPlaces (mem_askedPlaces_of_package? hsome hpackage)

/-- When all objects are written, the packages of all stubs were asked for. -/
theorem mem_askedPlaces_of_objectDefinitions {index : Nat} {objects : List Object}
    (hs : Reached env s)
    (hobjects : ∀ place o, objects[place]? = some o → env.program.objects[index + place]? = some o)
    (h : Yields env (objectDefinitions index objects) s () s') {place : Nat}
    (hplace : place < objects.length) (hstub : env.isStub (index + place)) :
    index + place ∈ askedPlaces s'.packages := by
  induction objects generalizing index s place with
  | nil => cases hplace
  | cons o rest ih =>
    rw [objectDefinitions, yields_bind] at h
    obtain ⟨⟨⟩, s₁, hfirst, hrest⟩ := h
    cases place with
    | zero =>
      obtain ⟨s₂, hnote, hwrite⟩ := exists_yields_of_objectDefinition hfirst
      have hs₂ := hs.evolves ((steady_note _).evolves hnote)
      cases o with
      | data d =>
        rw [Env.isStub, hobjects 0 _ rfl] at hstub
        cases hstub
      | function f =>
        have hmem := mem_askedPlaces_of_functionDefinition hs₂ hstub hwrite
        exact ((steady_objectDefinitions _ _).evolves hrest).mem_askedPlaces hmem
    | succ place =>
      have hs₁ := hs.evolves ((steady_objectDefinition index o).evolves hfirst)
      rw [← Nat.add_assoc, Nat.add_right_comm] at hstub ⊢
      refine ih hs₁ (fun place o' ho' => ?_) hrest (Nat.lt_of_succ_lt_succ hplace) hstub
      rw [Nat.add_right_comm]
      exact hobjects (place + 1) o' ho'

/-- The generator answers with all that emission asked for. -/
theorem asked_generate (env : Env) :
    (generate env).asked = ((fileText env).perform (.start env.target)).2.asked := by
  unfold generate
  generalize (fileText env).perform (.start env.target) = ending
  obtain ⟨result, s⟩ := ending
  cases result <;> rfl

/-- A stub is at a place of the program. -/
theorem lt_length_of_isStub {index : Nat} (h : env.isStub index) :
    index < env.program.objects.length := by
  rw [Env.isStub] at h
  split at h
  · rename_i f hobject
    exact (List.getElem?_eq_some_iff.1 hobject).1
  · cases h

/-- A file that was written has asked about every stub. -/
theorem mem_askedPlaces_of_fileText {text : String}
    (h : Yields env fileText (.start env.target) text s) {index : Nat} (hstub : env.isStub index) :
    index ∈ askedPlaces s.packages := by
  simp only [fileText, fileItems, yields_bind, yields_read, yields_get, yields_pure,
    yields_lift] at h
  obtain ⟨_, s₁, ⟨_, _, ⟨rfl, rfl⟩, ⟨⟩, s₂, hobjects, routines, s₃, hroutines, _, _, ⟨rfl, rfl⟩,
    ⟨⟩, s₄, hnote, -, rfl⟩, _, _, ⟨-, rfl⟩, ⟨⟩, s₅, hnote', -, rfl⟩ := h
  have hmem :=
    mem_askedPlaces_of_objectDefinitions (.refl _)
      (fun place o ho => by rwa [Nat.zero_add]) hobjects
    (lt_length_of_isStub hstub) (by rwa [Nat.zero_add])
  rw [Nat.zero_add] at hmem
  exact (((steady_routineTexts.evolves hroutines).trans ((steady_note _).evolves hnote)).trans
    ((steady_note _).evolves hnote')).mem_askedPlaces hmem

/-! ## Functions of the file -/

/-- The Go function was written for the function at the place. -/
def WrittenFor (env : Env) (own : FunctionDef × Nat) (g : Go.Function Stmt Expr) : Prop :=
  ∃ f nodes head, Writes env own.2 own.1 f nodes head g ∧ head.name = g.name ∧
    Identifier.spelling env.dict ⟨own.1.name, own.1.linkage.isExported, none⟩ = .ok g.name

/-- The Go function is what was written for the function at the place, after clean-up. -/
def Implements (env : Env) (own : FunctionDef × Nat) (g : Go.Function Stmt Expr) : Prop :=
  ∃ written, WrittenFor env own written ∧ Cleaned (.function written) (.function g)

/-- What is written for an object has a function just if the object has code. -/
theorem Written.forall₂_functions {index : Nat} {o : Object} {part : List (Item Stmt Expr)}
    (h : Written env index o part) :
    List.Forall₂ (WrittenFor env) (ownFunction index o) (functions part) := by
  cases h with
  | stub h =>
    rw [ownFunction, if_pos h]
    exact .nil
  | function hstub hwrites hname hhead =>
    rw [ownFunction, if_neg hstub]
    exact .cons ⟨_, _, _, hwrites, hhead, hname⟩ .nil
  | data hname t comment initial => cases initial <;> exact .nil

/-- What is related through a third list is related. -/
theorem forall₂_comp {α β γ : Type} {R : α → β → Prop} {S : β → γ → Prop} {as : List α}
    {bs : List β} {cs : List γ} (h : List.Forall₂ R as bs) (h' : List.Forall₂ S bs cs) :
    List.Forall₂ (fun a c => ∃ b, R a b ∧ S b c) as cs := by
  induction h generalizing cs with
  | nil =>
    cases h'
    exact .nil
  | cons hab _ ih =>
    cases h' with
    | cons hbc h' => exact .cons ⟨_, hab, hbc⟩ (ih h')

/-- The functions of a file implement those that the program has code for, in their order. -/
theorem File.forall₂_functions {parts : List (List (Item Stmt Expr))} {routines : List String}
    {out : List (Item Stmt Expr)} (h : File env s parts routines out) :
    List.Forall₂ (Implements env) env.program.ownFunctions (functions out) := by
  have hwritten :
      List.Forall₂ (WrittenFor env) env.program.ownFunctions (parts.flatMap functions) :=
    List.rel_flatMap h.written fun _ _ hpart => hpart.forall₂_functions
  have hcleaned := Go.forall₂_functions h.cleaned
  rw [functions_append, functions_text, List.append_nil, functions_flatten] at hcleaned
  exact forall₂_comp hwritten hcleaned

/-- Whichever way generation ends, packages were asked for one after the other, each for a stub at
another place. If there is a file, then no stub was left out, and the Go functions of the file are
those of the functions that are no stubs, one for each and in the order of the objects. -/
theorem stubs_asked_once (env : Env) :
    ∃ order : List Nat, order.Nodup ∧
      List.Forall₂ (fun index f => env.program.objects[index]? = some (.function f) ∧ f.isStub)
        order (generate env).asked ∧
      ∀ text, (generate env).answer = .text text → (∀ index, env.isStub index → index ∈ order) ∧
        ∃ out s, fileParts env = .ok (out, s) ∧ text = sourceText out ∧
          List.Forall₂ (Implements env) env.program.ownFunctions (functions out) := by
  have hinquired := (steady_fileText env (.start env.target)).inquired ⟨List.nodup_nil, .nil⟩
  rw [asked_generate]
  refine ⟨_, hinquired.nodup_askedPlaces, hinquired.asks,
    fun text htext => ⟨fun index hstub => ?_, ?_⟩⟩
  · obtain ⟨s, hs⟩ := yields_of_generate htext
    rw [show ((fileText env).perform (.start env.target)).2 = s from congrArg Prod.snd hs]
    exact mem_askedPlaces_of_fileText hs hstub
  · obtain ⟨s, parts, routines, out, hfile, hparts, hsource⟩ := exists_file_of_generate htext
    exact ⟨out, s, hparts, hsource, hfile.forall₂_functions⟩

/-- A function without arguments and results. -/
def procedure (name : NameId) (body : List Op) : FunctionDef where
  name := name
  linkage := .exported
  type := ⟨14⟩
  position := .unknown
  arguments := []
  body := body.map (⟨·, .unknown⟩)

/-- A program with a stub `h` that nothing calls, and a function `f` that calls a later stub `g`
twice. -/
def borrowing : Env where
  dict := .ofList [[0x66], [0x67], [0x68]]
  program := ⟨TypeTable.empty.internEach [.function [] [] false],
    [.function (procedure ⟨3⟩ [.abort]),
      .function (procedure ⟨1⟩ [.beginScope, .arguments, .call 2 0 ⟨14⟩, .arguments,
        .call 2 0 ⟨14⟩, .ret, .endScope]),
      .function (procedure ⟨2⟩ [.abort])]⟩
  target := ⟨8, false⟩
  options := {}
  qualifier := fun _ _ => "crt"

/-- The program asks about each of its stubs once, and its file has the function `f`. -/
theorem borrowing_asks :
    ∃ (text : String) (order : List Nat) (out : List (Item Stmt Expr)) (s : State),
      (generate borrowing).answer = .text text ∧ order.Nodup ∧ 0 ∈ order ∧
      2 ∈ order ∧ order.length = (generate borrowing).asked.length ∧
      (generate borrowing).asked.length = 2 ∧
      fileParts borrowing = .ok (out, s) ∧ text = sourceText out ∧ (functions out).length = 1 := by
  obtain ⟨text, htext⟩ :=
    Option.isSome_iff_exists.1 (by decide +kernel : (generate borrowing).answer.text?.isSome)
  obtain ⟨order, hnodup, hasked, hfile⟩ := stubs_asked_once borrowing
  obtain ⟨hall, out, s, hparts, hsource, hfunctions⟩ := hfile text (Answer.eq_text_of_text? htext)
  exact ⟨text, order, out, s, Answer.eq_text_of_text? htext, hnodup, hall 0 rfl, hall 2 rfl,
    hasked.length_eq, by decide +kernel, hparts, hsource, hfunctions.length_eq.symm⟩

end Emit
end StackToGo
