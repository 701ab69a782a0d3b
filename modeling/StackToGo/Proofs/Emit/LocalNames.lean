import StackToGo.Proofs.Emit.Evolution
import StackToGo.Proofs.Locals

/-!
# The identifiers of locals

A named local is spelled from its name and its block; one of the function itself takes block 0 if
some object has its name. Block 0 is the outermost one, and no local is given its ordinal
otherwise. So two named locals share an identifier exactly if they share their name and their
block, and none shares one with an object. The numbers of unnamed locals begin with a digit, as no
name does, and have no further `_`, as those of nested blocks do.
-/

namespace StackToGo

/-! ## Numbers as identifiers -/

namespace Identifier

/-- The identifier of the unnamed local with the given index. -/
def numbered (index : Nat) : String := "_" ++ toString index

/-- The characters of the identifier of an unnamed local. -/
theorem toList_numbered (index : Nat) :
    (numbered index).toList = '_' :: Nat.toDigits 10 index := by
  rw [numbered, String.toList_append]
  simp [toString, Nat.repr]

/-- Unnamed locals with different indices have different identifiers. -/
theorem numbered_inj {m n : Nat} (h : numbered m = numbered n) : m = n := by
  have hdigits : Nat.toDigits 10 m = Nat.toDigits 10 n := by
    have hlists := congrArg String.toList h
    rw [toList_numbered, toList_numbered] at hlists
    exact (List.cons.inj hlists).2
  rw [← Nat.ofDigitChars_ten_toDigits (n := m), hdigits, Nat.ofDigitChars_ten_toDigits]

/-- No name is spelled as a number is. -/
theorem encode_ne_numbered {name : Bytes} {exported : Bool} {scope : Scope} {text : String}
    (h : encode name exported scope = .ok text) (index : Nat) : text ≠ numbered index := by
  obtain ⟨-, -, rfl⟩ := encode_eq_ok_iff.1 h
  intro heq
  have hlists : opening exported scope ++ encodeBytes name = '_' :: Nat.toDigits 10 index := by
    rw [← toList_numbered, ← heq, String.toList_ofList]
  cases exported with
  | true => exact absurd (List.cons.inj hlists).1 (by decide)
  | false =>
    cases scope with
    | none =>
      have hdigits : encodeBytes name = Nat.toDigits 10 index ++ [] := by
        rw [List.append_nil]
        exact (List.cons.inj hlists).2
      exact encodeBytes_ne_toDigits_append hdigits
    | some n =>
      -- The `_` after the ordinal is no digit.
      have hmem : '_' ∈ Nat.toDigits 10 index := by
        rw [← (List.cons.inj hlists).2]
        simp
      exact absurd (Nat.isDigit_of_mem_toDigits (by decide) (by decide) hmem) (by decide)

end Identifier

namespace Emit

open Identifier

variable {env : Env}

/-- The block that a named local is spelled with. -/
def localScope (env : Env) (l : Local) : Scope :=
  if l.scope.isNone && env.program.objects.any (·.name = l.declaration.name) then some 0
    else l.scope

/-- A local is named by its index, or by its identifier in its block. -/
theorem yields_localName {l : Local} {s s' : State} {text : String} :
    Yields env (localName l) s text s' ↔
    if l.declaration.name.isNone then numbered l.declaration.index = text ∧ s = s'
    else Yields env (identifier l.declaration.name false (localScope env l)) s text s' := by
  unfold localName
  dsimp only
  split
  case isTrue => rw [yields_pure]; rfl
  case isFalse => rw [yields_bind]; simp [localScope]

/-- In a state of emission a local is named by its index, or by the spelling in its block. -/
theorem Reached.yields_localName {s : State} (hs : Reached env s) {l : Local} {text : String} :
    (∃ s', Yields env (localName l) s text s') ↔
      if l.declaration.name.isNone then numbered l.declaration.index = text
      else spelling env.dict ⟨l.declaration.name, false, localScope env l⟩ = .ok text := by
  simp only [Emit.yields_localName]
  split
  case isTrue => simp
  case isFalse => exact hs.yields_identifier

/-- Emission names a local by its index, or by the spelling in its block. -/
theorem gives_localName_iff {l : Local} {text : String} : Gives env (localName l) text ↔
    if l.declaration.name.isNone then numbered l.declaration.index = text
    else spelling env.dict ⟨l.declaration.name, false, localScope env l⟩ = .ok text := by
  constructor
  · rintro ⟨s, s', hs, h⟩
    exact hs.yields_localName.1 ⟨s', h⟩
  · intro h
    have hstart : Reached env (.start env.target) := .refl _
    obtain ⟨s', hs'⟩ := hstart.yields_localName.2 h
    exact ⟨_, s', hstart, hs'⟩

/-- Emission names a named local by its spelling. -/
theorem gives_localName_of_named {l : Local} {text : String} (hl : ¬l.declaration.name.isNone) :
    Gives env (localName l) text ↔
    spelling env.dict ⟨l.declaration.name, false, localScope env l⟩ = .ok text := by
  rw [gives_localName_iff, if_neg hl]

/-- Emission names an unnamed local by its index. -/
theorem gives_localName_of_unnamed {l : Local} {text : String} (hl : l.declaration.name.isNone) :
    Gives env (localName l) text ↔ numbered l.declaration.index = text := by
  rw [gives_localName_iff, if_pos hl]

/-- What is spelled is no number. -/
theorem spelling_ne_numbered {key : Key} {text : String} (h : spelling env.dict key = .ok text)
    (index : Nat) : text ≠ numbered index := by
  obtain ⟨bytes, -, hencode⟩ := spelling_eq_ok_iff.1 h
  exact encode_ne_numbered hencode index

/-- An unnamed local always has an identifier, and a named one has one if the dictionary knows its
name. -/
theorem Reached.exists_yields_localName {names : List Bytes} (hdict : env.dict = .ofList names)
    {s : State} (hs : Reached env s) (l : Local) :
    (∃ text s', Yields env (localName l) s text s') ↔
      l.declaration.name.isNone ∨ ∃ bytes, env.dict.nameBytes l.declaration.name = .ok bytes := by
  simp only [hs.yields_localName]
  by_cases hnone : l.declaration.name.isNone
  · simp [hnone]
  · simp only [hnone, Bool.false_eq_true, if_false, false_or]
    constructor
    · rintro ⟨text, htext⟩
      obtain ⟨bytes, hbytes, -⟩ := spelling_eq_ok_iff.1 htext
      exact ⟨bytes, hbytes⟩
    · rintro ⟨bytes, hbytes⟩
      refine ⟨_, spelling_eq_ok_iff.2 ⟨bytes, hbytes, encode_eq_ok_iff.2 ⟨?_, nofun, rfl⟩⟩⟩
      -- Only id 0 is that of the empty name.
      rintro rfl
      rw [hdict] at hbytes
      have hzero :=
        (Dictionary.distinct_ofList names).bytes_inj hbytes (Dictionary.bytes_zero_ofList names)
      exact hnone (beq_iff_eq.2 hzero)

/-- Block 0 is given to locals of the function itself only, so blocks and their ordinals
correspond. -/
theorem localScope_eq_iff {l l' : Local} (hl : l.scope ≠ some 0) (hl' : l'.scope ≠ some 0)
    (hname : l.declaration.name = l'.declaration.name) :
    localScope env l = localScope env l' ↔ l.scope = l'.scope := by
  unfold localScope
  rw [hname]
  cases env.program.objects.any (·.name = l'.declaration.name) with
  | false => simp
  | true =>
    cases hscope : l.scope <;> cases hscope' : l'.scope <;> simp_all [eq_comm]

/-- A local is never spelled in no block with the name of an object. -/
theorem localScope_ne_none {l : Local} {o : Object} (ho : o ∈ env.program.objects)
    (hname : o.name = l.declaration.name) : localScope env l ≠ none := by
  have hshared : env.program.objects.any (·.name = l.declaration.name) = true :=
    List.any_eq_true.2 ⟨o, ho, decide_eq_true hname⟩
  unfold localScope
  rw [hshared]
  cases hscope : l.scope <;> simp

/-- Two named locals of a body have the same identifier exactly if they have the same name and are
declared in the same block. The identifier of an unnamed local is that of no other one, and no
local has that of an object. No nested block has ordinal 0. -/
theorem local_names_distinct {names : List Bytes} (hdict : env.dict = .ofList names)
    {body : List Instruction} {locals : List Local} (hbody : Local.ofBody body = .ok locals) :
    (∀ l ∈ locals, ∃ front, Local.Declares body front l) ∧
    (∀ l ∈ locals, ∀ s, Reached env s → ((∃ text s', Yields env (localName l) s text s') ↔
      l.declaration.name.isNone ∨ ∃ bytes, env.dict.nameBytes l.declaration.name = .ok bytes)) ∧
    (∀ l ∈ locals, ∀ l' ∈ locals, ∀ front front' text text', Local.Declares body front l →
      Local.Declares body front' l' →
      ¬l.declaration.name.isNone → ¬l'.declaration.name.isNone →
      Gives env (localName l) text → Gives env (localName l') text' →
      (text = text' ↔ l.declaration.name = l'.declaration.name ∧ Local.SameBlock front front')) ∧
    (∀ l ∈ locals, ∀ l' ∈ locals, ∀ text text', l.declaration.name.isNone → l ≠ l' →
      Gives env (localName l) text → Gives env (localName l') text' → text ≠ text') ∧
    (∀ l ∈ locals, ∀ o ∈ env.program.objects, ∀ text text', Gives env (localName l) text →
      Gives env (identifier o.name o.linkage.isExported none) text' → text ≠ text') ∧
    ∀ l ∈ locals, l.scope ≠ some 0 := by
  have hdistinct : env.dict.Distinct := hdict ▸ Dictionary.distinct_ofList names
  refine ⟨fun l => Local.exists_declares hbody,
    fun l _ s hs => hs.exists_yields_localName hdict l, ?_, ?_, ?_, fun l =>
      Local.scope_ne_zero hbody⟩
  · intro l hl l' hl' front front' text text' hfront hfront' hnamed hnamed' htext htext'
    rw [gives_localName_of_named hnamed] at htext
    rw [gives_localName_of_named hnamed'] at htext'
    rw [← Local.scope_eq_iff hbody hl hl' hfront hfront']
    have hzero := Local.scope_ne_zero hbody hl
    have hzero' := Local.scope_ne_zero hbody hl'
    constructor
    · rintro rfl
      obtain ⟨hname, -, hscope⟩ := Key.mk.inj (spelling_inj hdistinct htext htext')
      exact ⟨hname, (localScope_eq_iff hzero hzero' hname).1 hscope⟩
    · rintro ⟨hname, hscope⟩
      rw [hname, (localScope_eq_iff hzero hzero' hname).2 hscope, htext'] at htext
      exact (Except.ok.inj htext).symm
  · intro l hl l' hl' text text' hunnamed hne htext htext' heq
    rw [gives_localName_of_unnamed hunnamed] at htext
    by_cases hunnamed' : l'.declaration.name.isNone
    · rw [gives_localName_of_unnamed hunnamed'] at htext'
      have hindex : l.declaration.index = l'.declaration.index :=
        numbered_inj (by rw [htext, heq, htext'])
      exact hne (Local.eq_of_index_eq hbody hl hl' hindex)
    · rw [gives_localName_of_named hunnamed'] at htext'
      exact spelling_ne_numbered htext' _ (heq.symm.trans htext.symm)
  · intro l hl o ho text text' htext htext' heq
    rw [gives_identifier_iff] at htext'
    by_cases hunnamed : l.declaration.name.isNone
    · rw [gives_localName_of_unnamed hunnamed] at htext
      exact spelling_ne_numbered htext' _ (heq.symm.trans htext.symm)
    · rw [gives_localName_of_named hunnamed, heq] at htext
      obtain ⟨hname, -, hscope⟩ := Key.mk.inj (spelling_inj hdistinct htext htext')
      exact localScope_ne_none ho hname.symm hscope

/-- A program with one variable, `x`. -/
def oneVariable : Env where
  dict := .ofList [[0x78]]
  program := ⟨TypeTable.empty, [.data ⟨⟨1⟩, .unexported, TypeTable.int32, .unknown, none⟩]⟩
  target := ⟨8, false⟩
  options := {}
  qualifier := fun _ _ => ""

/-- The local of type `int` with the given index and name. -/
def intLocal (index name : Nat) (scope : Scope) : Local :=
  ⟨⟨index, ⟨name⟩, TypeTable.int32, none⟩, .unknown, scope⟩

/-- A local `x` of a function, one in each of two blocks that follow each other, and an unnamed
local in the second. -/
def shadowingLocals : List Local :=
  [intLocal 0 1 none, intLocal 1 1 (some 1), intLocal 2 1 (some 2), intLocal 3 0 (some 2)]

def shadowingBody : List Instruction :=
  [.beginScope, .declare (intLocal 0 1 none).declaration, .beginScope,
    .declare (intLocal 1 1 none).declaration, .endScope, .beginScope,
    .declare (intLocal 2 1 none).declaration, .declare (intLocal 3 0 none).declaration, .endScope,
    .endScope].map (⟨·, .unknown⟩)

/-- The locals that shadow each other, and the unnamed one, have different identifiers. -/
theorem shadowingLocals_distinct :
    Local.ofBody shadowingBody = .ok shadowingLocals ∧
    Gives oneVariable (localName (intLocal 0 1 none)) "_0_x" ∧
    Gives oneVariable (localName (intLocal 1 1 (some 1))) "_1_x" ∧
    Gives oneVariable (localName (intLocal 2 1 (some 2))) "_2_x" ∧
    Gives oneVariable (localName (intLocal 3 0 (some 2))) "_3" ∧
    Gives oneVariable (identifier ⟨1⟩ false none) "_x" ∧
    ("_1_x" = "_2_x" ↔ (⟨1⟩ : NameId) = ⟨1⟩ ∧
      Local.SameBlock (shadowingBody.take 3) (shadowingBody.take 6)) ∧
    "_3" ≠ "_2_x" ∧ "_0_x" ≠ "_x" := by
  obtain ⟨-, -, hnamed, hunnamed, hobjects, -⟩ :=
    @local_names_distinct oneVariable [[0x78]] rfl shadowingBody shadowingLocals rfl
  have hstart : Reached oneVariable (.start oneVariable.target) := .refl _
  have houter : Gives oneVariable (localName (intLocal 0 1 none)) "_0_x" := ⟨_, _, hstart, rfl⟩
  have hfirst : Gives oneVariable (localName (intLocal 1 1 (some 1))) "_1_x" := ⟨_, _, hstart, rfl⟩
  have hsecond : Gives oneVariable (localName (intLocal 2 1 (some 2))) "_2_x" :=
    ⟨_, _, hstart, rfl⟩
  have hnumber : Gives oneVariable (localName (intLocal 3 0 (some 2))) "_3" := ⟨_, _, hstart, rfl⟩
  have hobject : Gives oneVariable (identifier ⟨1⟩ false none) "_x" := ⟨_, _, hstart, rfl⟩
  refine ⟨rfl, houter, hfirst, hsecond, hnumber, hobject, ?_, ?_, ?_⟩
  · exact hnamed _ (by simp [shadowingLocals]) _ (by simp [shadowingLocals]) _ _ _ _ ⟨_, rfl⟩
      ⟨_, rfl⟩ (by decide) (by decide) hfirst hsecond
  · refine hunnamed _ (by simp [shadowingLocals]) _ (by simp [shadowingLocals])
      _ _ rfl (fun heq => ?_) hnumber hsecond
    cases congrArg (·.declaration.index) heq
  · exact hobjects _ (by simp [shadowingLocals]) _ List.mem_cons_self _ _ houter hobject

end Emit
end StackToGo
