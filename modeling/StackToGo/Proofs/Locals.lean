import Mathlib.Data.List.Induction
import StackToGo.Locals

/-!
# The blocks of locals

A block is told from others by the place in the body where it begins. `openBlocks` lists the blocks
that are open after a prefix of a body; the table of locals gives each local the ordinal of the
innermost of them, if it is a nested one. Ordinals grow with places, so they tell blocks apart, and
ordinal 0 is that of the first block, inside of which every nested block lies.
-/

namespace StackToGo.Local

def isBegin (instruction : Instruction) : Bool :=
  match instruction.op with
  | .beginScope => true
  | _ => false

/-- The blocks that are open after an instruction at `place`, given those that are open before
it. -/
def openStep (opened : List Nat) : Instruction × Nat → List Nat
  | (⟨.beginScope, _⟩, place) => place :: opened
  | (⟨.endScope, _⟩, _) => opened.tail
  | _ => opened

/-- The places where the blocks begin that are open after the given instructions, the innermost
first. -/
def openBlocks (front : List Instruction) : List Nat := front.zipIdx.foldl openStep []

/-- Are the places after these two prefixes in the same block? Those in at most one block are in
the function itself. -/
def SameBlock (front front' : List Instruction) : Prop :=
  (openBlocks front).length ≤ 1 ∧ (openBlocks front').length ≤ 1 ∨
    1 < (openBlocks front).length ∧ 1 < (openBlocks front').length ∧
    (openBlocks front).head? = (openBlocks front').head?

/-- The instruction after `front` declares the local. -/
def Declares (body front : List Instruction) (l : Local) : Prop :=
  ∃ rest, body = front ++ ⟨.declare l.declaration, l.position⟩ :: rest

/-! ## Open blocks -/

/-- The open blocks after one more instruction. -/
theorem openBlocks_concat (front : List Instruction) (instruction : Instruction) :
    openBlocks (front ++ [instruction]) =
      openStep (openBlocks front) (instruction, front.length) := by
  rw [openBlocks, List.zipIdx_append, List.foldl_append, Nat.zero_add]
  rfl

/-- An instruction opens a block at its place, or opens none. -/
theorem openStep_sublist (opened : List Nat) (instruction : Instruction) (place : Nat) :
    openStep opened (instruction, place) = place :: opened ∧ isBegin instruction ∨
      (openStep opened (instruction, place)).Sublist opened := by
  obtain ⟨op, position⟩ := instruction
  cases op <;> first
    | exact .inl ⟨rfl, rfl⟩
    | exact .inr (List.Sublist.refl opened)
    | exact .inr (List.tail_sublist opened)

/-- Open blocks begin before the place, and the inner ones after the outer ones. -/
theorem openBlocks_places (front : List Instruction) :
    (openBlocks front).Pairwise (· > ·) ∧ ∀ place ∈ openBlocks front, ∃ instruction,
      front[place]? = some instruction ∧ isBegin instruction := by
  induction front using List.reverseRecOn with
  | nil => exact ⟨List.Pairwise.nil, fun place h => by cases h⟩
  | append_singleton front instruction ih =>
    obtain ⟨hordered, hbegins⟩ := ih
    have hold : ∀ place ∈ openBlocks front, place < front.length ∧
        ∃ i, (front ++ [instruction])[place]? = some i ∧
        isBegin i := by
      intro place hplace
      obtain ⟨i, hget, hbegin⟩ := hbegins place hplace
      have hlt := (List.getElem?_eq_some_iff.1 hget).1
      exact ⟨hlt, i, by rw [List.getElem?_append_left hlt, hget], hbegin⟩
    rw [openBlocks_concat]
    rcases openStep_sublist (openBlocks front) instruction front.length with ⟨hstep, hbegin⟩ | hsub
    · rw [hstep]
      refine ⟨List.pairwise_cons.2 ⟨fun place hplace => (hold place hplace).1, hordered⟩,
        fun place hplace => ?_⟩
      rcases List.mem_cons.1 hplace with rfl | hplace
      · exact ⟨instruction, by simp, hbegin⟩
      · exact (hold place hplace).2
    · exact ⟨hordered.sublist hsub, fun place hplace => (hold place (hsub.subset hplace)).2⟩

/-! ## Ordinals -/

/-- How many blocks begin before a place. -/
def ordinal (body : List Instruction) (place : Nat) : Nat := (body.take place).countP isBegin

/-- Blocks that begin later have greater ordinals. -/
theorem ordinal_lt {body : List Instruction} {place place' : Nat} {instruction : Instruction}
    (hget : body[place]? = some instruction) (hbegin : isBegin instruction) (h : place < place') :
    ordinal body place < ordinal body place' := by
  have hnext : ordinal body (place + 1) = ordinal body place + 1 := by
    rw [ordinal, List.take_add_one, hget, List.countP_append]
    simp [ordinal, hbegin]
  have hmono : ordinal body (place + 1) ≤ ordinal body place' :=
    (List.take_prefix_take_left h).sublist.countP_le
  omega

/-- Ordinals tell the open blocks of a body apart, wherever they are open. -/
theorem ordinal_inj {body front front' rest rest' : List Instruction}
    (hbody : body = front ++ rest) (hbody' : body = front' ++ rest') {place place' : Nat}
    (h : place ∈ openBlocks front) (h' : place' ∈ openBlocks front') :
    ordinal body place = ordinal body place' ↔ place = place' := by
  have hbegins : ∀ {front rest}, body = front ++ rest → ∀ {p}, p ∈ openBlocks front →
      ∃ i, body[p]? = some i ∧ isBegin i := by
    rintro front rest rfl p hp
    obtain ⟨i, hget, hbegin⟩ := (openBlocks_places front).2 p hp
    exact ⟨i, by rw [List.getElem?_append_left (List.getElem?_eq_some_iff.1 hget).1, hget], hbegin⟩
  obtain ⟨i, hget, hbegin⟩ := hbegins hbody h
  obtain ⟨i', hget', hbegin'⟩ := hbegins hbody' h'
  refine ⟨fun heq => ?_, congrArg _⟩
  rcases Nat.lt_trichotomy place place' with hlt | rfl | hlt
  · exact absurd heq (Nat.ne_of_lt (ordinal_lt hget hbegin hlt))
  · rfl
  · exact absurd heq.symm (Nat.ne_of_lt (ordinal_lt hget' hbegin' hlt))

/-! ## The table of locals -/

/-- The block of a local that is declared after `front`. -/
def scopeAfter (body front : List Instruction) : Scope :=
  scopeOf ((openBlocks front).map (ordinal body))

/-- The scope tells apart just the places that are in different blocks. -/
theorem scopeAfter_eq_iff {body front front' rest rest' : List Instruction}
    (hbody : body = front ++ rest) (hbody' : body = front' ++ rest') :
    scopeAfter body front = scopeAfter body front' ↔ SameBlock front front' := by
  have hinj := @ordinal_inj body front front' rest rest' hbody hbody'
  unfold scopeAfter SameBlock
  generalize openBlocks front = opened at hinj
  generalize openBlocks front' = opened' at hinj
  rcases opened with - | ⟨block, - | ⟨outer, opened⟩⟩ <;>
    rcases opened' with - | ⟨block', - | ⟨outer', opened'⟩⟩ <;>
    simp [scopeOf]
  exact hinj List.mem_cons_self List.mem_cons_self

/-- A nested block begins after the block around it, so its ordinal is not 0. -/
theorem scopeAfter_ne_zero {body front rest : List Instruction} (hbody : body = front ++ rest) :
    scopeAfter body front ≠ some 0 := by
  obtain ⟨hordered, hbegins⟩ := openBlocks_places front
  unfold scopeAfter
  generalize openBlocks front = opened at hordered hbegins
  rcases opened with - | ⟨block, - | ⟨outer, opened⟩⟩
  · exact nofun
  · exact nofun
  · obtain ⟨i, hget, hbegin⟩ := hbegins outer (List.mem_cons_of_mem _ List.mem_cons_self)
    have hget' : body[outer]? = some i := by
      rw [hbody, List.getElem?_append_left (List.getElem?_eq_some_iff.1 hget).1, hget]
    have hlt : outer < block := (List.pairwise_cons.1 hordered).1 outer List.mem_cons_self
    have := ordinal_lt hget' hbegin hlt
    intro heq
    have hzero : ordinal body block = 0 := Option.some.inj heq
    omega

/-- The table holds what the instructions of `front` declare, in order. -/
structure Tabulates (body front : List Instruction) (locals : List Local) : Prop where
  index_eq : ∀ (i : Nat) (l : Local), locals[i]? = some l → l.declaration.index = i
  mem_iff : ∀ l, l ∈ locals ↔ ∃ front', Declares front front' l ∧ l.scope = scopeAfter body front'

/-- The declarations of a body with one more instruction. -/
theorem declares_concat {front front' : List Instruction} {instruction : Instruction} {l : Local} :
    Declares (front ++ [instruction]) front' l ↔
      Declares front front' l ∨ front' = front ∧
      instruction = ⟨.declare l.declaration, l.position⟩ := by
  constructor
  · rintro ⟨rest, h⟩
    rcases List.eq_nil_or_concat rest with rfl | ⟨rest, last, rfl⟩
    · obtain ⟨hfront, hlast⟩ := List.append_inj' h rfl
      exact .inr ⟨hfront.symm, List.singleton_inj.1 hlast⟩
    · rw [List.concat_eq_append, ← List.cons_append, ← List.append_assoc] at h
      exact .inl ⟨rest, (List.append_inj' h rfl).1⟩
  · rintro (⟨rest, rfl⟩ | ⟨rfl, rfl⟩)
    · exact ⟨rest ++ [instruction], by simp⟩
    · exact ⟨[], rfl⟩

/-- An instruction that declares nothing adds nothing to the table. -/
theorem Tabulates.skip {body front : List Instruction} {locals : List Local}
    {instruction : Instruction} (h : Tabulates body front locals)
    (hskip : ∀ d, instruction.op ≠ .declare d) :
    Tabulates body (front ++ [instruction]) locals where
  index_eq := h.index_eq
  mem_iff l := by
    rw [h.mem_iff]
    refine exists_congr fun front' => and_congr_left fun _ => ?_
    rw [declares_concat]
    exact ⟨.inl, fun hor => hor.resolve_right fun ⟨_, heq⟩ =>
      hskip _ (congrArg Instruction.op heq)⟩

/-- A declaration adds a local to the table. -/
theorem Tabulates.declare {body front : List Instruction} {locals : List Local} {d : Declaration}
    {position : Position} (h : Tabulates body front locals) (hindex : d.index = locals.length) :
    Tabulates body (front ++ [⟨.declare d, position⟩])
      (locals ++ [⟨d, position, scopeAfter body front⟩]) where
  index_eq i l hget := by
    rcases Nat.lt_or_ge i locals.length with hlt | hge
    · exact h.index_eq i l (by rwa [List.getElem?_append_left hlt] at hget)
    · rw [List.getElem?_append_right hge, List.getElem?_singleton] at hget
      split at hget
      case isTrue hlast =>
        cases hget
        show d.index = i
        omega
      case isFalse => cases hget
  mem_iff l := by
    rw [List.mem_append, h.mem_iff, List.mem_singleton]
    simp only [declares_concat, or_and_right, exists_or]
    refine or_congr_right ⟨?_, ?_⟩
    · rintro rfl
      exact ⟨front, ⟨rfl, rfl⟩, rfl⟩
    · rintro ⟨front', ⟨rfl, hl⟩, hscope⟩
      obtain ⟨declaration, position', scope⟩ := l
      cases hl
      exact congrArg (Local.mk declaration position') hscope

/-- Collecting goes on with the table of the instructions before. -/
theorem tabulates_collect {body front rest : List Instruction} {locals locals' : List Local}
    (hbody : body = front ++ rest) (htable : Tabulates body front locals)
    (h : collect ((openBlocks front).map (ordinal body)) (ordinal body front.length) locals rest =
      .ok locals') :
    Tabulates body body locals' := by
  induction rest generalizing front locals with
  | nil =>
    cases h
    rwa [hbody, List.append_nil] at htable ⊢
  | cons instruction rest ih =>
    have hbody' : body = (front ++ [instruction]) ++ rest := by rw [hbody, List.append_assoc]; rfl
    have hopen := openBlocks_concat front instruction
    have hlength : (front ++ [instruction]).length = front.length + 1 := by simp
    have hget : body[front.length]? = some instruction := by rw [hbody]; simp
    have hnext : ordinal body (front.length + 1) =
        ordinal body front.length + if isBegin instruction then 1 else 0 := by
      rw [ordinal, List.take_add_one, hget, List.countP_append]
      simp [ordinal, List.countP_cons]
    rw [← hlength] at hnext
    obtain ⟨op, position⟩ := instruction
    cases op with
    | beginScope =>
      refine ih hbody' (htable.skip nofun) ?_
      rw [hopen, hnext]
      exact h
    | endScope =>
      refine ih hbody' (htable.skip nofun) ?_
      rw [hopen, hnext]
      cases hblocks : openBlocks front with
      | nil =>
        rw [hblocks] at h
        cases h
      | cons block outer =>
        rw [hblocks] at h
        exact h
    | declare d =>
      rw [collect] at h
      split at h
      case isTrue hindex =>
        refine ih hbody' (htable.declare hindex) ?_
        rw [hopen, hnext]
        exact h
      case isFalse => cases h
    | _ =>
      refine ih hbody' (htable.skip nofun) ?_
      rw [hopen, hnext]
      exact h

/-- The table of a body holds all that it declares. -/
theorem tabulates_ofBody {body : List Instruction} {locals : List Local}
    (h : ofBody body = .ok locals) : Tabulates body body locals := by
  have hnil : Tabulates body [] [] := by
    refine ⟨fun i l hget => by simp at hget, fun l => ⟨fun hl => absurd hl List.not_mem_nil, ?_⟩⟩
    rintro ⟨front, ⟨rest, hnil⟩, -⟩
    simp at hnil
  exact tabulates_collect rfl hnil h

section

variable {body : List Instruction} {locals : List Local} (hbody : ofBody body = .ok locals)
include hbody

/-- Every local of the table is declared. -/
theorem exists_declares {l : Local} (hl : l ∈ locals) : ∃ front, Declares body front l := by
  obtain ⟨front, hdeclares, -⟩ := ((tabulates_ofBody hbody).mem_iff l).1 hl
  exact ⟨front, hdeclares⟩

/-- Locals are told apart by their indices. -/
theorem eq_of_index_eq {l l' : Local} (hl : l ∈ locals) (hl' : l' ∈ locals)
    (h : l.declaration.index = l'.declaration.index) : l = l' := by
  obtain ⟨i, hi⟩ := List.mem_iff_getElem?.1 hl
  obtain ⟨j, hj⟩ := List.mem_iff_getElem?.1 hl'
  have hindex := (tabulates_ofBody hbody).index_eq
  have hij : i = j := by rw [← hindex i l hi, h, hindex j l' hj]
  rw [hij] at hi
  exact Option.some.inj (hi.symm.trans hj)

/-- The block of a local is the one around its declaration. -/
theorem scope_eq_scopeAfter {l : Local} (hl : l ∈ locals) {front : List Instruction}
    (h : Declares body front l) : l.scope = scopeAfter body front := by
  have hsite : (⟨l.declaration, l.position, scopeAfter body front⟩ : Local) ∈ locals :=
    ((tabulates_ofBody hbody).mem_iff _).2 ⟨front, h, rfl⟩
  rw [eq_of_index_eq hbody hl hsite rfl]

/-- Two locals have the same ordinal exactly if they are declared in the same block. -/
theorem scope_eq_iff {l l' : Local} (hl : l ∈ locals) (hl' : l' ∈ locals)
    {front front' : List Instruction} (h : Declares body front l) (h' : Declares body front' l') :
    l.scope = l'.scope ↔ SameBlock front front' := by
  rw [scope_eq_scopeAfter hbody hl h, scope_eq_scopeAfter hbody hl' h']
  obtain ⟨rest, hrest⟩ := h
  obtain ⟨rest', hrest'⟩ := h'
  exact scopeAfter_eq_iff hrest hrest'

/-- The block of the function itself is no scope. -/
theorem scope_ne_zero {l : Local} (hl : l ∈ locals) : l.scope ≠ some 0 := by
  obtain ⟨front, hdeclares⟩ := exists_declares hbody hl
  rw [scope_eq_scopeAfter hbody hl hdeclares]
  obtain ⟨rest, hrest⟩ := hdeclares
  exact scopeAfter_ne_zero hrest

end

end StackToGo.Local
