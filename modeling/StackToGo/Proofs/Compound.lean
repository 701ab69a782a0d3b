import Mathlib.Algebra.GroupWithZero.Nat
import Mathlib.Data.List.Basic
import StackToGo.Proofs.Tree

/-!
# Stores that compute their address once

A duplication makes two trees: the address, and its second use. Nothing in the second use says
which address it stands for. It is the position that tells: both have that of the instruction that
made them, which is the *origin* of the duplication if every instruction has a position of its own.

The marks of a tree say what it refers to, and for each second use which stores it is in the values
of. A tree is closed if each second use is to the right of its address. If besides all duplicated
addresses are those of stores, a second use is inside the value of the store to its address
(`Tree.Closed.origin_of_use`).
-/

namespace StackToGo

/-! ## What a tree refers to -/

/-- A store that computes its address once: the origin of the duplication, and the address. -/
structure Compound where
  origin : Position
  address : Tree

/-- What a tree refers to. -/
inductive Tree.Mark where
  /-- A variable or a function, by its name. -/
  | name
  /-- The address of a store, which is computed and kept. -/
  | bind (c : Compound)
  /-- The second use of the address duplicated at `origin`, or the store of it. It is inside the
  values of the stores `within`, the innermost first. -/
  | use (origin : Position) (within : List Compound)
  /-- A duplicated address that is not the address of a store. -/
  | stray

mutual
/-- The marks of a tree inside the values of the given stores, in the order in which it is
computed. -/
def Tree.marks : Tree → List Compound → List Tree.Mark
  | .mk shape _ position comma, within =>
    Tree.marksAll comma within ++ Shape.marks shape position within

/-- The marks of trees one after the other. -/
def Tree.marksAll : List Tree → List Compound → List Tree.Mark
  | [], _ => []
  | t :: later, within => t.marks within ++ Tree.marksAll later within

/-- The marks of a tree of the given shape without side effects. -/
def Shape.marks : Shape → Position → List Compound → List Tree.Mark
  | .argument .., _, _ => [.name]
  | .localVar .., _, _ => [.name]
  | .result .., _, _ => [.name]
  | .global .., _, _ => [.name]
  | .const32 _, _, _ => []
  | .const64 _, _, _ => []
  | .stringConst _, _, _ => []
  | .null, _, _ => []
  | .binary _ lhs rhs, _, within => lhs.marks within ++ rhs.marks within
  | .compare _ _ lhs rhs, _, within => lhs.marks within ++ rhs.marks within
  | .unary _ _ operand, _, within => operand.marks within
  | .convert _ operand, _, within => operand.marks within
  | .load _ pointer, _, within => pointer.marks within
  | .store _ _ (.mk (.dup target) _ origin comma) value, _, within =>
    Tree.marksAll comma within ++ target.marks within ++
      .bind ⟨origin, target⟩ :: .use origin (⟨origin, target⟩ :: within) ::
        value.marks (⟨origin, target⟩ :: within)
  | .store _ _ address value, _, within => address.marks within ++ value.marks within
  | .copy _ dst src, _, within => dst.marks within ++ src.marks within
  | .element _ _ base index, _, within => base.marks within ++ index.marks within
  | .field _ _ base, _, within => base.marks within
  | .increment _ _ _ operand, _, within => operand.marks within
  | .ptrDiff _ lhs rhs, _, within => lhs.marks within ++ rhs.marks within
  | .call _ _ arguments, _, within => .name :: Tree.marksAll arguments within
  | .callPointer _ callee arguments, _, within =>
    callee.marks within ++ Tree.marksAll arguments within
  | .logical _ lhs rhs, _, within => lhs.marks within ++ rhs.marks within
  | .conditional cond whenTrue whenFalse, _, within =>
    cond.marks within ++ (whenTrue.marks within ++ whenFalse.marks within)
  | .dup address, _, within => .stray :: address.marks within
  | .dupRef, position, within => [.use position within]
end

/-- Does it store to an address that is computed once? -/
def Shape.isCompound : Shape → Bool
  | .store _ _ (.mk (.dup _) _ _ _) _ => true
  | _ => false

/-- What a shape refers to beside its operands. -/
def Shape.ownMarks : Shape → Position → List Compound → List Tree.Mark
  | .argument .., _, _ => [.name]
  | .localVar .., _, _ => [.name]
  | .result .., _, _ => [.name]
  | .global .., _, _ => [.name]
  | .call .., _, _ => [.name]
  | .dup _, _, _ => [.stray]
  | .dupRef, position, within => [.use position within]
  | _, _, _ => []

/-- The marks of trees are those of each tree in turn. -/
theorem Tree.marksAll_eq_flatMap (list : List Tree) (within : List Compound) :
    Tree.marksAll list within = list.flatMap (·.marks within) := by
  induction list with
  | nil => rw [Tree.marksAll, List.flatMap_nil]
  | cons t later ih => rw [Tree.marksAll, ih, List.flatMap_cons]

/-- A shape without a compound store has its own marks and then those of its operands. -/
theorem Shape.marks_of_plain {shape : Shape} (h : shape.isCompound = false) (position : Position)
    (within : List Compound) :
    shape.marks position within = shape.ownMarks position within ++
      shape.operands.flatMap (·.marks within) := by
  cases shape
  case store bits bitOffset address value =>
    have hplain : ∀ target type origin comma,
        address = .mk (.dup target) type origin comma → False := by
      rintro target type origin comma rfl
      cases h
    rw [Shape.marks]
    · simp [Shape.ownMarks, Shape.operands]
    · exact hplain
  all_goals simp [Shape.marks, Shape.ownMarks, Shape.operands, Tree.marksAll_eq_flatMap]

/-- The marks of a comma list come before those of the tree. -/
theorem Tree.marks_mk (shape : Shape) (type : Option TypeId) (position : Position)
    (comma : List Tree) (within : List Compound) :
    (Tree.mk shape type position comma).marks within =
      comma.flatMap (·.marks within) ++ shape.marks position within := by
  rw [Tree.marks, Tree.marksAll_eq_flatMap]

/-- The marks of a compound store: the address is computed and bound, and the value is computed
with it in scope. -/
theorem Shape.marks_compound (bits bitOffset : Nat) (target : Tree) (type : Option TypeId)
    (origin : Position) (comma : List Tree) (value : Tree) (position : Position)
    (within : List Compound) :
    (Shape.store bits bitOffset (.mk (.dup target) type origin comma) value).marks
      position within = comma.flatMap (·.marks within) ++ target.marks within ++
        .bind ⟨origin, target⟩ ::
        .use origin (⟨origin, target⟩ :: within) :: value.marks (⟨origin, target⟩ :: within) := by
  rw [Shape.marks, Tree.marksAll_eq_flatMap]

/-- Induction on trees that looks through the duplicated address of a store. -/
theorem Tree.compoundInduction {P : Tree → Prop} (t : Tree)
    (plain : ∀ shape type position comma, shape.isCompound = false → (∀ x ∈ comma, P x) →
      (∀ x ∈ shape.operands, P x) → P (.mk shape type position comma))
    (compound : ∀ bits bitOffset target type origin inner value stored position comma,
      (∀ x ∈ comma, P x) → (∀ x ∈ inner, P x) → P target → P value →
      P (.mk (.store bits bitOffset (.mk (.dup target) type origin inner) value) stored
        position comma)) :
    P t := by
  -- What is proved of a duplicated address is said of its parts, since it stands for nothing by
  -- itself.
  suffices h : P t ∧ ∀ target type origin inner, t = .mk (.dup target) type origin inner →
      P target ∧ ∀ x ∈ inner, P x from h.1
  induction t using Tree.inductionOn with
  | mk shape type position comma hcomma hoperands =>
    refine ⟨?_, ?_⟩
    · by_cases hc : shape.isCompound = false
      · exact plain shape type position comma hc (fun x hx => (hcomma x hx).1)
          (fun x hx => (hoperands x hx).1)
      · obtain ⟨bits, bitOffset, target, ty, origin, inner, value, rfl⟩ :
            ∃ bits bitOffset target ty origin inner value,
            shape = .store bits bitOffset (.mk (.dup target) ty origin inner) value := by
          unfold Shape.isCompound at hc
          split at hc
          · exact ⟨_, _, _, _, _, _, _, rfl⟩
          · exact absurd rfl hc
        obtain ⟨htarget, hinner⟩ := (hoperands _ List.mem_cons_self).2 target ty origin inner rfl
        have hvalue := (hoperands value (List.mem_cons_of_mem _ List.mem_cons_self)).1
        exact compound bits bitOffset target ty origin inner value type position comma
          (fun x hx => (hcomma x hx).1) hinner htarget hvalue
    · rintro target ty origin inner heq
      cases heq
      exact ⟨(hoperands target List.mem_cons_self).1, fun x hx => (hcomma x hx).1⟩

/-! ## Marks of a tree that is moved -/

def Compound.relocate (g : Position → Position) (c : Compound) : Compound :=
  ⟨g c.origin, c.address.relocate g⟩

def Tree.Mark.relocate (g : Position → Position) : Tree.Mark → Tree.Mark
  | .name => .name
  | .bind c => .bind (c.relocate g)
  | .use origin within => .use (g origin) (within.map (Compound.relocate g))
  | .stray => .stray

/-- Other positions leave a compound store one. -/
theorem Shape.isCompound_relocate (g : Position → Position) (shape : Shape) :
    (shape.relocate g).isCompound = shape.isCompound := by
  cases shape
  case store bits bitOffset address value =>
    obtain ⟨shape, type, position, comma⟩ := address
    have hmoved : (Shape.store bits bitOffset (.mk shape type position comma) value).relocate g =
        .store bits bitOffset (.mk (shape.relocate g) type (g position)
          (comma.map (Tree.relocate g))) (value.relocate g) := by
      rw [← Tree.relocate_mk]
      rfl
    rw [hmoved]
    cases shape <;> rfl
  all_goals rfl

/-- The own marks of a shape get the new positions. -/
theorem Shape.ownMarks_relocate (g : Position → Position) (shape : Shape) (position : Position)
    (within : List Compound) :
    (shape.relocate g).ownMarks (g position) (within.map (Compound.relocate g)) =
      (shape.ownMarks position within).map (Tree.Mark.relocate g) := by
  cases shape <;> rfl

/-- The marks of a tree get the new positions. -/
theorem Tree.marks_relocate (g : Position → Position) (t : Tree) (within : List Compound) :
    (t.relocate g).marks (within.map (Compound.relocate g)) =
      (t.marks within).map (Tree.Mark.relocate g) := by
  have hlist : ∀ (list : List Tree) (within : List Compound),
      (∀ x ∈ list, ∀ within, (x.relocate g).marks (within.map (Compound.relocate g)) =
        (x.marks within).map (Tree.Mark.relocate g)) →
      (list.map (Tree.relocate g)).flatMap (·.marks (within.map (Compound.relocate g))) =
        (list.flatMap (·.marks within)).map (Tree.Mark.relocate g) := by
    intro list within h
    rw [List.flatMap_map, List.map_flatMap]
    exact List.flatMap_congr fun x hx => h x hx within
  induction t using Tree.compoundInduction generalizing within with
  | plain shape type position comma hplain hcomma hoperands =>
    have hmoved : (shape.relocate g).isCompound = false :=
      (Shape.isCompound_relocate g shape).trans hplain
    rw [Tree.relocate_mk, Tree.marks_mk, Tree.marks_mk, Shape.marks_of_plain hmoved,
      Shape.marks_of_plain hplain, Shape.operands_relocate, hlist comma within hcomma,
      hlist shape.operands within hoperands, Shape.ownMarks_relocate, List.map_append,
      List.map_append]
  | compound bits bitOffset target type origin inner value stored position comma hcomma hinner
      htarget hvalue =>
    have hmoved :
        (Shape.store bits bitOffset (.mk (.dup target) type origin inner) value).relocate g =
        .store bits bitOffset (.mk (.dup (target.relocate g)) type (g origin)
          (inner.map (Tree.relocate g))) (value.relocate g) := by
      show Shape.store bits bitOffset ((Tree.mk (.dup target) type origin inner).relocate g) _ = _
      rw [Tree.relocate_mk]
      rfl
    have hvalue' := hvalue (⟨origin, target⟩ :: within)
    rw [List.map_cons] at hvalue'
    rw [Tree.relocate_mk, Tree.marks_mk, Tree.marks_mk, hmoved, Shape.marks_compound,
      Shape.marks_compound, hlist comma within hcomma, hlist inner within hinner, htarget within]
    simp only [List.map_append, List.map_cons]
    rw [← hvalue']
    rfl

/-! ## Second uses in scope -/

/-- The origin of a duplicated address. -/
def Tree.binder : Tree → List Position
  | .mk (.dup _) _ origin _ => [origin]
  | _ => []

/-- Every second use in the tree is of an address in scope, or of one that is an operand to its
left. -/
inductive Tree.Closed : List Position → Tree → Prop
  | mk {scope : List Position} {shape : Shape} {type : Option TypeId} {position : Position}
      {comma : List Tree} (hcomma : ∀ x ∈ comma, Tree.Closed scope x)
      (hown : shape = .dupRef → position ∈ scope)
      (hoperands : ∀ front x back, shape.operands = front ++ x :: back →
        Tree.Closed (front.flatMap Tree.binder ++ scope) x) :
      Tree.Closed scope (.mk shape type position comma)

/-- A tree stays closed where more addresses are in scope. -/
theorem Tree.Closed.mono {scope scope' : List Position} {t : Tree} (h : t.Closed scope)
    (hsub : scope ⊆ scope') : t.Closed scope' := by
  induction h generalizing scope' with
  | mk hcomma hown hoperands ihcomma ihoperands =>
    refine .mk (fun x hx => ihcomma x hx hsub) (fun h => hsub (hown h)) fun front x back heq => ?_
    have hright :=
      List.Subset.trans hsub (List.subset_append_right (front.flatMap Tree.binder) scope')
    exact ihoperands front x back heq (List.append_subset.2 ⟨List.subset_append_left _ _, hright⟩)

/-- Operands that are computed from left to right. -/
def OperandsClosed (scope : List Position) (operands : List Tree) : Prop :=
  ∀ front x back, operands = front ++ x :: back → x.Closed (front.flatMap Tree.binder ++ scope)

/-- No operands are closed. -/
theorem operandsClosed_nil (scope : List Position) : OperandsClosed scope [] := by
  intro front x back h
  simp at h

/-- An operand that is closed with the addresses to its left in scope can be added. -/
theorem OperandsClosed.concat {scope : List Position} {operands : List Tree} {t : Tree}
    (h : OperandsClosed scope operands) (ht : t.Closed (operands.flatMap Tree.binder ++ scope)) :
    OperandsClosed scope (operands ++ [t]) := by
  intro front x back heq
  rcases List.eq_nil_or_concat' back with rfl | ⟨back, last, rfl⟩
  · obtain ⟨rfl, hx⟩ := List.append_inj' heq rfl
    cases hx
    exact ht
  · rw [← List.cons_append, ← List.append_assoc] at heq
    exact h front x back (List.append_inj' heq rfl).1

/-- Operands that are closed each for itself are closed in a row. -/
theorem operandsClosed_of_forall {scope : List Position} {operands : List Tree}
    (h : ∀ x ∈ operands, x.Closed scope) : OperandsClosed scope operands := by
  rintro front x back rfl
  exact (h x (by simp)).mono (List.subset_append_right _ _)

/-- The operands of a closed tree are closed. -/
theorem Tree.Closed.operands {scope : List Position} {shape : Shape} {type : Option TypeId}
    {position : Position} {comma : List Tree}
    (h : (Tree.mk shape type position comma).Closed scope) :
    OperandsClosed scope shape.operands := by
  cases h with
  | mk _ _ hoperands => exact hoperands

/-- The comma list of a closed tree is closed. -/
theorem Tree.Closed.comma {scope : List Position} {shape : Shape} {type : Option TypeId}
    {position : Position} {comma : List Tree}
    (h : (Tree.mk shape type position comma).Closed scope) : ∀ x ∈ comma, x.Closed scope := by
  cases h with
  | mk hcomma _ _ => exact hcomma

/-- A duplicated address that is no operand of a compound store is a stray one. -/
theorem stray_mem_marks {t : Tree} {origin : Position} (h : origin ∈ t.binder)
    (within : List Compound) : .stray ∈ t.marks within := by
  obtain ⟨shape, type, position, comma⟩ := t
  cases shape
  case dup target =>
    rw [Tree.marks_mk, Shape.marks_of_plain rfl]
    simp [Shape.ownMarks]
  all_goals cases h

/-- If all duplicated addresses in a tree are those of stores, a second use is inside the value of
the store to its address, or its address is in scope. -/
theorem Tree.Closed.origin_of_use {t : Tree} {scope : List Position} {within w : List Compound}
    {origin : Position} (h : t.Closed scope) (hstray : .stray ∉ t.marks within)
    (huse : .use origin w ∈ t.marks within) :
    ∃ inner, w = inner ++ within ∧ (origin ∈ inner.map (·.origin) ∨ origin ∈ scope) := by
  induction t using Tree.compoundInduction generalizing scope within with
  | plain shape type position comma hplain ihcomma ihoperands =>
    rw [Tree.marks_mk, Shape.marks_of_plain hplain] at hstray huse
    simp only [List.mem_append, List.mem_flatMap, not_or, not_exists, not_and] at hstray huse
    obtain ⟨hcomma, hown, hoperands⟩ := hstray
    rcases huse with ⟨x, hx, hmem⟩ | hmem | ⟨x, hx, hmem⟩
    · exact ihcomma x hx (h.comma x hx) (hcomma x hx) hmem
    · cases shape <;> simp [Shape.ownMarks] at hmem
      obtain ⟨rfl, rfl⟩ := hmem
      cases h with
      | mk _ hscope _ => exact ⟨[], rfl, .inr (hscope rfl)⟩
    · obtain ⟨front, back, hsplit⟩ := List.append_of_mem hx
      have hfront : front.flatMap Tree.binder = [] := by
        rw [List.flatMap_eq_nil_iff]
        intro y hy
        refine List.eq_nil_iff_forall_not_mem.2 fun o ho => ?_
        exact hoperands y (hsplit ▸ List.mem_append_left _ hy) (stray_mem_marks ho within)
      have hclosed := h.operands front x back hsplit
      rw [hfront] at hclosed
      exact ihoperands x hx hclosed (hoperands x hx) hmem
  | compound bits bitOffset target type o inner value stored position comma ihcomma ihinner
      ihtarget ihvalue =>
    rw [Tree.marks_mk, Shape.marks_compound] at hstray huse
    simp only [List.mem_append, List.mem_flatMap, List.mem_cons, not_or, not_exists, not_and,
      reduceCtorEq, false_or, Tree.Mark.use.injEq] at hstray huse
    obtain ⟨hcomma, ⟨hinner, htarget⟩, hvalue⟩ := hstray
    have haddress := h.operands [] _ [value] rfl
    rcases huse with ⟨x, hx, hmem⟩ | (⟨x, hx, hmem⟩ | hmem) | ⟨rfl, rfl⟩ | hmem
    · exact ihcomma x hx (h.comma x hx) (hcomma x hx) hmem
    · exact ihinner x hx (haddress.comma x hx) (hinner x hx) hmem
    · exact ihtarget (haddress.operands [] target [] rfl) htarget hmem
    · exact ⟨[⟨origin, target⟩], rfl, .inl List.mem_cons_self⟩
    · have hclosed := h.operands [.mk (.dup target) type o inner] value [] rfl
      obtain ⟨inside, rfl, hin⟩ := ihvalue hclosed hvalue hmem
      refine ⟨inside ++ [⟨o, target⟩], by simp, ?_⟩
      rcases hin with hin | hin
      · exact .inl (by simp [hin])
      · rcases List.mem_cons.1 hin with rfl | hin
        · exact .inl (by simp)
        · exact .inr hin

/-! ## How often a duplication occurs -/

/-- The two trees that a duplication makes. -/
inductive Part where
  | address
  | reuse
  deriving DecidableEq

def Shape.part? : Shape → Option Part
  | .dup _ => some .address
  | .dupRef => some .reuse
  | _ => none

/-- How many trees in a tree are the given part of the duplication at `origin`. -/
def Tree.count (part : Part) (origin : Position) : Tree → Nat :=
  Tree.fold fun shape _ position comma operands =>
    (if shape.part? = some part ∧ position = origin then 1 else 0) + (comma.sum + operands.sum)

def Tree.countAll (part : Part) (origin : Position) (list : List Tree) : Nat :=
  (list.map (Tree.count part origin)).sum

section

variable {part : Part} {origin : Position}

@[simp] theorem Tree.countAll_nil : Tree.countAll part origin [] = 0 := rfl

/-- The parts in a list are those in its first tree and those in the others. -/
@[simp] theorem Tree.countAll_cons (t : Tree) (list : List Tree) :
    Tree.countAll part origin (t :: list) =
      t.count part origin + Tree.countAll part origin list := by
  simp [Tree.countAll]

/-- The parts in two lists are counted one list after the other. -/
@[simp] theorem Tree.countAll_append (front back : List Tree) :
    Tree.countAll part origin (front ++ back) =
      Tree.countAll part origin front + Tree.countAll part origin back := by
  simp [Tree.countAll]

/-- The order of trees does not matter for the number of parts. -/
@[simp] theorem Tree.countAll_reverse (list : List Tree) :
    Tree.countAll part origin list.reverse = Tree.countAll part origin list := by
  simp [Tree.countAll]

/-- The parts in a tree are the tree itself, if it is one, and those in its comma list and its
operands. -/
theorem Tree.count_mk (shape : Shape) (type : Option TypeId) (position : Position)
    (comma : List Tree) :
    (Tree.mk shape type position comma).count part origin =
      (if shape.part? = some part ∧ position = origin then 1 else 0) +
        (Tree.countAll part origin comma + Tree.countAll part origin shape.operands) :=
  Tree.fold_mk _ shape type position comma

end

end StackToGo
