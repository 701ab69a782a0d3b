import Mathlib.Data.List.Nodup
import Mathlib.Data.List.Perm.Subperm
import Mathlib.Logic.Relation
import StackToGo.Ty.Table

/-!
# Types that lead back to themselves

A type of a table refers to others by their ids, so following references may never end. Two kinds
of references matter: those by value (`TypeTable.Embeds`), along which sizes add up, and those that
the Go text of a type is made of (`TypeTable.Mentions`). `LoopFree` says that following one of them
from a type meets no type that leads back to itself. As a table has finitely many types, a way
without repetition (`Trail`) is no longer than the table, and from a loop-free type every way ends
(`LoopFree.acc`).
-/

namespace StackToGo

open Relation

/-- The types that lie by value inside a type. -/
def Ty.parts : Ty → List TypeId
  | .array item _ => [item]
  | .struct fields => fields
  | .union members => members
  | .scalar _ | .pointer _ | .function .. => []

/-- The types that the Go text of a type is made of, where `id` is the id of the type: all that it
refers to, but the pointer to nothing in particular is a word of its own. -/
def Ty.mentioned (id : TypeId) : Ty → List TypeId
  | .pointer pointee => if TypeTable.isVoidPointer id then [] else [pointee]
  | ty => ty.references

/-- A type mentions only what it refers to. -/
theorem Ty.mentioned_subset (id : TypeId) (ty : Ty) : ty.mentioned id ⊆ ty.references := by
  cases ty with
  | pointer pointee =>
    rw [mentioned]
    split
    · exact List.nil_subset _
    · exact List.Subset.refl _
  | _ => exact List.Subset.refl _

/-- A type mentions what lies in it by value. -/
theorem Ty.parts_subset_mentioned (id : TypeId) (ty : Ty) : ty.parts ⊆ ty.mentioned id := by
  cases ty <;> simp [parts, mentioned, references]

namespace TypeTable

variable {table : TypeTable} {id other : TypeId} {ty : Ty}

/-- An id names the entry at its place. -/
theorem get_eq_ok_iff : table.get id = .ok ty ↔ table.entries[id.val]? = some ty := by
  rw [get]
  split <;> simp_all

/-- An id that names a type is within the table. -/
theorem lt_size_of_get (h : table.get id = .ok ty) : id.val < table.size :=
  (List.getElem?_eq_some_iff.1 (get_eq_ok_iff.1 h)).1

/-- An id within the table names a type. -/
theorem exists_get (h : id.val < table.size) : ∃ ty, table.get id = .ok ty :=
  ⟨table.entries[id.val], get_eq_ok_iff.2 (List.getElem?_eq_getElem h)⟩

/-- Types that are named are entries. -/
theorem mem_entries_of_get (h : table.get id = .ok ty) : ty ∈ table.entries :=
  List.mem_of_getElem? (get_eq_ok_iff.1 h)

/-- Every reference leads to a type of the table. -/
def Closed (table : TypeTable) : Prop :=
  ∀ ty ∈ table.entries, ∀ id ∈ ty.references, id.val < table.size

instance (table : TypeTable) : Decidable table.Closed := List.decidableBAll _ _

/-- A value of the first type has one of the second directly inside. -/
def Embeds (table : TypeTable) (outer inner : TypeId) : Prop :=
  ∃ ty, table.get outer = .ok ty ∧ inner ∈ ty.parts

/-- The Go text of the first type has that of the second directly inside. -/
def Mentions (table : TypeTable) (id other : TypeId) : Prop :=
  ∃ ty, table.get id = .ok ty ∧ other ∈ ty.mentioned id

/-- What lies in a type by value is mentioned by it. -/
theorem Embeds.mentions (h : table.Embeds id other) : table.Mentions id other := by
  obtain ⟨ty, hty, hother⟩ := h
  exact ⟨ty, hty, ty.parts_subset_mentioned id hother⟩

/-- What a type mentions, from its entry. -/
theorem mentions_iff (h : table.get id = .ok ty) :
    table.Mentions id other ↔ other ∈ ty.mentioned id := by
  refine ⟨fun hmentions => ?_, fun hother => ⟨ty, h, hother⟩⟩
  obtain ⟨ty', hty', hother⟩ := hmentions
  rw [h] at hty'
  cases hty'
  exact hother

/-- A type with parts is within the table. -/
theorem Embeds.lt_size (h : table.Embeds id other) : id.val < table.size := by
  obtain ⟨ty, hty, -⟩ := h
  exact lt_size_of_get hty

/-- A type that mentions others is within the table. -/
theorem Mentions.lt_size (h : table.Mentions id other) : id.val < table.size := by
  obtain ⟨ty, hty, -⟩ := h
  exact lt_size_of_get hty

/-- In a closed table what is mentioned is within the table. -/
theorem Closed.mentions (hclosed : table.Closed) (h : table.Mentions id other) :
    other.val < table.size := by
  obtain ⟨ty, hty, hother⟩ := h
  exact hclosed ty (mem_entries_of_get hty) other (ty.mentioned_subset id hother)

/-! ## Tables from lists are closed -/

/-- A type has no dangling reference if all references are within the table. -/
theorem dangling?_eq_none_iff :
    table.dangling? ty = none ↔ ∀ id ∈ ty.references, id.val < table.size := by
  simp [dangling?, List.find?_eq_none]

/-- No dangling reference is found if all references are within the table. -/
theorem findDangling_eq_none_iff {list : List Ty} :
    table.findDangling list = none ↔ ∀ ty ∈ list, ∀ id ∈ ty.references, id.val < table.size := by
  induction list with
  | nil => simp [findDangling]
  | cons ty rest ih =>
    rw [findDangling, List.forall_mem_cons, ← ih, ← dangling?_eq_none_iff]
    split <;> simp_all

end TypeTable

/-! ## Loops -/

section

variable {r s : TypeId → TypeId → Prop} {id other : TypeId}

/-- No type that `id` leads to leads back to itself. -/
def LoopFree (r : TypeId → TypeId → Prop) (id : TypeId) : Prop :=
  ∀ x, ReflTransGen r id x → ¬TransGen r x x

/-- What a loop-free type leads to is loop-free. -/
theorem LoopFree.step (h : LoopFree r id) (hstep : r id other) : LoopFree r other :=
  fun x hx => h x (.head hstep hx)

/-- A type that is loop-free along more references is loop-free along fewer. -/
theorem LoopFree.mono (h : LoopFree s id) (hrs : ∀ a b, r a b → s a b) : LoopFree r id :=
  fun x hx hloop => h x (ReflTransGen.mono hrs _ _ hx) (TransGen.mono hrs _ _ hloop)

/-- Different types of the table, each of which leads to `id`. -/
structure Trail (r : TypeId → TypeId → Prop) (size : Nat) (opened : List TypeId) (id : TypeId) :
    Prop where
  nodup : opened.Nodup
  lt_size : ∀ o ∈ opened, o.val < size
  leads : ∀ o ∈ opened, TransGen r o id

variable {size : Nat} {opened : List TypeId}

/-- The empty trail. -/
theorem trail_nil : Trail r size [] id := ⟨.nil, by simp, by simp⟩

/-- A trail goes on by one step to another type. -/
theorem Trail.cons (h : Trail r size opened id) (hid : id ∉ opened) (hlt : id.val < size)
    (hstep : r id other) :
    Trail r size (id :: opened) other where
  nodup := List.nodup_cons.2 ⟨hid, h.nodup⟩
  lt_size := List.forall_mem_cons.2 ⟨hlt, h.lt_size⟩
  leads := List.forall_mem_cons.2 ⟨.single hstep, fun o ho => (h.leads o ho).tail hstep⟩

/-- A trail is no longer than the table. -/
theorem Trail.length_le (h : Trail r size opened id) : opened.length ≤ size := by
  have hinjective : Function.Injective TypeId.val := by
    rintro ⟨a⟩ ⟨b⟩ rfl
    rfl
  have hvals : (opened.map TypeId.val).Nodup := List.Nodup.map hinjective h.nodup
  have hsubset : opened.map TypeId.val ⊆ List.range size := by
    intro n hn
    obtain ⟨o, ho, rfl⟩ := List.mem_map.1 hn
    exact List.mem_range.2 (h.lt_size o ho)
  simpa using (List.subperm_of_subset hvals hsubset).length_le

/-- A type on its own trail leads back to itself. -/
theorem Trail.not_mem (h : Trail r size opened id) (hid : LoopFree r id) : id ∉ opened :=
  fun hmem => hid id .refl (h.leads id hmem)

/-- From a loop-free type every way ends, as a trail has no room to go on. -/
theorem Trail.acc (hlt : ∀ a b, r a b → a.val < size) (rest : Nat) (h : Trail r size opened id)
    (hrest : size < rest + opened.length) (hid : LoopFree r id) : Acc (fun a b => r b a) id := by
  induction rest generalizing opened id with
  | zero =>
    have := h.length_le
    omega
  | succ rest ih =>
    refine .intro id fun other hstep => ?_
    refine ih (h.cons (h.not_mem hid) (hlt _ _ hstep) hstep) ?_ (hid.step hstep)
    rw [List.length_cons]
    omega

/-- From a loop-free type every way ends. -/
theorem LoopFree.acc (hlt : ∀ a b, r a b → a.val < size) (hid : LoopFree r id) :
    Acc (fun a b => r b a) id :=
  trail_nil.acc hlt (size + 1) (by simp) hid

/-- Where every way ends, no type leads back to itself. -/
theorem not_transGen_of_acc (h : Acc (fun a b => r b a) id) : ¬TransGen r id id := by
  induction h with
  | intro id _ ih =>
    intro hloop
    obtain ⟨next, hstep, hback⟩ := TransGen.head'_iff.1 hloop
    exact ih next hstep (.tail' hback hstep)

/-- Where every way ends, a type is loop-free. -/
theorem loopFree_of_acc (h : Acc (fun a b => r b a) id) : LoopFree r id := by
  intro x hx
  have hacc : Acc (fun a b => r b a) x := by
    induction hx with
    | refl => exact h
    | tail _ hstep ih => exact ih.inv hstep
  exact not_transGen_of_acc hacc

end

/-- Where types contain only earlier ones by value, none contains itself. -/
theorem TypeTable.loopFree_of_earlier {table : TypeTable}
    (h : ∀ entry ∈ table.entries.zipIdx, ∀ x ∈ entry.1.parts, x.val < entry.2) (id : TypeId) :
    LoopFree table.Embeds id := by
  have hearlier : ∀ a b, table.Embeds a b → b.val < a.val := by
    rintro a b ⟨ty, hget, hb⟩
    exact h (ty, a.val) (List.mk_mem_zipIdx_iff_getElem?.2 (get_eq_ok_iff.1 hget)) b hb
  have hwf : WellFounded fun a b : TypeId => table.Embeds b a :=
    Subrelation.wf (fun {a b} hstep => hearlier b a hstep) (InvImage.wf TypeId.val Nat.lt_wfRel.wf)
  exact loopFree_of_acc (hwf.apply id)

end StackToGo
