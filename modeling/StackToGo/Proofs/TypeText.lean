import Mathlib.Data.List.Forall2
import StackToGo.Routine

/-!
# What Go types are given

`Expands` relates a type of a table to its Go type without any memory of earlier answers. The
answers that `TypeText` remembers are such expansions (`TypeText.Settled`), whatever was asked for
before and whether it failed or not, and so are the answers that it gives. An array of numbers
always has a Go type.
-/

namespace StackToGo

namespace Action

section

variable {σ α β : Type} {I : σ → Prop}

/-- On a state with the invariant the action keeps it, and the result, if there is one, has the
property. -/
def Maintains (I : σ → Prop) (m : Action σ α) (Q : α → Prop) : Prop :=
  ∀ s, I s → I (m.perform s).2 ∧ ∀ a, (m.perform s).1 = .ok a → Q a

/-- A weaker property holds too. -/
theorem Maintains.weaken {m : Action σ α} {Q R : α → Prop} (h : Maintains I m Q)
    (hQ : ∀ a, Q a → R a) : Maintains I m R :=
  fun s hs => ⟨(h s hs).1, fun a ha => hQ a ((h s hs).2 a ha)⟩

/-- A result without an action keeps the state. -/
theorem maintains_pure {a : α} {Q : α → Prop} (h : Q a) : Maintains I (pure a : Action σ α) Q := by
  intro s hs
  refine ⟨hs, fun b hb => ?_⟩
  cases hb
  exact h

/-- A failure keeps the state. -/
theorem maintains_throw (e : Error) {Q : α → Prop} : Maintains I (throw e : Action σ α) Q := by
  intro s hs
  refine ⟨hs, fun b hb => ?_⟩
  cases hb

/-- A result from outside of the action keeps the state. -/
theorem maintains_lift (r : Except Error α) : Maintains I (liftM r : Action σ α) (r = .ok ·) := by
  intro s hs
  rw [perform_liftExcept]
  exact ⟨hs, fun _ h => h⟩

/-- The state is read as it is. -/
theorem maintains_get : Maintains I (get : Action σ σ) I := by
  intro s hs
  refine ⟨hs, fun b hb => ?_⟩
  cases hb
  exact hs

/-- A change of the state may keep the invariant. -/
theorem maintains_modify {f : σ → σ} (h : ∀ s, I s → I (f s)) :
    Maintains I (modify f : Action σ Unit) fun _ => True :=
  fun s hs => ⟨h s hs, fun _ _ => trivial⟩

/-- An action and what follows it keep the invariant if both do. -/
theorem maintains_bind {m : Action σ α} {k : α → Action σ β} {R : α → Prop} {Q : β → Prop}
    (hm : Maintains I m R) (hk : ∀ a, R a → Maintains I (k a) Q) : Maintains I (m >>= k) Q := by
  intro s hs
  obtain ⟨hs₁, hR⟩ := hm s hs
  rw [perform_bind]
  generalize m.perform s = r at hs₁ hR
  obtain ⟨r, s₁⟩ := r
  cases r with
  | error e => exact ⟨hs₁, fun b hb => by cases hb⟩
  | ok a => exact hk a (hR a rfl) s₁ hs₁

/-- The results of a list of actions, one by one. -/
theorem maintains_mapM {m : α → Action σ β} {R : α → β → Prop} (hm : ∀ a, Maintains I (m a) (R a))
    (list : List α) : Maintains I (list.mapM m) (List.Forall₂ R list) := by
  induction list with
  | nil => exact maintains_pure .nil
  | cons a list ih =>
    rw [List.mapM_cons]
    exact maintains_bind (hm a) fun b hb => maintains_bind ih fun bs hbs =>
      maintains_pure (.cons hb hbs)

end

end Action

namespace TypeText

open StackToGo.Action

/-- The Go type that a type expands to. -/
inductive Expands (table : TypeTable) (target : Target) : TypeId → Go.Ty → Prop
  | scalar {id : TypeId} {s : Scalar} (h : table.get id = .ok (.scalar s)) :
      Expands table target id (.scalar s)
  | voidPointer {id pointee : TypeId} (h : table.get id = .ok (.pointer pointee))
      (hvoid : TypeTable.isVoidPointer id) :
      Expands table target id .uintptr
  /-- A pointer to a function is the function itself. -/
  | functionPointer {id pointee : TypeId} {t : Go.Ty} (h : table.get id = .ok (.pointer pointee))
      (hvoid : ¬TypeTable.isVoidPointer id) (hkind : table.kind pointee = .ok .function)
      (ht : Expands table target pointee t) : Expands table target id t
  | pointer {id pointee : TypeId} {k : Kind} {t : Go.Ty}
      (h : table.get id = .ok (.pointer pointee)) (hvoid : ¬TypeTable.isVoidPointer id)
      (hkind : table.kind pointee = .ok k) (hk : k ≠ .function)
      (ht : Expands table target pointee t) :
      Expands table target id (.pointer t)
  | array {id item : TypeId} {items : Nat} {t : Go.Ty} (h : table.get id = .ok (.array item items))
      (ht : Expands table target item t) : Expands table target id (.array items t)
  | struct {id : TypeId} {fields : List TypeId} {ts : List Go.Ty}
      (h : table.get id = .ok (.struct fields))
      (hts : List.Forall₂ (Expands table target) fields ts) :
      Expands table target id (.struct ts)
  | union {id : TypeId} {members : List TypeId} {ts : List Go.Ty} {size : Nat}
      (h : table.get id = .ok (.union members))
      (hts : List.Forall₂ (Expands table target) members ts)
      (hsize : table.sizeOf target id = .ok size) :
      Expands table target id (.union ts size)
  | procedure {id : TypeId} {arguments : List TypeId} {variadic : Bool} {ts : List Go.Ty}
      (h : table.get id = .ok (.function arguments [] variadic))
      (hts : List.Forall₂ (Expands table target) arguments ts) :
      Expands table target id (.func ts variadic none)
  | function {id result : TypeId} {arguments : List TypeId} {variadic : Bool} {ts : List Go.Ty}
      {t : Go.Ty} (h : table.get id = .ok (.function arguments [result] variadic))
      (hts : List.Forall₂ (Expands table target) arguments ts)
      (ht : Expands table target result t) :
      Expands table target id (.func ts variadic (some t))

section

variable {table : TypeTable} {target : Target} {m : TypeText}

/-- A scalar expands to itself. -/
theorem Expands.eq_scalar {id : TypeId} {s : Scalar} {t : Go.Ty} (h : Expands table target id t)
    (hid : table.get id = .ok (.scalar s)) : t = .scalar s := by
  cases h <;> simp_all

/-- An array of scalars expands to one. -/
theorem Expands.eq_array {id item : TypeId} {items : Nat} {s : Scalar} {t : Go.Ty}
    (h : Expands table target id t) (hid : table.get id = .ok (.array item items))
    (hitem : table.get item = .ok (.scalar s)) :
    t = .array items (.scalar s) := by
  cases h with
  | array h ht =>
    rw [hid] at h
    cases h
    rw [ht.eq_scalar hitem]
  | _ => simp_all

/-- The remembered answers are right, and just the given types are being expanded. -/
structure Remembers (table : TypeTable) (target : Target) (opened : List TypeId) (m : TypeText) :
    Prop where
  types : ∀ id t, m.types.lookup id = some t → Expands table target id t
  sizes : ∀ id size, m.sizes.lookup id = some size → table.sizeOf target id = .ok size
  opened : m.opened = opened

/-- The remembered answers are right, and nothing is being expanded. -/
abbrev Settled (table : TypeTable) (target : Target) (m : TypeText) : Prop :=
  Remembers table target [] m

/-- Nothing is remembered at the start. -/
theorem settled_empty : Settled table target .empty where
  types := fun _ _ h => by cases h
  sizes := fun _ _ h => by cases h
  opened := rfl

end

section

variable {table : TypeTable} {target : Target} {opened : List TypeId}

/-- One more answer that is right. -/
theorem of_lookup_cons {α : Type} {Q : TypeId → α → Prop} {id key : TypeId} {a b : α}
    {list : List (TypeId × α)} (h : ((id, a) :: list).lookup key = some b) (ha : Q id a)
    (hlist : list.lookup key = some b → Q key b) :
    Q key b := by
  rw [List.lookup_cons] at h
  split at h
  · rename_i heq
    cases h
    rwa [beq_iff_eq.1 heq]
  · exact hlist h

/-- A size that is right may be remembered. -/
theorem Remembers.addSize {m : TypeText} (h : Remembers table target opened m) {id : TypeId}
    {size : Nat} (hsize : table.sizeOf target id = .ok size) :
    Remembers table target opened { m with sizes := (id, size) :: m.sizes } :=
  ⟨h.types, fun key _ hlookup => of_lookup_cons (Q := fun id size => table.sizeOf target id =
    .ok size) hlookup hsize
    (h.sizes key _), h.opened⟩

/-- A Go type that is right may be remembered. -/
theorem Remembers.addType {m : TypeText} (h : Remembers table target opened m) {id : TypeId}
    {t : Go.Ty} (ht : Expands table target id t) :
    Remembers table target opened { m with types := (id, t) :: m.types } :=
  ⟨fun key _ hlookup => of_lookup_cons hlookup ht (h.types key _), h.sizes, h.opened⟩

/-- Sizes are right, from memory or not. -/
theorem maintains_sizeOf (id : TypeId) :
    Maintains (Remembers table target opened) (sizeOf table target id)
      (table.sizeOf target id = .ok ·) := by
  unfold sizeOf
  refine maintains_bind maintains_get fun m hm => ?_
  split
  case h_1 size hsize => exact maintains_pure (hm.sizes id size hsize)
  case h_2 =>
    refine maintains_bind (maintains_lift _) fun size hsize => ?_
    exact maintains_bind (maintains_modify fun m hm => hm.addSize hsize) fun _ _ =>
      maintains_pure hsize

/-- An expansion is right if those inside of it are. -/
theorem maintains_expand {inner : TypeId → Action TypeText Go.Ty}
    (hinner : ∀ id, Maintains (Remembers table target opened) (inner id) (Expands table target id))
    (id : TypeId) :
    Maintains (Remembers table target opened) (expand table target inner id)
      (Expands table target id) := by
  unfold expand
  refine maintains_bind (maintains_lift _) fun ty hty => ?_
  cases ty with
  | scalar s => exact maintains_pure (.scalar hty)
  | pointer pointee =>
    dsimp only
    split
    case isTrue hvoid => exact maintains_pure (.voidPointer hty hvoid)
    case isFalse hvoid =>
      refine maintains_bind (hinner pointee) fun t ht =>
        maintains_bind (maintains_lift _) fun k hk => ?_
      split
      case isTrue hfunction =>
        exact maintains_pure (.functionPointer hty hvoid (hfunction ▸ hk) ht)
      case isFalse hdata => exact maintains_pure (.pointer hty hvoid hk hdata ht)
  | array item items =>
    exact maintains_bind (hinner item) fun t ht => maintains_pure (.array hty ht)
  | struct fields =>
    exact maintains_bind (maintains_mapM hinner fields) fun ts hts =>
      maintains_pure (.struct hty hts)
  | union members =>
    refine maintains_bind (maintains_mapM hinner members) fun ts hts => ?_
    exact maintains_bind (maintains_sizeOf id) fun size hsize =>
      maintains_pure (.union hty hts hsize)
  | function arguments results variadic =>
    refine maintains_bind (maintains_mapM hinner arguments) fun ts hts => ?_
    match results with
    | [] => exact maintains_pure (.procedure hty hts)
    | [result] =>
      exact maintains_bind (hinner result) fun t ht => maintains_pure (.function hty hts ht)
    | _ :: _ :: _ => exact maintains_throw _

/-- A type is open while it is expanded, and no longer. -/
theorem maintains_opened {α : Type} {a : Action TypeText α} {Q : α → Prop} {id : TypeId}
    (h : Maintains (Remembers table target (id :: opened)) a Q) :
    Maintains (Remembers table target opened) (do
      modify fun m => { m with opened := id :: m.opened }
      a.andAfter fun m => { m with opened := m.opened.erase id }) Q := by
  intro m hm
  have hopen : Remembers table target (id :: opened) { m with opened := id :: m.opened } :=
    ⟨hm.types, hm.sizes, congrArg (id :: ·) hm.opened⟩
  obtain ⟨hclosed, hQ⟩ := h _ hopen
  rw [perform_bind]
  simp only [perform_modify, perform_andAfter]
  refine ⟨⟨hclosed.types, hclosed.sizes, ?_⟩, hQ⟩
  simp [hclosed.opened]

/-- Go types are right at every depth. -/
theorem maintains_goTypeWithin (depth : Nat) (opened : List TypeId) (id : TypeId) :
    Maintains (Remembers table target opened) (goTypeWithin table target depth id)
      (Expands table target id) := by
  induction depth generalizing opened id with
  | zero => exact maintains_throw _
  | succ depth ih =>
    unfold goTypeWithin
    refine maintains_bind maintains_get fun m hm => ?_
    split
    case h_1 t ht => exact maintains_pure (hm.types id t ht)
    case h_2 =>
      refine maintains_bind maintains_get fun m _ => ?_
      split
      case isTrue =>
        exact maintains_bind (maintains_throw _ (Q := fun _ => False)) fun _ h => h.elim
      case isFalse =>
        have hexpand :=
          maintains_opened (maintains_expand (fun inner => ih (id :: opened) inner) id)
        rw [← bind_assoc]
        refine maintains_bind hexpand fun t ht => ?_
        exact maintains_bind (maintains_modify fun m hm => hm.addType ht) fun _ _ =>
          maintains_pure ht

/-- Go types are right. -/
theorem maintains_goType (id : TypeId) :
    Maintains (Settled table target) (goType table target id) (Expands table target id) :=
  maintains_goTypeWithin (table.size + 1) [] id

/-! ## Types that always have a Go type -/

/-- A type that is not being expanded has a Go type if its expansion ends well. -/
theorem exists_perform_goTypeWithin {depth : Nat} {id : TypeId} {m : TypeText}
    (hid : id ∉ m.opened)
    (hexpand : ∃ t m', perform (expand table target (goTypeWithin table target depth) id)
      { m with opened := id :: m.opened } = (.ok t, m')) :
    ∃ t m', perform (goTypeWithin table target (depth + 1) id) m = (.ok t, m') := by
  obtain ⟨t, m', ht⟩ := hexpand
  unfold goTypeWithin
  rw [perform_bind, perform_get]
  dsimp only
  split
  · exact ⟨_, _, rfl⟩
  · simp [perform_bind, hid, ht, -bind_pure_comp]

/-- A scalar that is not being expanded has a Go type, whatever is remembered. -/
theorem exists_perform_scalar (target : Target) (depth : Nat) (m : TypeText) {id : TypeId}
    {s : Scalar} (hid : id ∉ m.opened) (htype : table.get id = .ok (.scalar s)) :
    ∃ t m', perform (goTypeWithin table target (depth + 1) id) m = (.ok t, m') := by
  refine exists_perform_goTypeWithin hid ⟨.scalar s, { m with opened := id :: m.opened }, ?_⟩
  rw [expand, perform_bind, htype]
  rfl

/-- An array of numbers has the Go type of such an array. -/
theorem Settled.perform_goType {m : TypeText} (hm : Settled table target m) {id item : TypeId}
    {items : Nat} {s : Scalar} (htype : table.get id = .ok (.array item items))
    (hitem : table.get item = .ok (.scalar s)) :
    ∃ m', perform (goType table target id) m = (.ok (.array items (.scalar s)), m') := by
  have hdifferent : item ≠ id := by
    rintro rfl
    rw [hitem] at htype
    cases htype
  obtain ⟨depth, hsize⟩ : ∃ depth, table.size = depth + 1 := by
    rw [TypeTable.get] at htype
    split at htype
    · rename_i hentry
      obtain ⟨hlt, -⟩ := List.getElem?_eq_some_iff.1 hentry
      exact ⟨table.size - 1, by rw [TypeTable.size] at *; omega⟩
    · cases htype
  obtain ⟨t, m', h⟩ : ∃ t m', perform (goType table target id) m = (.ok t, m') := by
    rw [goType, hsize]
    refine exists_perform_goTypeWithin (by simp [hm.opened]) ?_
    obtain ⟨t, m', ht⟩ := exists_perform_scalar target depth { m with opened := id :: m.opened }
      (by simp [hm.opened, hdifferent]) hitem
    refine ⟨.array items t, m', ?_⟩
    rw [expand, perform_bind, htype]
    simp [perform_bind, ht, -bind_pure_comp]
  have hexpands := (maintains_goType id m hm).2 t (congrArg Prod.fst h)
  rw [hexpands.eq_array htype hitem] at h
  exact ⟨m', h⟩

end

end TypeText

end StackToGo
