import StackToGo.Proofs.Emit.Functions
import StackToGo.Proofs.Emit.Unions
import StackToGo.Proofs.Go.TypeSpelling
import StackToGo.Proofs.Layout.Paths

/-!
# Literals of aggregates

The initial value of an array or a struct has entries, which may have entries in turn. A path of
keys leads to such a component (`Component`), and the literal has parts under the same keys
(`Go.Expr.partsAt`). `aggregate_literal_complete`: each component that is not zero has exactly one
part, under its own keys, which is what is written for it, and a component that is zero has none. A
union has no keys: its literal holds the bytes of the first entry that is not zero. So a union with
two such entries is written with only one of them (`union_entry_may_be_lost`).
-/

namespace StackToGo

/-! ## Components of initial values -/

/-- How many entries an initial value of the type may have, if they are written under keys. -/
def Ty.room? : Ty → Option Nat
  | .array _ items => some items
  | .struct fields => some fields.length
  | _ => none

/-- The key and the type of the entry at a place. -/
def Ty.slot? : Ty → Nat → Option (Selector × TypeId)
  | .array item items, place => if place < items then some (.item place, item) else none
  | .struct fields, place => fields[place]?.map fun field => (.field place, field)
  | _, _ => none

/-- Different places have different keys. -/
theorem Ty.place_eq_of_slot? {ty : Ty} {i j : Nat} {key : Selector} {part part' : TypeId}
    (hi : ty.slot? i = some (key, part)) (hj : ty.slot? j = some (key, part')) : i = j := by
  cases ty with
  | array => grind [Ty.slot?]
  | struct => grind [Ty.slot?]
  | _ => cases hi

/-- Where there is room, there is a key. -/
theorem Ty.exists_slot? {ty : Ty} {room place : Nat} (hroom : ty.room? = some room)
    (h : place < room) : ∃ key part, ty.slot? place = some (key, part) := by
  cases ty with
  | array item items =>
    cases hroom
    exact ⟨_, _, if_pos h⟩
  | struct fields =>
    cases hroom
    exact ⟨.field place, fields[place], by simp [Ty.slot?, h]⟩
  | _ => cases hroom

/-- Behind a path through arrays and structs, the initial value has a component of the given
type. -/
inductive Component (table : TypeTable) : TypeId → Value → List Selector → TypeId → Value → Prop
  | here (id : TypeId) (v : Value) : Component table id v [] id v
  | entry (place : Nat) {id part final : TypeId} {ty : Ty} {key : Selector}
      {entries : List (Option Value)} {v w : Value} {path : List Selector}
      (hty : table.get id = .ok ty) (hslot : ty.slot? place = some (key, part))
      (hentry : entries[place]? = some (some v)) (h : Component table part v path final w) :
      Component table id (.composite entries) (key :: path) final w

namespace Value

/-- The entries that are not zero, with their places, which are counted from `place` on. -/
def nonzeroEntries (place : Nat) : List (Option Value) → List (Nat × Value)
  | [] => []
  | none :: rest => nonzeroEntries (place + 1) rest
  | some v :: rest =>
    if v.isZero then nonzeroEntries (place + 1) rest
      else (place, v) :: nonzeroEntries (place + 1) rest

variable {entries : List (Option Value)} {place i : Nat} {v w : Value}

/-- Places are counted from the first one on. -/
theorem le_of_mem_nonzeroEntries (h : (i, v) ∈ nonzeroEntries place entries) : place ≤ i := by
  induction entries generalizing place with
  | nil => cases h
  | cons entry rest ih =>
    have hrest (h : (i, v) ∈ nonzeroEntries (place + 1) rest) : place ≤ i :=
      Nat.le_of_succ_le (ih h)
    cases entry with
    | none => exact hrest h
    | some u =>
      rw [nonzeroEntries] at h
      split at h
      · exact hrest h
      · obtain heq | h := List.mem_cons.1 h
        · exact (Prod.mk.inj heq).1.ge
        · exact hrest h

/-- No two entries have the same place. -/
theorem pairwise_nonzeroEntries (place : Nat) (entries : List (Option Value)) :
    (nonzeroEntries place entries).Pairwise fun e e' => e.1 ≠ e'.1 := by
  induction entries generalizing place with
  | nil => exact .nil
  | cons entry rest ih =>
    cases entry with
    | none => exact ih (place + 1)
    | some u =>
      rw [nonzeroEntries]
      split
      · exact ih (place + 1)
      · exact .cons (fun e he => Nat.ne_of_lt (le_of_mem_nonzeroEntries he)) (ih (place + 1))

/-- The entry at a place is there just if it is not zero. -/
theorem mem_nonzeroEntries_add : (place + i, v) ∈ nonzeroEntries place entries ↔
    entries[i]? = some (some v) ∧ v.isZero = false := by
  induction entries generalizing place i with
  | nil => simp [nonzeroEntries]
  | cons entry rest ih =>
    -- The first place is not counted any more for the rest.
    have hrest : (place + i, v) ∈ nonzeroEntries (place + 1) rest ↔
        ∃ j, i = j + 1 ∧ rest[j]? = some (some v) ∧ v.isZero = false := by
      constructor
      · intro h
        obtain ⟨j, hj⟩ := Nat.exists_eq_add_of_le (le_of_mem_nonzeroEntries h)
        obtain rfl : i = j + 1 := by omega
        exact ⟨j, rfl, ih.1 (by rwa [← hj])⟩
      · rintro ⟨j, rfl, h⟩
        rw [Nat.add_comm j, ← Nat.add_assoc]
        exact ih.2 h
    cases entry with
    | none =>
      rw [nonzeroEntries, hrest]
      cases i <;> simp
    | some u =>
      rw [nonzeroEntries]
      split
      case isTrue hu =>
        rw [hrest]
        cases i <;> grind
      case isFalse hu =>
        rw [List.mem_cons, hrest]
        cases i <;> grind

/-- The entries that are not zero, with their places from zero on. -/
theorem mem_nonzeroEntries {e : Nat × Value} :
    e ∈ nonzeroEntries 0 entries ↔ entries[e.1]? = some (some e.2) ∧ e.2.isZero = false := by
  have h := @mem_nonzeroEntries_add entries 0 e.1 e.2
  rwa [Nat.zero_add] at h

/-- Components of what is zero are zero. -/
theorem isZero_of_component {table : TypeTable} {id final : TypeId} {path : List Selector}
    (h : Component table id v path final w) (hv : v.isZero) : w.isZero := by
  induction h with
  | here => exact hv
  | entry _ _ _ hentry _ ih =>
    rw [isZero, allZero_eq_all, List.all_eq_true] at hv
    exact ih (hv _ (List.mem_of_getElem? hentry))

end Value

/-! ## Parts of literals -/

/-- The element of a literal that has the key. -/
def Selector.element : Selector → Go.Expr → Go.Element
  | .item place, x => .place place x
  | .field place, x => .field (Go.fieldName place) x

namespace Go

/-- What the element holds, if it has the key. -/
def Element.at? : Selector → Element → Option Expr
  | .item i, .place index x => if i = index then some x else none
  | .field i, .field name x => if fieldName i = name then some x else none
  | _, _ => none

/-- All parts of a literal behind a path of keys. -/
def Expr.partsAt : Expr → List Selector → List Expr
  | x, [] => [x]
  | .composite _ elements, key :: path =>
    (elements.filterMap (Element.at? key)).flatMap fun x => x.partsAt path
  | _, _ :: _ => []

/-- The literal of a union that has the given bytes. -/
def Expr.rawUnion (t : Ty) (bytes : Bytes) : Expr :=
  .composite t [.field "U" (.composite (.bytes bytes.length)
    (bytes.map fun b => .next (.int b.toNat)))]

/-- The literal of a union tells its bytes. -/
theorem Expr.rawUnion_inj {t t' : Ty} {bytes bytes' : Bytes}
    (h : rawUnion t bytes = rawUnion t' bytes') :
    bytes = bytes' := by
  simp only [rawUnion, Expr.composite.injEq, List.cons.injEq, Element.field.injEq, and_true,
    true_and] at h
  refine List.map_injective_iff.2 (fun b b' heq => ?_) h.2.2
  simpa [UInt8.toNat_inj] using heq

/-- Fields at different places have different names. -/
theorem fieldName_injective : Function.Injective fieldName := by
  intro m n h
  have hdigits := congrArg String.toList h
  rw [fieldName, fieldName, String.toList_append, String.toList_append, List.append_cancel_left_eq,
    Ty.toList_toString, Ty.toList_toString] at hdigits
  rw [← Nat.ofDigitChars_ten_toDigits (n := m), hdigits, Nat.ofDigitChars_ten_toDigits]

/-- An element holds something just for its own key. -/
theorem at?_element (key key' : Selector) (x : Expr) :
    Element.at? key (key'.element x) = if key = key' then some x else none := by
  cases key <;> cases key' <;> simp [Selector.element, Element.at?, fieldName_injective.eq_iff]

end Go

/-! ## How literals are written -/

namespace Emit

open StackToGo.TypeText (Expands)

variable {env : Env} {s s' : State} {id : TypeId} {ty : Ty} {t : Go.Ty} {room place : Nat}
  {position : Position} {entries : List (Option Value)} {x : Go.Expr}

/-- The element for an entry that is not zero. -/
def entryElement (t : Go.Ty) (ty : Ty) (position : Position) (e : Nat × Value) : Emit Go.Element :=
  match ty.slot? e.1 with
  | none => breach (.manyInitializers (e.1 + 1) t)
  | some slot => slot.1.element <$> value slot.2 position e.2

/-- The element for an entry is steady. -/
theorem steady_entryElement (t : Go.Ty) (ty : Ty) (position : Position) (e : Nat × Value) :
    Steady (entryElement t ty position e) := by
  unfold entryElement
  split
  · exact steady_breach _
  · exact steady_map _ (steady_value _ _ _)

/-- The elements of an array are those for the entries that are not zero. -/
theorem arrayElements_eq (t : Go.Ty) {item : TypeId} {items : Nat}
    (h : place + entries.length ≤ items) :
    arrayElements item position place entries =
      (Value.nonzeroEntries place entries).mapM (entryElement t (.array item items) position) := by
  induction entries generalizing place with
  | nil => rw [arrayElements, Value.nonzeroEntries, List.mapM_nil]
  | cons entry rest ih =>
    rw [List.length_cons] at h
    have hrest := @ih (place + 1) (by omega)
    cases entry with
    | none => rw [arrayElements, Value.nonzeroEntries, hrest]
    | some v =>
      have hslot : (Ty.array item items).slot? place = some (.item place, item) :=
        if_pos (by omega)
      rw [arrayElements, Value.nonzeroEntries, hrest]
      split
      · rfl
      · simp only [List.mapM_cons, entryElement, hslot, Selector.element, bind_map_left]

/-- The elements of a struct are those for the entries that are not zero. -/
theorem structElements_eq (t : Go.Ty) {fields : List TypeId}
    (h : place + entries.length ≤ fields.length) :
    structElements position place (fields.drop place) entries =
      (Value.nonzeroEntries place entries).mapM (entryElement t (.struct fields) position) := by
  induction entries generalizing place with
  | nil => rw [structElements, Value.nonzeroEntries, List.mapM_nil]
  | cons entry rest ih =>
    rw [List.length_cons] at h
    have hrest := @ih (place + 1) (by omega)
    have hdrop : fields.drop place = fields[place] :: fields.drop (place + 1) :=
      List.drop_eq_getElem_cons (by omega)
    cases entry with
    | none => rw [structElements, Value.nonzeroEntries, List.tail_drop, hrest]
    | some v =>
      have hslot : (Ty.struct fields).slot? place = some (.field place, fields[place]) := by
        simp [Ty.slot?]
      rw [hdrop, structElements, Value.nonzeroEntries, hrest]
      split
      · rfl
      · simp only [List.mapM_cons, entryElement, hslot, Selector.element, bind_map_left]

/-- A literal with keys is written just if there is room for all entries. -/
theorem yields_keyed {m : Emit (List Go.Element)} {cause : Breach} : Yields env
    (if room < entries.length then breach cause else do return .composite t (← m)) s x s' ↔
      ∃ elements, entries.length ≤ room ∧ Yields env m s elements s' ∧
      .composite t elements = x := by
  constructor
  · intro h
    split at h
    · exact absurd h not_yields_breach
    · rename_i hroom
      obtain ⟨elements, s₁, helements, h⟩ := yields_bind.1 h
      obtain ⟨rfl, rfl⟩ := yields_pure.1 h
      exact ⟨elements, Nat.not_lt.1 hroom, helements, rfl⟩
  · rintro ⟨elements, hroom, helements, rfl⟩
    rw [if_neg (Nat.not_lt.2 hroom)]
    exact yields_bind.2 ⟨elements, s', helements, yields_pure.2 ⟨rfl, rfl⟩⟩

/-- Two ways to write an aggregate: with an element for each entry that is not zero, or as a
union. -/
theorem yields_value_composite : Yields env (value id position (.composite entries)) s x s' ↔
    ∃ t s₁ ty, Yields env (goType id) s t s₁ ∧ env.program.types.get id = .ok ty ∧
      ((∃ room elements, ty.room? = some room ∧ entries.length ≤ room ∧
        Yields env ((Value.nonzeroEntries 0 entries).mapM (entryElement t ty position))
          s₁ elements s' ∧
        .composite t elements = x) ∨
      ∃ members, ty = .union members ∧
      Yields env (unionLiteral id t members entries position) s₁ x s') := by
  rw [value]
  simp only [yields_bind, yields_types, yields_lift]
  constructor
  · rintro ⟨t, s₁, ht, _, _, ⟨rfl, rfl⟩, ty, _, ⟨hty, rfl⟩, h⟩
    refine ⟨t, s₁, ty, ht, hty, ?_⟩
    cases ty with
    | array item items =>
      obtain ⟨elements, hroom, helements, hx⟩ := yields_keyed.1 h
      rw [arrayElements_eq t ((Nat.zero_add _).trans_le hroom)] at helements
      exact .inl ⟨items, elements, rfl, hroom, helements, hx⟩
    | struct fields =>
      obtain ⟨elements, hroom, helements, hx⟩ := yields_keyed.1 h
      rw [← structElements_eq t ((Nat.zero_add _).trans_le hroom)]
      exact .inl ⟨fields.length, elements, rfl, hroom, helements, hx⟩
    | union members => exact .inr ⟨members, rfl, h⟩
    | _ => exact absurd h not_yields_unsupported
  · rintro ⟨t, s₁, ty, ht, hty, h⟩
    refine ⟨t, s₁, ht, _, _, ⟨rfl, rfl⟩, ty, _, ⟨hty, rfl⟩, ?_⟩
    obtain ⟨room, elements, hroom, hlength, helements, hx⟩ | ⟨members, rfl, h⟩ := h
    · cases ty with
      | array item items =>
        cases hroom
        rw [← arrayElements_eq t ((Nat.zero_add _).trans_le hlength)] at helements
        exact yields_keyed.2 ⟨elements, hlength, helements, hx⟩
      | struct fields =>
        cases hroom
        rw [← structElements_eq t ((Nat.zero_add _).trans_le hlength)] at helements
        exact yields_keyed.2 ⟨elements, hlength, helements, hx⟩
      | _ => cases hroom
    · exact h

/-- The first entry that is not zero. -/
theorem firstNonzero_eq_head? (place : Nat) (entries : List (Option Value)) :
    firstNonzero place entries = (Value.nonzeroEntries place entries).head? := by
  induction entries generalizing place with
  | nil => rfl
  | cons entry rest ih =>
    cases entry with
    | none => rw [firstNonzero, Value.nonzeroEntries, ih]
    | some v =>
      rw [firstNonzero, Value.nonzeroEntries, ih]
      split <;> rfl

/-! ## What literals hold -/

/-- The element has the key of the entry, and it holds what is written for the entry alone. -/
def ElementFor (env : Env) (ty : Ty) (position : Position) (e : Nat × Value)
    (element : Go.Element) : Prop :=
  ∃ key part x, ty.slot? e.1 = some (key, part) ∧ key.element x = element ∧
    Gives env (value part position e.2) x

section

variable {pairs : List (Nat × Value)} {elements : List Go.Element} {key : Selector}
  {part : TypeId} {v : Value}

/-- The elements have the keys of the entries, and hold what is written for each alone. -/
theorem forall₂_elementFor (hs : Reached env s)
    (h : Yields env (pairs.mapM (entryElement t ty position)) s elements s') :
    List.Forall₂ (ElementFor env ty position) pairs elements := by
  refine (forall₂_of_mapM (steady_entryElement t ty position) hs h).imp fun e element hgives => ?_
  obtain ⟨s₁, s₂, hs₁, h⟩ := hgives
  unfold entryElement at h
  split at h
  · exact absurd h not_yields_breach
  · rename_i slot hslot
    obtain ⟨x, hx, rfl⟩ := yields_map.1 h
    exact ⟨slot.1, slot.2, x, hslot, rfl, s₁, s₂, hs₁, hx⟩

/-- For a place without an entry there is no element. -/
theorem filterMap_at?_of_forall_ne (h : List.Forall₂ (ElementFor env ty position) pairs elements)
    (hslot : ty.slot? place = some (key, part)) (hne : ∀ e ∈ pairs, place ≠ e.1) :
    elements.filterMap (Go.Element.at? key) = [] := by
  induction h with
  | nil => rfl
  | cons helement _ ih =>
    obtain ⟨key', part', x, hslot', rfl, -⟩ := helement
    obtain ⟨hfirst, hrest⟩ := List.forall_mem_cons.1 hne
    have hkey : key ≠ key' := by
      rintro rfl
      exact hfirst (Ty.place_eq_of_slot? hslot hslot')
    rw [List.filterMap_cons, Go.at?_element, if_neg hkey]
    exact ih hrest

/-- For a place with an entry there is exactly one element. -/
theorem filterMap_at?_of_mem (h : List.Forall₂ (ElementFor env ty position) pairs elements)
    (hpairs : pairs.Pairwise fun e e' => e.1 ≠ e'.1) (hslot : ty.slot? place = some (key, part))
    (hmem : (place, v) ∈ pairs) :
    ∃ x, elements.filterMap (Go.Element.at? key) = [x] ∧ Gives env (value part position v) x := by
  induction h with
  | nil => cases hmem
  | cons helement hrest ih =>
    obtain ⟨hfirst, hpairs⟩ := List.pairwise_cons.1 hpairs
    obtain ⟨key', part', x, hslot', rfl, hx⟩ := helement
    obtain rfl | hmem := List.mem_cons.1 hmem
    · obtain ⟨rfl, rfl⟩ := Prod.mk.inj (Option.some.inj (hslot.symm.trans hslot'))
      rw [List.filterMap_cons, Go.at?_element, if_pos rfl]
      exact ⟨x, by simp [filterMap_at?_of_forall_ne hrest hslot hfirst], hx⟩
    · have hkey : key ≠ key' := by
        rintro rfl
        exact hfirst _ hmem (Ty.place_eq_of_slot? hslot' hslot)
      rw [List.filterMap_cons, Go.at?_element, if_neg hkey]
      exact ih hpairs hmem

end

/-- The expression stands for the value. An array or a struct is a literal with an element for each
entry that is not zero, in their order. A union is a literal of as many bytes as it has, which
begin with the first entry that is not zero and hold nothing else. -/
inductive Represents (env : Env) (position : Position) (id : TypeId) : Value → Go.Expr → Prop
  | single {v : Value} {x : Go.Expr} (hv : ∀ entries, v ≠ .composite entries)
      (hx : Gives env (value id position v) x) :
      Represents env position id v x
  | keyed {ty : Ty} {room : Nat} {entries : List (Option Value)} {t : Go.Ty}
      {elements : List Go.Element} (hty : env.program.types.get id = .ok ty)
      (hroom : ty.room? = some room) (hlength : entries.length ≤ room)
      (ht : Expands env.program.types env.target id t)
      (helements : List.Forall₂ (ElementFor env ty position)
        (Value.nonzeroEntries 0 entries) elements) :
      Represents env position id (.composite entries) (.composite t elements)
  | union {members : List TypeId} {entries : List (Option Value)} {t : Go.Ty} {place width : Nat}
      {v : Value} {member : TypeId} {bytes : Bytes}
      (hty : env.program.types.get id = .ok (.union members))
      (ht : Expands env.program.types env.target id t)
      (hfirst : (Value.nonzeroEntries 0 entries).head? = some (place, v))
      (hmember : members[place]? = some member)
      (hsize : env.program.types.sizeOf env.target id = .ok bytes.length)
      (hbegins : BeginsWith env member v bytes width) (hrest : ∀ b ∈ bytes.drop width, b = 0) :
      Represents env position id (.composite entries) (.rawUnion t bytes)
  | zero {members : List TypeId} {entries : List (Option Value)} {t : Go.Ty}
      (hty : env.program.types.get id = .ok (.union members))
      (ht : Expands env.program.types env.target id t)
      (hentries : Value.nonzeroEntries 0 entries = []) :
      Represents env position id (.composite entries) (.composite t [])

/-- The literal of a union represents its entries. -/
theorem represents_of_unionLiteral {members : List TypeId} (hs : Reached env s)
    (hty : env.program.types.get id = .ok (.union members))
    (ht : Expands env.program.types env.target id t)
    (h : Yields env (unionLiteral id t members entries position) s x s') :
    Represents env position id (.composite entries) x := by
  rw [unionLiteral, firstNonzero_eq_head?] at h
  split at h
  · rename_i hhead
    obtain ⟨rfl, -⟩ := yields_pure.1 h
    exact .zero hty ht (List.head?_eq_none_iff.1 hhead)
  · rename_i place v hhead
    split at h
    · exact absurd h not_yields_breach
    · rename_i member hmember
      obtain ⟨size, s₁, hsize, h⟩ := yields_bind.1 h
      obtain ⟨bytes, s₂, hbytes, h⟩ := yields_bind.1 h
      obtain ⟨rfl, -⟩ := yields_pure.1 h
      have hs₁ : Reached env s₁ := hs.evolves ((steady_sizeOf id).evolves hsize)
      obtain ⟨width, hbegins, rfl, hrest⟩ := beginsWith_of_yields hs₁.faithful hbytes
      refine .union hty ht hhead hmember (hs.faithful.yields_sizeOf.1 ⟨s₁, hsize⟩) hbegins ?_
      rw [hrest]
      exact fun b hb => List.eq_of_mem_replicate hb

/-- What is written for a value stands for it. -/
theorem represents_of_gives {v : Value} (h : Gives env (value id position v) x) :
    Represents env position id v x := by
  cases v with
  | composite entries =>
    obtain ⟨s, s', hs, h⟩ := h
    obtain ⟨t, s₁, ty, ht, hty, h⟩ := yields_value_composite.1 h
    have hs₁ : Reached env s₁ := hs.evolves ((steady_goType id).evolves ht)
    have hexpands := hs.faithful.yields_goType.1 ⟨s₁, ht⟩
    obtain ⟨room, elements, hroom, hlength, helements, rfl⟩ | ⟨members, rfl, h⟩ := h
    · exact .keyed hty hroom hlength hexpands (forall₂_elementFor hs₁ helements)
    · exact represents_of_unionLiteral hs₁ hty hexpands h
  | _ => exact .single (by rintro entries ⟨⟩) h

/-- A literal that represents entries has elements for those that are not zero, under their
keys. -/
theorem Represents.exists_elements {key : Selector} {part : TypeId}
    (h : Represents env position id (.composite entries) x)
    (hty : env.program.types.get id = .ok ty) (hslot : ty.slot? place = some (key, part)) :
    ∃ t elements, x = .composite t elements ∧
      List.Forall₂ (ElementFor env ty position) (Value.nonzeroEntries 0 entries) elements := by
  cases h with
  | single hv => exact absurd rfl (hv entries)
  | keyed hty' _ _ _ helements =>
    obtain rfl := Except.ok.inj (hty.symm.trans hty')
    exact ⟨_, _, rfl, helements⟩
  | union hty' | zero hty' =>
    obtain rfl := Except.ok.inj (hty.symm.trans hty')
    cases hslot

/-- Behind each path, a component that is not zero has one part, and a component that is zero has
none. -/
theorem partsAt_of_component {v w : Value} {path : List Selector} {final : TypeId}
    (h : Component env.program.types id v path final w) (hx : Gives env (value id position v) x) :
    (path = [] ∨ w.isZero = false → ∃ y, x.partsAt path = [y] ∧
      Represents env position final w y) ∧
      (path ≠ [] → w.isZero → x.partsAt path = []) := by
  induction h generalizing x with
  | here =>
    exact ⟨fun _ => ⟨x, by rw [Go.Expr.partsAt], represents_of_gives hx⟩,
      fun hpath => absurd rfl hpath⟩
  | @entry place id part final ty key entries v w path hty hslot hentry h ih =>
    obtain ⟨t, elements, rfl, helements⟩ := (represents_of_gives hx).exists_elements hty hslot
    cases hv : v.isZero with
    | true =>
      -- The entry has no element, so there is nothing behind longer paths either; and all its
      -- components are zero.
      have hne (e : Nat × Value) (he : e ∈ Value.nonzeroEntries 0 entries) : place ≠ e.1 := by
        rintro rfl
        obtain ⟨hentry', hzero⟩ := Value.mem_nonzeroEntries.1 he
        obtain rfl : v = e.2 := Option.some.inj (Option.some.inj (hentry.symm.trans hentry'))
        rw [hv] at hzero
        cases hzero
      have hw := Value.isZero_of_component h hv
      have hparts : (Go.Expr.composite t elements).partsAt (key :: path) = [] := by
        rw [Go.Expr.partsAt, filterMap_at?_of_forall_ne helements hslot hne, List.flatMap_nil]
      simp [hw, hparts]
    | false =>
      have hmem : (place, v) ∈ Value.nonzeroEntries 0 entries :=
        Value.mem_nonzeroEntries.2 ⟨hentry, hv⟩
      -- The path goes on in the only element with the key, which was written for the entry alone.
      obtain ⟨y, hy, hgives⟩ :=
        filterMap_at?_of_mem helements (Value.pairwise_nonzeroEntries 0 entries) hslot hmem
      obtain ⟨hnonzero, hzero⟩ := ih hgives
      rw [Go.Expr.partsAt, hy, List.flatMap_singleton]
      refine ⟨fun hw => hnonzero ?_, fun _ hw => hzero ?_ hw⟩
      · exact .inr (hw.resolve_left (List.cons_ne_nil key path))
      · rintro rfl
        cases h
        rw [hv] at hw
        cases hw

/-! ## Which values are accepted -/

/-- Something is written for the value in every state of emission. -/
def Accepts (env : Env) (position : Position) (id : TypeId) (v : Value) : Prop :=
  ∀ s, Reached env s → ∃ x s', Yields env (value id position v) s x s'

/-- The entries make up an initial value of the type: there is room for them, and those that are
not zero are accepted; of a union, the first of these has to have a pattern for its member. -/
inductive Initializes (env : Env) (position : Position) (id : TypeId)
    (entries : List (Option Value)) :
    Prop
  | keyed {ty : Ty} {room : Nat} (hty : env.program.types.get id = .ok ty)
      (hroom : ty.room? = some room) (hlength : entries.length ≤ room)
      (hentries : ∀ place key part v, ty.slot? place = some (key, part) →
        entries[place]? = some (some v) →
        v.isZero = false → Accepts env position part v)
  | union {members : List TypeId} {size : Nat}
      (hty : env.program.types.get id = .ok (.union members))
        (hsize : env.program.types.sizeOf env.target id = .ok size)
          (hfirst : ∀ e ∈ (Value.nonzeroEntries 0 entries).head?, ∃ member k width pattern,
            members[e.1]? = some member ∧
        env.program.types.kind member = .ok k ∧
        env.program.types.sizeOf env.target member = .ok width ∧
        MemberPattern width k e.2 pattern ∧ width ≤ 8 ∧ width ≤ size)

/-- Steps for all of a list give results if each of them does. -/
theorem exists_yields_mapM {α β : Type} {m : α → Emit β} {list : List α} (hs : Reached env s)
    (hm : ∀ a, Steady (m a))
    (h : ∀ a ∈ list, ∀ s, Reached env s → ∃ b s', Yields env (m a) s b s') :
    ∃ results s', Yields env (list.mapM m) s results s' := by
  induction list generalizing s with
  | nil => exact ⟨[], s, by rw [List.mapM_nil, yields_pure]; exact ⟨rfl, rfl⟩⟩
  | cons a rest ih =>
    obtain ⟨hfirst, hrest⟩ := List.forall_mem_cons.1 h
    obtain ⟨b, s₁, hb⟩ := hfirst s hs
    obtain ⟨results, s₂, hresults⟩ := ih (hs.evolves ((hm a).evolves hb)) hrest
    refine ⟨b :: results, s₂, ?_⟩
    rw [List.mapM_cons]
    exact yields_bind.2 ⟨b, s₁, hb, yields_bind.2
      ⟨results, s₂, hresults, yields_pure.2 ⟨rfl, rfl⟩⟩⟩

/-- The elements of all entries that are accepted are written. -/
theorem exists_yields_entryElement (t : Go.Ty) (hroom : ty.room? = some room)
    (hlength : entries.length ≤ room)
    (hentries : ∀ place key part v, ty.slot? place = some (key, part) →
      entries[place]? = some (some v) → v.isZero = false → Accepts env position part v)
    {e : Nat × Value} (he : e ∈ Value.nonzeroEntries 0 entries) (hs : Reached env s) :
    ∃ element s', Yields env (entryElement t ty position e) s element s' := by
  obtain ⟨hentry, hzero⟩ := Value.mem_nonzeroEntries.1 he
  have hplace : e.1 < entries.length := (List.getElem?_eq_some_iff.1 hentry).1
  obtain ⟨key, part, hslot⟩ := Ty.exists_slot? hroom (hplace.trans_le hlength)
  obtain ⟨x, s', hx⟩ := hentries e.1 key part e.2 hslot hentry hzero s hs
  refine ⟨key.element x, s', ?_⟩
  simp only [entryElement, hslot]
  exact yields_map.2 ⟨x, hx, rfl⟩

/-- The literal of a union is written if its first entry that is not zero can be. -/
theorem exists_yields_unionLiteral {members : List TypeId} {size : Nat} (hs : Faithful env s)
    (hsize : env.program.types.sizeOf env.target id = .ok size)
    (hfirst : ∀ e ∈ (Value.nonzeroEntries 0 entries).head?, ∃ member k width pattern,
      members[e.1]? = some member ∧ env.program.types.kind member = .ok k ∧
      env.program.types.sizeOf env.target member = .ok width ∧ MemberPattern width k e.2 pattern ∧
      width ≤ 8 ∧ width ≤ size) :
    ∃ x s', Yields env (unionLiteral id t members entries position) s x s' := by
  simp only [unionLiteral, firstNonzero_eq_head?]
  cases hhead : (Value.nonzeroEntries 0 entries).head? with
  | none => exact ⟨_, s, yields_pure.2 ⟨rfl, rfl⟩⟩
  | some e =>
    obtain ⟨member, k, width, pattern, hmember, haccepted⟩ := hfirst e hhead
    obtain ⟨s₁, hyields⟩ := hs.yields_sizeOf.2 hsize
    have hs₁ : Faithful env s₁ := hs.evolves ((steady_sizeOf id).evolves hyields)
    obtain ⟨bytes, s₂, hbytes⟩ := (exists_yields_unionValue hs₁).2 ⟨k, width, pattern, haccepted⟩
    simp only [hmember]
    exact ⟨_, s₂, yields_bind.2 ⟨size, s₁, hyields,
      yields_bind.2 ⟨bytes, s₂, hbytes, yields_pure.2 ⟨rfl, rfl⟩⟩⟩⟩

/-- Entries that make up an initial value are accepted. -/
theorem accepts_of_initializes (ht : Expands env.program.types env.target id t)
    (h : Initializes env position id entries) : Accepts env position id (.composite entries) := by
  intro s hs
  obtain ⟨s₁, hyields⟩ := hs.faithful.yields_goType.2 ht
  have hs₁ : Reached env s₁ := hs.evolves ((steady_goType id).evolves hyields)
  cases h with
  | @keyed ty room hty hroom hlength hentries =>
    obtain ⟨elements, s', helements⟩ := exists_yields_mapM hs₁ (steady_entryElement t ty position)
      fun e he s hs => exists_yields_entryElement t hroom hlength hentries he hs
    exact ⟨_, s', yields_value_composite.2 ⟨t, s₁, ty, hyields, hty,
      .inl ⟨room, elements, hroom, hlength, helements, rfl⟩⟩⟩
  | @union members size hty hsize hfirst =>
    obtain ⟨x, s', h⟩ := exists_yields_unionLiteral hs₁.faithful hsize hfirst
    exact ⟨x, s', yields_value_composite.2 ⟨t, s₁, _, hyields, hty, .inr ⟨members, rfl, h⟩⟩⟩

/-- Literals of aggregates are complete, but for unions with several entries. Whatever the nesting,
each component that is not zero has exactly one part in the literal, under its own keys: what is
written for it alone if it is no aggregate, a literal with an element for each of its entries that
are not zero if it is an array or a struct, and the bytes of its first entry that is not zero if it
is a union. A component that is zero has no part. The entries are accepted if there is room for
them and each of them that is not zero is accepted. -/
theorem aggregate_literal_complete (env : Env) (position : Position) (id : TypeId)
    (entries : List (Option Value)) :
    (∀ s x s', Reached env s → Yields env (value id position (.composite entries)) s x s' →
      ∀ path final w, Component env.program.types id (.composite entries) path final w →
        (path = [] ∨ w.isZero = false → ∃ y, x.partsAt path = [y] ∧
          Represents env position final w y) ∧
        (path ≠ [] → w.isZero → x.partsAt path = [])) ∧
    ∀ t, Expands env.program.types env.target id t → Initializes env position id entries →
      Accepts env position id (.composite entries) := by
  constructor
  · intro s x s' hs h path final w hcomponent
    exact partsAt_of_component hcomponent ⟨s, s', hs, h⟩
  · intro t ht h
    exact accepts_of_initializes ht h

/-- The entries of a struct: a number that is zero, and an array whose second item is a union with
a value for its long member. -/
def nestedUnion : List (Option Value) :=
  [some (.int32 0), some (.composite [none, some (.composite [none, none, some (.int64 5)])])]

/-- The number is left out, and the union is the only part behind its path. -/
theorem nestedUnion_complete :
    Accepts (taggedUnions false) .unknown ⟨14⟩ (.composite [none, none, some (.int64 5)]) ∧
      ∃ x s t bytes,
      Yields (taggedUnions false) (value ⟨16⟩ .unknown (.composite nestedUnion))
        (.start ⟨8, false⟩) x s ∧
      x.partsAt [.field 0] = [] ∧ x.partsAt [.field 1, .item 1] = [.rawUnion t bytes] ∧
      readBytes false (bytes.take 8) = 5 := by
  constructor
  · obtain ⟨t, s, ht⟩ : ∃ t s, Yields (taggedUnions false) (goType ⟨14⟩) (.start ⟨8, false⟩) t s :=
      ⟨_, _, rfl⟩
    have hexpands := (faithful_start (taggedUnions false)).yields_goType.1 ⟨s, ht⟩
    refine (aggregate_literal_complete _ _ ⟨14⟩ _).2 t hexpands (.union rfl rfl ?_)
    rintro e ⟨⟩
    exact ⟨TypeTable.uint64, .scalar .uint64, 8, _, rfl, rfl, rfl, .integer rfl rfl, Nat.le_refl 8,
      Nat.le_refl 8⟩
  · obtain ⟨x, s, hyields⟩ :
        ∃ x s, Yields (taggedUnions false) (value ⟨16⟩ .unknown (.composite nestedUnion))
      (.start ⟨8, false⟩) x s := ⟨_, _, rfl⟩
    have hparts := (aggregate_literal_complete _ _ _ _).1 _ _ _ (.refl _) hyields
    have hzero :=
      (hparts [.field 0] TypeTable.int32 (.int32 0) (.entry 0 rfl rfl rfl (.here _ _))).2
        (by simp) rfl
    obtain ⟨y, hy, hrepresents⟩ :=
      (hparts [.field 1, .item 1] ⟨14⟩ (.composite [none, none, some (.int64 5)])
      (.entry 1 rfl rfl rfl (.entry 1 rfl rfl rfl (.here _ _)))).1 (.inr rfl)
    cases hrepresents with
    | single hv => exact absurd rfl (hv _)
    | keyed hty hroom =>
      cases hty
      cases hroom
    | zero _ _ hentries => cases hentries
    | union hty _ hfirst hmember _ hbegins =>
      cases hty
      cases hfirst
      cases hmember
      exact ⟨x, s, _, _, hyields, hzero, hy, hbegins.readBytes_integer rfl rfl rfl rfl⟩

/-- Of two entries of a union, the second is not written. So not every entry that is not zero is in
the literal. -/
theorem union_entry_may_be_lost :
    ¬∀ (env : Env) (s s' : State) (id : TypeId) (members : List TypeId)
      (entries : List (Option Value)) (position : Position) (x : Go.Expr), Reached env s →
        env.program.types.get id = .ok (.union members) →
        Yields env (value id position (.composite entries)) s x s' →
        ∀ (place : Nat) (v : Value), entries[place]? = some (some v) → v.isZero = false →
          ∃ t bytes member width,
          x = .rawUnion t bytes ∧ members[place]? = some member ∧
          BeginsWith env member v bytes width := by
  intro h
  obtain ⟨x, s, hyields⟩ : ∃ x s, Yields (taggedUnions false)
    (value ⟨14⟩ .unknown (.composite [some (.int32 1), some (.int32 2)]))
    (.start ⟨8, false⟩) x s := ⟨_, _, rfl⟩
  have hwritten :=
    h _ _ _ _ [TypeTable.int32, TypeTable.uint32, TypeTable.uint64] _ _ _ (.refl _) rfl hyields
  obtain ⟨t, bytes, member, width, hx, hmember, hbegins⟩ := hwritten 0 (.int32 1) rfl rfl
  obtain ⟨t', bytes', member', width', hx', hmember', hbegins'⟩ := hwritten 1 (.int32 2) rfl rfl
  obtain rfl := Go.Expr.rawUnion_inj (hx.symm.trans hx')
  cases hmember
  cases hmember'
  have hread : readBytes false (bytes.take 4) = 1 := hbegins.readBytes_integer rfl rfl rfl rfl
  have hread' : readBytes false (bytes.take 4) = 2 := hbegins'.readBytes_integer rfl rfl rfl rfl
  omega

end Emit
end StackToGo
