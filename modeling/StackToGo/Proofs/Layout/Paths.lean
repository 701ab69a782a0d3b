import StackToGo.Proofs.Layout.Placement

/-!
# Where the parts of an object lie

An object of a struct, union or array type has parts, which have parts in turn. A path of selectors
leads from an object to such a part (`TypeTable.partAt?`), and the layouts of the types on the way
tell where it begins (`TypeTable.offsetAt?`). Along a path the part lies inside the object and is
aligned as its type asks for, since one step into an object does so; and parts at which two paths
differ do not overlap.
-/

namespace StackToGo

/-- A way from an object to one of its parts. -/
inductive Selector where
  | field (index : Nat)
  | item (index : Nat)
  deriving DecidableEq, Repr

/-- The type of the part that is selected, if there is one. -/
def Ty.part? : Ty → Selector → Option TypeId
  | .struct fields, .field index => fields[index]?
  | .union members, .field index => members[index]?
  | .array item items, .item index => if index < items then some item else none
  | _, _ => none

/-- Where in the object the selected part begins. -/
def Ty.start? (table : TypeTable) (target : Target) : Ty → Selector → Option Nat
  | .struct fields, .field index =>
    do (← (table.structLayout target fields).toOption).offsets[index]?
  | .union _, .field _ => some 0
  | .array item _, .item index => do return index * (← (table.sizeOf target item).toOption)
  | _, _ => none

namespace TypeTable

variable {table : TypeTable} {target : Target} {id : TypeId}

/-- The type at the end of a path. -/
def partAt? (table : TypeTable) (id : TypeId) : List Selector → Option TypeId
  | [] => some id
  | selector :: path => do
    let ty ← (table.get id).toOption
    table.partAt? (← ty.part? selector) path

/-- Where in an object of the type `id` the part at the end of a path begins. -/
def offsetAt? (table : TypeTable) (target : Target) (id : TypeId) : List Selector → Option Nat
  | [] => some 0
  | selector :: path => do
    let ty ← (table.get id).toOption
    let start ← ty.start? table target selector
    return start + (← table.offsetAt? target (← ty.part? selector) path)

/-- A path leads to the selected part, and from there along the rest. -/
theorem partAt?_cons_eq_some_iff {selector : Selector} {path : List Selector} {part : TypeId} :
    table.partAt? id (selector :: path) = some part ↔
      ∃ ty x, table.get id = .ok ty ∧ ty.part? selector = some x ∧
      table.partAt? x path = some part := by
  rw [partAt?]
  cases table.get id <;> simp [Except.toOption, Option.bind_eq_some_iff]

/-- The offset of a path is the start of the selected part and the offset in it. -/
theorem offsetAt?_cons_eq_some_iff {ty : Ty} {x : TypeId} {selector : Selector}
    {path : List Selector} {offset : Nat} (hty : table.get id = .ok ty)
    (hx : ty.part? selector = some x) :
    table.offsetAt? target id (selector :: path) = some offset ↔
      ∃ start inner, ty.start? table target selector = some start ∧
        table.offsetAt? target x path = some inner ∧
        start + inner = offset := by
  simp [offsetAt?, hty, hx, Except.toOption, Option.bind_eq_some_iff]

/-- A path leads to the bytes from `offset` on, `size` in number. -/
def Occupies (table : TypeTable) (target : Target) (id : TypeId) (path : List Selector)
    (offset size : Nat) : Prop :=
  ∃ part, table.partAt? id path = some part ∧ table.offsetAt? target id path = some offset ∧
    table.sizeOf target part = .ok size

/-- A path occupies what the rest of it occupies in the selected part. -/
theorem occupies_cons_iff {selector : Selector} {path : List Selector} {offset size : Nat} :
    table.Occupies target id (selector :: path) offset size ↔
      ∃ ty x start inner, table.get id = .ok ty ∧ ty.part? selector = some x ∧
        ty.start? table target selector = some start ∧ table.Occupies target x path inner size ∧
        start + inner = offset := by
  constructor
  · rintro ⟨part, hpart, hoffset, hsize⟩
    obtain ⟨ty, x, hty, hx, hrest⟩ := partAt?_cons_eq_some_iff.1 hpart
    obtain ⟨start, inner, hstart, hinner, hsum⟩ := (offsetAt?_cons_eq_some_iff hty hx).1 hoffset
    exact ⟨ty, x, start, inner, hty, hx, hstart, ⟨part, hrest, hinner, hsize⟩, hsum⟩
  · rintro ⟨ty, x, start, inner, hty, hx, hstart, ⟨part, hrest, hinner, hsize⟩, hsum⟩
    refine ⟨part, partAt?_cons_eq_some_iff.2 ⟨ty, x, hty, hx, hrest⟩, ?_, hsize⟩
    exact (offsetAt?_cons_eq_some_iff hty hx).2 ⟨start, inner, hstart, hinner, hsum⟩

end TypeTable

namespace Ty

variable {table : TypeTable} {target : Target} {fields members : List TypeId} {item x : TypeId}
  {items index : Nat} {selector : Selector}

/-- The parts of a struct are its fields. -/
theorem part?_struct_eq_some_iff :
    (Ty.struct fields).part? selector = some x ↔
    ∃ index, selector = .field index ∧ fields[index]? = some x := by
  cases selector <;> simp [part?]

/-- The parts of a union are its members. -/
theorem part?_union_eq_some_iff :
    (Ty.union members).part? selector = some x ↔
    ∃ index, selector = .field index ∧ members[index]? = some x := by
  cases selector <;> simp [part?]

/-- The parts of an array are its items. -/
theorem part?_array_eq_some_iff :
    (Ty.array item items).part? selector = some x ↔
    ∃ index, selector = .item index ∧ index < items ∧ item = x := by
  cases selector <;> simp [part?]

/-- A field begins at its offset in the layout. -/
theorem start?_struct {layout : StructLayout} (h : table.structLayout target fields = .ok layout) :
    (Ty.struct fields).start? table target (.field index) = layout.offsets[index]? := by
  rw [start?, h]
  rfl

/-- An item begins behind those in front of it. -/
theorem start?_array {s : Nat} (h : table.sizeOf target item = .ok s) :
    (Ty.array item items).start? table target (.item index) = some (index * s) := by
  rw [start?, h]
  rfl

/-- What is selected lies in the type by value. -/
theorem mem_parts_of_part? {ty : Ty} (h : ty.part? selector = some x) : x ∈ ty.parts := by
  cases ty with
  | scalar => cases h
  | pointer => cases h
  | function => cases h
  | struct fields =>
    obtain ⟨index, -, hx⟩ := part?_struct_eq_some_iff.1 h
    exact List.mem_of_getElem? hx
  | union members =>
    obtain ⟨index, -, hx⟩ := part?_union_eq_some_iff.1 h
    exact List.mem_of_getElem? hx
  | array item items =>
    obtain ⟨index, -, -, rfl⟩ := part?_array_eq_some_iff.1 h
    exact List.mem_singleton_self _

end Ty

/-! ## One step -/

section

variable {table : TypeTable} {target : Target} {id : TypeId} {ty : Ty} {size align : Nat}

/-- A part of an object lies inside it, at a multiple of its alignment. -/
theorem LaidOut.exists_start {selector : Selector} {x : TypeId} {s a : Nat}
    (h : LaidOut table target id size align) (hty : table.get id = .ok ty)
    (hpart : ty.part? selector = some x) (hx : LaidOut table target x s a) :
    ∃ start, ty.start? table target selector = some start ∧ a ∣ start ∧ start + s ≤ size := by
  have harranged := h.arranged ty hty
  cases ty with
  | scalar => cases hpart
  | pointer => cases hpart
  | function => cases hpart
  | struct fields =>
    obtain ⟨layout, stop, hlayout, -, -, hpacked, hleast⟩ := harranged
    obtain ⟨index, rfl, hfield⟩ := Ty.part?_struct_eq_some_iff.1 hpart
    have hextent : (fields.map (table.extent target))[index]? = some (table.extent target x) :=
      by simp [hfield]
    obtain ⟨start, a', s', hstart, ha', hs', hdvd, hstop⟩ := hpacked.exists_offset hextent
    cases hx.align_eq.symm.trans ha'
    cases hx.size_eq.symm.trans hs'
    exact ⟨start, (Ty.start?_struct hlayout).trans hstart, hdvd, Nat.le_trans hstop hleast.1.2⟩
  | union members =>
    obtain ⟨index, rfl, hmember⟩ := Ty.part?_union_eq_some_iff.1 hpart
    obtain ⟨s', hs', hle⟩ := harranged.1.2 x (List.mem_of_getElem? hmember)
    cases hx.size_eq.symm.trans hs'
    exact ⟨0, rfl, Nat.dvd_zero a, by omega⟩
  | array item items =>
    obtain ⟨index, rfl, hindex, rfl⟩ := Ty.part?_array_eq_some_iff.1 hpart
    obtain ⟨s', hs', rfl⟩ := harranged
    cases hx.size_eq.symm.trans hs'
    refine ⟨index * s, Ty.start?_array hs', Nat.dvd_mul_left_of_dvd hx.dvd index, ?_⟩
    rw [← Nat.succ_mul, Nat.mul_comm]
    exact Nat.mul_le_mul_left s hindex

/-- Different parts of a struct or an array do not overlap. -/
theorem LaidOut.disjoint_starts {selector selector' : Selector} {x x' : TypeId}
    {s s' start start' : Nat} (h : LaidOut table target id size align)
    (hty : table.get id = .ok ty) (hunion : ∀ members, ty ≠ .union members)
    (hne : selector ≠ selector') (hpart : ty.part? selector = some x)
    (hpart' : ty.part? selector' = some x') (hs : table.sizeOf target x = .ok s)
    (hs' : table.sizeOf target x' = .ok s') (hstart : ty.start? table target selector = some start)
    (hstart' : ty.start? table target selector' = some start') :
    start + s ≤ start' ∨ start' + s' ≤ start := by
  have harranged := h.arranged ty hty
  cases ty with
  | scalar => cases hpart
  | pointer => cases hpart
  | function => cases hpart
  | union members => exact absurd rfl (hunion members)
  | struct fields =>
    obtain ⟨layout, stop, hlayout, -, -, hpacked, -⟩ := harranged
    obtain ⟨i, rfl, hfield⟩ := Ty.part?_struct_eq_some_iff.1 hpart
    obtain ⟨j, rfl, hfield'⟩ := Ty.part?_struct_eq_some_iff.1 hpart'
    rw [Ty.start?_struct hlayout] at hstart hstart'
    have hi : (fields.map (table.extent target))[i]? = some (table.extent target x) :=
      by simp [hfield]
    have hj : (fields.map (table.extent target))[j]? = some (table.extent target x') :=
      by simp [hfield']
    rcases Nat.lt_or_gt_of_ne (fun hij => hne (congrArg Selector.field hij)) with hij | hij
    · exact .inl (hpacked.ordered hij hi hs hstart hstart')
    · exact .inr (hpacked.ordered hij hj hs' hstart' hstart)
  | array item items =>
    obtain ⟨i, rfl, -, rfl⟩ := Ty.part?_array_eq_some_iff.1 hpart
    obtain ⟨j, rfl, -, rfl⟩ := Ty.part?_array_eq_some_iff.1 hpart'
    cases hs.symm.trans hs'
    rw [Ty.start?_array hs] at hstart hstart'
    cases hstart
    cases hstart'
    rw [← Nat.succ_mul, ← Nat.succ_mul]
    rcases Nat.lt_or_gt_of_ne (fun hij => hne (congrArg Selector.item hij)) with hij | hij
    · exact .inl (Nat.mul_le_mul_right s hij)
    · exact .inr (Nat.mul_le_mul_right s hij)

/-! ## Paths -/

section

variable (hclosed : table.Closed) (hpointer : target.pointerSize.isPowerOfTwo)
include hclosed hpointer

/-- The part at the end of a path lies inside the object, at a multiple of its alignment. -/
theorem LaidOut.exists_offsetAt (hid : Sizeable table target id)
    (h : LaidOut table target id size align) {path : List Selector} {part : TypeId}
    (hpath : table.partAt? id path = some part) :
    ∃ offset s a, table.offsetAt? target id path = some offset ∧
      LaidOut table target part s a ∧ a ∣ align ∧
      a ∣ offset ∧ offset + s ≤ size := by
  induction path generalizing id size align with
  | nil =>
    cases hpath
    exact ⟨0, size, align, rfl, h, Nat.dvd_refl _, Nat.dvd_zero _, by omega⟩
  | cons selector path ih =>
    obtain ⟨ty, x, hty, hx, hrest⟩ := TypeTable.partAt?_cons_eq_some_iff.1 hpath
    have hembeds : table.Embeds id x := ⟨ty, hty, Ty.mem_parts_of_part? hx⟩
    have hsizeable := hid.step hclosed hembeds
    obtain ⟨s', a', hlaid⟩ := hsizeable.exists_laidOut hclosed hpointer
    obtain ⟨start, hstart, hdvd, hle⟩ := h.exists_start hty hx hlaid
    obtain ⟨offset, s, a, hoffset, hpart, ha', hmultiple, hinside⟩ := ih hsizeable hlaid hrest
    have hwhole :=
      (TypeTable.offsetAt?_cons_eq_some_iff hty hx).2 ⟨start, offset, hstart, hoffset, rfl⟩
    -- The alignment of the inner part divides that of the outer one, and so where that begins.
    refine ⟨start + offset, s, a, hwhole, hpart, ?_, ?_, by omega⟩
    · exact Nat.dvd_trans ha' (h.parts x hembeds a' hlaid.align_eq)
    · exact Nat.dvd_add (Nat.dvd_trans ha' hdvd) hmultiple

/-- Whatever a path occupies lies inside of the object. -/
theorem LaidOut.occupies_le (hid : Sizeable table target id)
    (h : LaidOut table target id size align) {path : List Selector} {offset s : Nat}
    (hpath : table.Occupies target id path offset s) : offset + s ≤ size := by
  obtain ⟨part, hpart, hoffset, hs⟩ := hpath
  obtain ⟨offset', s', a, hoffset', hlaid, -, -, hle⟩ :=
    h.exists_offsetAt hclosed hpointer hid hpart
  cases hoffset.symm.trans hoffset'
  cases hs.symm.trans hlaid.size_eq
  exact hle

/-- Where two paths part in a struct or an array, they lead to bytes apart from each other. -/
theorem Sizeable.occupies_disjoint (h : Sizeable table target id) {path rest rest' : List Selector}
    {selector selector' : Selector} {whole : TypeId} {o s o' s' : Nat}
    (hwhole : table.partAt? id path = some whole)
    (hunion : ∀ members, table.get whole ≠ .ok (.union members)) (hne : selector ≠ selector')
    (hpath : table.Occupies target id (path ++ selector :: rest) o s)
    (hpath' : table.Occupies target id (path ++ selector' :: rest') o' s') :
    o + s ≤ o' ∨ o' + s' ≤ o := by
  induction path generalizing id o o' with
  | nil =>
    cases hwhole
    obtain ⟨size, align, hlaid⟩ := h.exists_laidOut hclosed hpointer
    obtain ⟨ty, x, start, inner, hty, hx, hstart, hinner, rfl⟩ :=
      TypeTable.occupies_cons_iff.1 hpath
    obtain ⟨ty', x', start', inner', hty', hx', hstart', hinner', rfl⟩ :=
      TypeTable.occupies_cons_iff.1 hpath'
    cases hty.symm.trans hty'
    have hsizeable := h.step hclosed ⟨ty, hty, Ty.mem_parts_of_part? hx⟩
    have hsizeable' := h.step hclosed ⟨ty, hty, Ty.mem_parts_of_part? hx'⟩
    obtain ⟨n, a, hpart⟩ := hsizeable.exists_laidOut hclosed hpointer
    obtain ⟨n', a', hpart'⟩ := hsizeable'.exists_laidOut hclosed hpointer
    have hle := hpart.occupies_le hclosed hpointer hsizeable hinner
    have hle' := hpart'.occupies_le hclosed hpointer hsizeable' hinner'
    have hapart :=
      hlaid.disjoint_starts hty (fun members hmembers => hunion members (hmembers ▸ hty)) hne hx
        hx'
      hpart.size_eq hpart'.size_eq hstart hstart'
    omega
  | cons first path ih =>
    obtain ⟨ty, x, hty, hx, hrest⟩ := TypeTable.partAt?_cons_eq_some_iff.1 hwhole
    obtain ⟨ty', x', start, inner, hty', hx', hstart, hinner, rfl⟩ :=
      TypeTable.occupies_cons_iff.1 hpath
    cases hty.symm.trans hty'
    cases hx.symm.trans hx'
    obtain ⟨ty', x', start', inner', hty', hx', hstart', hinner', rfl⟩ :=
      TypeTable.occupies_cons_iff.1 hpath'
    cases hty.symm.trans hty'
    cases hx.symm.trans hx'
    cases hstart.symm.trans hstart'
    have hapart := ih (h.step hclosed ⟨ty, hty, Ty.mem_parts_of_part? hx⟩) hrest hinner hinner'
    omega

end

/-- Layouts are right at every depth. A type of a closed table that does not contain itself, and
where nothing exceeds the greatest size, has a layout. So has every part that a path leads to,
which lies inside the object at a multiple of its alignment; and two paths that part in a struct or
an array lead to bytes apart from each other. -/
theorem layout_sound_at_every_depth (hclosed : table.Closed)
    (hpointer : target.pointerSize.isPowerOfTwo) (h : Sizeable table target id) :
    ∃ size align, LaidOut table target id size align ∧
      (∀ path part, table.partAt? id path = some part →
        ∃ offset s a, table.offsetAt? target id path = some offset ∧
          LaidOut table target part s a ∧
          a ∣ offset ∧ offset + s ≤ size) ∧
      ∀ path whole selector selector' rest rest' o s o' s', table.partAt? id path = some whole →
        (∀ members, table.get whole ≠ .ok (.union members)) → selector ≠ selector' →
        table.Occupies target id (path ++ selector :: rest) o s →
        table.Occupies target id (path ++ selector' :: rest') o' s' → o + s ≤ o' ∨
        o' + s' ≤ o := by
  obtain ⟨size, align, hlaid⟩ := h.exists_laidOut hclosed hpointer
  refine ⟨size, align, hlaid, fun path part hpath => ?_, ?_⟩
  · obtain ⟨offset, s, a, hoffset, hpart, -, hdvd, hle⟩ :=
      hlaid.exists_offsetAt hclosed hpointer h hpath
    exact ⟨offset, s, a, hoffset, hpart, hdvd, hle⟩
  · intro path whole selector selector' rest rest' o s o' s' hwhole hunion hne hpath hpath'
    exact h.occupies_disjoint hclosed hpointer hwhole hunion hne hpath hpath'

/-- A struct with an array of unions, of a struct and a number. -/
def nestedTable : TypeTable :=
  TypeTable.empty.internEach [.array ⟨2⟩ 3, .struct [⟨0⟩, ⟨6⟩, ⟨14⟩], .union [⟨15⟩, ⟨9⟩],
    .array ⟨16⟩ 2, .struct [⟨0⟩, ⟨17⟩, ⟨13⟩]]

/-- The nested struct has a layout, and a path through all of its levels. -/
theorem nestedTable_layout :
    nestedTable.Closed ∧ Sizeable nestedTable ⟨8, false⟩ ⟨18⟩ ∧
      LaidOut nestedTable ⟨8, false⟩ ⟨18⟩ 64 8 ∧
      nestedTable.Occupies ⟨8, false⟩ ⟨18⟩ [.field 1, .item 1, .field 0, .field 2,
        .item 2] 52 2 := by
  have hclosed : nestedTable.Closed := by decide
  have hfits : ∀ ty ∈ nestedTable.entries, ty.Fits nestedTable ⟨8, false⟩ := by decide
  have hsizeable : Sizeable nestedTable ⟨8, false⟩ ⟨18⟩ :=
    ⟨by decide, TypeTable.loopFree_of_earlier (by decide) _,
      fun _ _ ty hty => hfits ty (TypeTable.mem_entries_of_get hty)⟩
  obtain ⟨size, align, hlaid, hpaths, -⟩ := layout_sound_at_every_depth hclosed ⟨3, rfl⟩ hsizeable
  obtain ⟨offset, s, a, hoffset, hpart, -⟩ :=
    hpaths [.field 1, .item 1, .field 0, .field 2, .item 2] ⟨2⟩ rfl
  cases hlaid.size_eq
  cases hlaid.align_eq
  cases hoffset
  cases hpart.size_eq
  exact ⟨hclosed, hsizeable, hlaid, ⟨2⟩, rfl, rfl, rfl⟩

end

end StackToGo
