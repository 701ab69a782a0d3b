import StackToGo.Layout
import StackToGo.Proofs.Ty.Loops

/-!
# Extents without a bound on depth

`TypeTable.extentWithin` looks only so deep. Here its recursion is cut at any depth, and what
happens below the cut is left open. For a type that does not contain itself by value the cut is
never reached once it is deeper than the table is long (`TypeTable.extentAbove_eq_extent`): the
recursion ends by itself, and the extent of a type is made of the extents of its parts
(`TypeTable.extent_eq`).
-/

namespace StackToGo

/-! ## Extents that can be told -/

/-- A result of a sequence comes from a result of its first part. -/
theorem bind_eq_ok_iff {ε α β : Type} {x : Except ε α} {f : α → Except ε β} {b : β} :
    (x >>= f) = .ok b ↔ ∃ a, x = .ok a ∧ f a = .ok b := by
  cases x <;> simp [bind, Except.bind]

/-- A sequence fails in its first part, or in the rest after a result of the first. -/
theorem bind_eq_error_iff {ε α β : Type} {x : Except ε α} {f : α → Except ε β} {e : ε} :
    (x >>= f) = .error e ↔ x = .error e ∨ ∃ a, x = .ok a ∧ f a = .error e := by
  cases x <;> simp [bind, Except.bind]

/-- A result of a map comes from a result. -/
theorem map_eq_ok_iff {ε α β : Type} {x : Except ε α} {f : α → β} {b : β} :
    x.map f = .ok b ↔ ∃ a, x = .ok a ∧ f a = b := by
  cases x <;> simp [Except.map]

/-- Placing fields places the first one and then the others. -/
theorem placeFields_cons_eq_ok_iff {e : Extent} {es : List Extent}
    {offset align stop strictest : Nat} {offsets : List Nat} :
    placeFields offset align (e :: es) = .ok (stop, strictest, offsets) ↔
      ∃ a n rest, e.align = .ok a ∧ e.size = .ok n ∧
        placeFields (min (alignTo offset a + n) maxSize) (max align a) es =
          .ok (stop, strictest, rest) ∧
        offsets = alignTo offset a :: rest := by
  simp only [placeFields, bind_eq_ok_iff]
  constructor
  · rintro ⟨a, ha, n, hn, ⟨_, _, rest⟩, hrest, h⟩
    cases h
    exact ⟨a, n, rest, ha, hn, hrest, rfl⟩
  · rintro ⟨a, n, rest, ha, hn, hrest, rfl⟩
    exact ⟨a, ha, n, hn, _, hrest, rfl⟩

/-- The layout of a struct comes from placing its fields. -/
theorem ofExtents_eq_ok_iff {es : List Extent} {layout : StructLayout} :
    StructLayout.ofExtents es = .ok layout ↔
      ∃ stop, placeFields 0 1 es = .ok (stop, layout.align, layout.offsets) ∧
        layout.size = alignTo stop layout.align := by
  rw [StructLayout.ofExtents, bind_eq_ok_iff]
  constructor
  · rintro ⟨⟨stop, align, offsets⟩, hplaced, h⟩
    cases h
    exact ⟨stop, hplaced, rfl⟩
  · rintro ⟨stop, hplaced, hsize⟩
    refine ⟨_, hplaced, ?_⟩
    dsimp only
    rw [← hsize]
    rfl

/-- The greatest of quantities takes in the first one and then the others. -/
theorem greatest_cons_eq_ok_iff {x : Except Error Nat} {xs : List (Except Error Nat)}
    {start n : Nat} :
    greatest start (x :: xs) = .ok n ↔ ∃ m, x = .ok m ∧ greatest (max start m) xs = .ok n := by
  rw [greatest, bind_eq_ok_iff]

namespace Extent

/-- The size of an array, which may not exceed the greatest size. -/
theorem size_array_eq_ok_iff {id : TypeId} {items n : Nat} {item : Extent} :
    (Extent.array id items item).size = .ok n ↔
    ∃ m, item.size = .ok m ∧ m * items ≤ maxSize ∧ m * items = n := by
  rw [Extent.array, bind_eq_ok_iff]
  refine exists_congr fun m => and_congr_right fun _ => ?_
  split
  case isTrue hfits => simp [hfits, pure, Except.pure]
  case isFalse hfits => simp [hfits, throw, throwThe, MonadExceptOf.throw]

/-- The size of a struct is that of its layout. -/
theorem size_struct_eq_ok_iff {fields : List Extent} {n : Nat} :
    (Extent.struct fields).size = .ok n ↔ ∃ layout, StructLayout.ofExtents fields = .ok layout ∧
    layout.size = n :=
  map_eq_ok_iff

/-- The alignment of a struct is that of its layout. -/
theorem align_struct_eq_ok_iff {fields : List Extent} {n : Nat} :
    (Extent.struct fields).align = .ok n ↔ ∃ layout, StructLayout.ofExtents fields = .ok layout ∧
    layout.align = n :=
  map_eq_ok_iff

/-- The size of a union is that of its greatest member, aligned. -/
theorem size_union_eq_ok_iff {members : List Extent} {n : Nat} :
    (Extent.union members).size = .ok n ↔ ∃ m a, greatest 0 (members.map (·.size)) = .ok m ∧
      greatest 1 (members.map (·.align)) = .ok a ∧ alignTo m a = n := by
  simp only [Extent.union, bind_eq_ok_iff, pure, Except.pure, Except.ok.injEq]
  exact exists_congr fun m => exists_and_left.symm

end Extent

/-! ## Depth -/

namespace TypeTable

variable {table : TypeTable} {target : Target} {id : TypeId}

/-- The extent of a type, given the extents of its parts. -/
def extentOver (table : TypeTable) (target : Target) (part : TypeId → Extent) (id : TypeId) :
    Extent :=
  match table.get id with
  | .error e => .unknown e
  | .ok (.scalar s) => ⟨.ok s.size, .ok s.align⟩
  | .ok (.pointer _) => ⟨.ok target.pointerSize, .ok target.pointerSize⟩
  | .ok (.function ..) => ⟨.ok target.pointerSize, .ok target.pointerSize⟩
  | .ok (.array item items) => .array id items (part item)
  | .ok (.struct fields) => .struct (fields.map part)
  | .ok (.union members) => .union (members.map part)

/-- The extent of a type, computed down to `depth` types deep, with `rest` for what lies deeper. -/
def extentAbove (table : TypeTable) (target : Target) (rest : TypeId → Extent) :
    Nat → TypeId → Extent
  | 0 => rest
  | depth + 1 => table.extentOver target (table.extentAbove target rest depth)

/-- The limited extent is the one with an error for what lies deeper. -/
theorem extentWithin_eq_extentAbove (depth : Nat) :
    table.extentWithin target depth =
      table.extentAbove target (fun id => .unknown (.breach (.endlessSize id))) depth := by
  induction depth with
  | zero => rfl
  | succ depth ih =>
    funext id
    rw [extentAbove, ← ih]
    rfl

/-- Only the extents of the parts matter. -/
theorem extentOver_congr {part part' : TypeId → Extent}
    (h : ∀ x, table.Embeds id x → part x = part' x) :
    table.extentOver target part id = table.extentOver target part' id := by
  rw [extentOver, extentOver]
  cases hget : table.get id with
  | error e => rfl
  | ok ty =>
    have hparts : ∀ x ∈ ty.parts, part x = part' x := fun x hx => h x ⟨ty, hget, hx⟩
    cases ty with
    | scalar s => rfl
    | pointer pointee => rfl
    | function arguments results variadic => rfl
    | array item items => exact congrArg (Extent.array id items) (hparts item (by simp [Ty.parts]))
    | struct fields => exact congrArg Extent.struct (List.map_congr_left hparts)
    | union members => exact congrArg Extent.union (List.map_congr_left hparts)

-- The types above the cut form a trail, which is no longer than the table: deeper cuts are never
-- reached.

/-- For loop-free types it does not matter what lies deeper than the table is long. -/
theorem extentAbove_congr {rest rest' : TypeId → Extent} {depth depth' : Nat}
    {opened : List TypeId} (htrail : Trail table.Embeds table.size opened id)
    (hid : LoopFree table.Embeds id) (hdepth : table.size < depth + opened.length)
    (hdepth' : table.size < depth' + opened.length) :
    table.extentAbove target rest depth id = table.extentAbove target rest' depth' id := by
  have hlength := htrail.length_le
  induction depth generalizing depth' opened id with
  | zero => omega
  | succ depth ih =>
    obtain ⟨depth', rfl⟩ : ∃ k, depth' = k + 1 := ⟨depth' - 1, by omega⟩
    refine extentOver_congr fun x hx => ?_
    have hnext := htrail.cons (htrail.not_mem hid) hx.lt_size hx
    refine ih hnext (hid.step hx) ?_ ?_ hnext.length_le
    · rw [List.length_cons]
      omega
    · rw [List.length_cons]
      omega

/-- The recursion never goes deeper than the table is long. -/
theorem extentAbove_eq_extent (hid : LoopFree table.Embeds id) (rest : TypeId → Extent)
    {depth : Nat} (hdepth : table.size < depth) :
    table.extentAbove target rest depth id = table.extent target id := by
  rw [extent, extentWithin_eq_extentAbove]
  exact extentAbove_congr trail_nil hid (by simpa using hdepth) (by simp)

/-- The extent of a loop-free type is made of those of its parts. -/
theorem extent_eq (hid : LoopFree table.Embeds id) :
    table.extent target id = table.extentOver target (table.extent target) id := by
  have hdepth : table.size < table.size + 2 := by omega
  rw [← extentAbove_eq_extent hid (table.extent target) hdepth]
  refine extentOver_congr fun x hx => ?_
  exact extentAbove_eq_extent (hid.step hx) _ (by omega)

end TypeTable

end StackToGo
