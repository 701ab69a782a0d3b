import Mathlib.Order.Bounds.Defs
import StackToGo.Proofs.Layout.Extents

/-!
# Layouts of types

Fields of a struct are packed: each lies at the first multiple of its alignment that is not below
the end of the field before (`Packed`). As all alignments are powers of two, the strictest of them
is a multiple of the others. So the layout of a type is what it should be (`LaidOut`) once those of
its parts are, and by induction that of every type which does not contain itself and does not
exceed the greatest size (`Sizeable.exists_laidOut`).
-/

namespace StackToGo

open Relation

/-! ## Alignment -/

/-- Aligning gives the least multiple that is not below. -/
theorem isLeast_alignTo {a : Nat} (ha : 0 < a) (value : Nat) :
    IsLeast {n | a ∣ n ∧ value ≤ n} (alignTo value a) := by
  have hmod := Nat.mod_lt value ha
  have hdiv := Nat.div_add_mod value a
  unfold alignTo
  split
  case isTrue hone =>
    obtain rfl : a = 1 := by omega
    exact ⟨⟨Nat.one_dvd _, Nat.le_refl _⟩, fun n hn => hn.2⟩
  case isFalse =>
    split
    case isTrue hzero => exact ⟨⟨Nat.dvd_of_mod_eq_zero hzero, Nat.le_refl _⟩, fun n hn => hn.2⟩
    case isFalse hrest =>
      have hnext : value + (a - value % a) = a * (value / a + 1) := by
        rw [Nat.mul_add]
        omega
      rw [hnext]
      refine ⟨⟨Nat.dvd_mul_right _ _, by omega⟩, ?_⟩
      rintro n ⟨⟨k, rfl⟩, hk⟩
      have hlt : a * (value / a) < a * k := by omega
      exact Nat.mul_le_mul_left a (Nat.lt_of_mul_lt_mul_left hlt)

/-- A power of two divides those that are not less. -/
theorem dvd_of_isPowerOfTwo {a b : Nat} (ha : a.isPowerOfTwo) (hb : b.isPowerOfTwo) (h : a ≤ b) :
    a ∣ b := by
  obtain ⟨j, rfl⟩ := ha
  obtain ⟨k, rfl⟩ := hb
  exact Nat.pow_dvd_pow 2 ((Nat.pow_le_pow_iff_right (by decide)).1 h)

/-- Quantities that are known have a greatest one. -/
theorem exists_greatest {xs : List (Except Error Nat)} (h : ∀ x ∈ xs, ∃ n, x = .ok n)
    (start : Nat) : ∃ m, greatest start xs = .ok m := by
  induction xs generalizing start with
  | nil => exact ⟨start, rfl⟩
  | cons x xs ih =>
    obtain ⟨⟨n, rfl⟩, hxs⟩ := List.forall_mem_cons.1 h
    exact ih hxs (max start n)

/-- The greatest of some quantities is one of them, and none exceeds it. -/
theorem greatest_spec {xs : List (Except Error Nat)} {start m : Nat}
    (h : greatest start xs = .ok m) :
    start ≤ m ∧ (∀ x ∈ xs, ∃ n, x = .ok n ∧ n ≤ m) ∧ (m = start ∨ .ok m ∈ xs) := by
  induction xs generalizing start with
  | nil =>
    cases h
    exact ⟨Nat.le_refl _, by simp, .inl rfl⟩
  | cons x xs ih =>
    obtain ⟨n, rfl, hrest⟩ := greatest_cons_eq_ok_iff.1 h
    obtain ⟨hstart, hxs, hmem⟩ := ih hrest
    refine ⟨by omega, List.forall_mem_cons.2 ⟨⟨n, rfl, by omega⟩, hxs⟩, ?_⟩
    rcases hmem with hmax | hmem
    · rcases Nat.le_total start n with hle | hle
      · exact .inr (List.mem_cons.2 (.inl (by rw [hmax, Nat.max_eq_right hle])))
      · exact .inl (by rw [hmax, Nat.max_eq_left hle])
    · exact .inr (List.mem_cons_of_mem _ hmem)

/-- The strictest alignment is the greatest one. -/
theorem greatest_of_placeFields {es : List Extent} {start align stop strictest : Nat}
    {offsets : List Nat} (h : placeFields start align es = .ok (stop, strictest, offsets)) :
    greatest align (es.map (·.align)) = .ok strictest := by
  induction es generalizing start align offsets with
  | nil => cases h; rfl
  | cons e es ih =>
    obtain ⟨a, n, rest, ha, -, hrest, -⟩ := placeFields_cons_eq_ok_iff.1 h
    exact greatest_cons_eq_ok_iff.2 ⟨a, ha, ih hrest⟩

/-! ## The fields of a struct -/

/-- Objects one after another from `start` to `stop`, each at the first multiple of its alignment
that is not below the end of the one before. -/
inductive Packed : Nat → List Extent → List Nat → Nat → Prop
  | nil (stop : Nat) : Packed stop [] [] stop
  | cons {e : Extent} {es : List Extent} {a s start offset stop : Nat} {offsets : List Nat}
      (halign : e.align = .ok a) (hsize : e.size = .ok s)
      (hleast : IsLeast {n | a ∣ n ∧ start ≤ n} offset)
      (hrest : Packed (offset + s) es offsets stop) :
      Packed start (e :: es) (offset :: offsets) stop

/-- Fields whose sizes and alignments are known can be placed. -/
theorem exists_placeFields {es : List Extent}
    (h : ∀ e ∈ es, (∃ n, e.size = .ok n) ∧ ∃ a, e.align = .ok a) (start align : Nat) :
    ∃ stop strictest offsets, placeFields start align es = .ok (stop, strictest, offsets) := by
  induction es generalizing start align with
  | nil => exact ⟨_, _, _, rfl⟩
  | cons e es ih =>
    obtain ⟨⟨⟨n, hn⟩, a, ha⟩, hes⟩ := List.forall_mem_cons.1 h
    obtain ⟨stop, strictest, rest, hrest⟩ :=
      ih hes (min (alignTo start a + n) maxSize) (max align a)
    exact ⟨_, _, _, placeFields_cons_eq_ok_iff.2 ⟨a, n, rest, ha, hn, hrest, rfl⟩⟩

/-- Fields that are placed lie packed, if they fit. -/
theorem packed_of_placeFields {es : List Extent} {start align stop strictest : Nat}
    {offsets : List Nat} (h : placeFields start align es = .ok (stop, strictest, offsets))
    (hfits : ∀ p ∈ es.zip offsets, ∀ s, p.1.size = .ok s → p.2 + s ≤ maxSize)
    (halign : ∀ e ∈ es, ∀ a, e.align = .ok a → 0 < a) : Packed start es offsets stop := by
  induction es generalizing start align offsets with
  | nil => cases h; exact .nil _
  | cons e es ih =>
    obtain ⟨a, n, rest, ha, hn, hrest, rfl⟩ := placeFields_cons_eq_ok_iff.1 h
    obtain ⟨he, hes⟩ := List.forall_mem_cons.1 halign
    rw [List.zip_cons_cons] at hfits
    obtain ⟨hfit, hfits⟩ := List.forall_mem_cons.1 hfits
    -- The end of this field is within the greatest size, so that the next one starts from there.
    rw [Nat.min_eq_left (hfit n hn)] at hrest
    exact .cons ha hn (isLeast_alignTo (he a ha) start) (ih hrest hfits hes)

namespace Packed

variable {es : List Extent} {e : Extent} {start stop : Nat} {offsets : List Nat}

/-- Packed objects do not end before their start. -/
theorem start_le_stop (h : Packed start es offsets stop) : start ≤ stop := by
  induction h with
  | nil => exact Nat.le_refl _
  | cons _ _ hleast _ ih =>
    have hstart := hleast.1.2
    omega

/-- Packed objects do not begin before the start. -/
theorem start_le (h : Packed start es offsets stop) {o : Nat} (ho : o ∈ offsets) : start ≤ o := by
  induction h with
  | nil => cases ho
  | cons _ _ hleast _ ih =>
    have hstart := hleast.1.2
    rcases List.mem_cons.1 ho with rfl | ho
    · exact hstart
    · have hrest := ih ho
      omega

/-- Every packed object has its offset, a multiple of its alignment, and ends by the end. -/
theorem exists_offset (h : Packed start es offsets stop) {i : Nat} (he : es[i]? = some e) :
    ∃ o a s, offsets[i]? = some o ∧ e.align = .ok a ∧ e.size = .ok s ∧ a ∣ o ∧ o + s ≤ stop := by
  induction h generalizing i with
  | nil => simp at he
  | cons halign hsize hleast hrest ih =>
    cases i with
    | zero =>
      cases he
      exact ⟨_, _, _, rfl, halign, hsize, hleast.1.1, hrest.start_le_stop⟩
    | succ i => exact ih he

/-- Of two packed objects the earlier one ends before the later begins. -/
theorem ordered (h : Packed start es offsets stop) {i j s o o' : Nat} (hij : i < j)
    (he : es[i]? = some e) (hs : e.size = .ok s) (hi : offsets[i]? = some o)
    (hj : offsets[j]? = some o') : o + s ≤ o' := by
  induction h generalizing i j with
  | nil => simp at he
  | cons halign hsize hleast hrest ih =>
    obtain ⟨j, rfl⟩ : ∃ k, j = k + 1 := ⟨j - 1, by omega⟩
    cases i with
    | zero =>
      cases he
      cases hi
      rw [Except.ok.inj (hs.symm.trans hsize)]
      exact hrest.start_le (List.mem_of_getElem? hj)
    | succ i => exact ih (by omega) he hi hj

end Packed

/-! ## Layouts of single types -/

/-- The size of an extent is a multiple of its alignment, which is a power of two. -/
structure Extent.Regular (e : Extent) (size align : Nat) : Prop where
  size_eq : e.size = .ok size
  align_eq : e.align = .ok align
  isPowerOfTwo : align.isPowerOfTwo
  dvd : align ∣ size

/-- An array of regular items is regular. -/
theorem Extent.Regular.array {item : Extent} {s a items : Nat} (h : item.Regular s a) (id : TypeId)
    (hfits : s * items ≤ maxSize) : (Extent.array id items item).Regular (s * items) a where
  size_eq := size_array_eq_ok_iff.2 ⟨s, h.size_eq, hfits, rfl⟩
  align_eq := h.align_eq
  isPowerOfTwo := h.isPowerOfTwo
  dvd := Nat.dvd_mul_right_of_dvd h.dvd items

section

variable {es : List Extent} (hes : ∀ e ∈ es, ∃ s a, e.Regular s a)
include hes

/-- Sizes and alignments of regular extents are known. -/
theorem told_of_regular : ∀ e ∈ es, (∃ n, e.size = .ok n) ∧ ∃ a, e.align = .ok a := by
  intro e he
  obtain ⟨s, a, hregular⟩ := hes e he
  exact ⟨⟨s, hregular.size_eq⟩, a, hregular.align_eq⟩

/-- The strictest of some alignments is a multiple of them all. -/
theorem strictest_of_regular {m : Nat} (h : greatest 1 (es.map (·.align)) = .ok m) :
    m.isPowerOfTwo ∧ ∀ e ∈ es, ∀ a, e.align = .ok a → a ∣ m := by
  have hpower : ∀ e ∈ es, ∀ a, e.align = .ok a → a.isPowerOfTwo := by
    intro e he a ha
    obtain ⟨s, a', hregular⟩ := hes e he
    rw [Except.ok.inj (ha.symm.trans hregular.align_eq)]
    exact hregular.isPowerOfTwo
  obtain ⟨-, hbound, hmem⟩ := greatest_spec h
  have hm : m.isPowerOfTwo := by
    rcases hmem with rfl | hmem
    · exact Nat.isPowerOfTwo_one
    · obtain ⟨e, he, halign⟩ := List.mem_map.1 hmem
      exact hpower e he m halign
  refine ⟨hm, fun e he a ha => ?_⟩
  obtain ⟨n, hn, hle⟩ := hbound _ (List.mem_map_of_mem he)
  cases ha.symm.trans hn
  exact dvd_of_isPowerOfTwo (hpower e he a ha) hm hle

/-- A struct of regular fields that fit has a layout, which is regular and packed. -/
theorem exists_struct_layout (hfits : ∀ layout, StructLayout.ofExtents es = .ok layout →
      ∀ p ∈ es.zip layout.offsets, ∀ s, p.1.size = .ok s → p.2 + s ≤ maxSize) :
    ∃ layout stop, StructLayout.ofExtents es = .ok layout ∧
      (Extent.struct es).Regular layout.size layout.align ∧
      (∀ e ∈ es, ∀ a, e.align = .ok a → a ∣ layout.align) ∧ Packed 0 es layout.offsets stop ∧
      IsLeast {n | layout.align ∣ n ∧ stop ≤ n} layout.size := by
  have hpos : ∀ e ∈ es, ∀ a, e.align = .ok a → 0 < a := by
    intro e he a ha
    obtain ⟨s, a', hregular⟩ := hes e he
    cases ha.symm.trans hregular.align_eq
    exact Nat.pos_of_isPowerOfTwo hregular.isPowerOfTwo
  obtain ⟨stop, strictest, offsets, hplaced⟩ := exists_placeFields (told_of_regular hes) 0 1
  have hlayout : StructLayout.ofExtents es = .ok ⟨alignTo stop strictest, strictest, offsets⟩ :=
    ofExtents_eq_ok_iff.2 ⟨stop, hplaced, rfl⟩
  obtain ⟨hpower, hparts⟩ := strictest_of_regular hes (greatest_of_placeFields hplaced)
  have hpacked := packed_of_placeFields hplaced (hfits _ hlayout) hpos
  have hleast := isLeast_alignTo (Nat.pos_of_isPowerOfTwo hpower) stop
  refine ⟨_, stop, hlayout, ⟨?_, ?_, hpower, hleast.1.1⟩, hparts, hpacked, hleast⟩
  · exact Extent.size_struct_eq_ok_iff.2 ⟨_, hlayout, rfl⟩
  · exact Extent.align_struct_eq_ok_iff.2 ⟨_, hlayout, rfl⟩

/-- A union of regular members is regular, and as small as it can be. -/
theorem exists_union_layout :
    ∃ size align, (Extent.union es).Regular size align ∧
      (∀ e ∈ es, ∀ a, e.align = .ok a → a ∣ align) ∧
      IsLeast {n | align ∣ n ∧ ∀ e ∈ es, ∃ s, e.size = .ok s ∧ s ≤ n} size := by
  have hsizes : ∀ x ∈ es.map (·.size), ∃ n, x = .ok n :=
    List.forall_mem_map.2 fun e he => (told_of_regular hes e he).1
  have haligns : ∀ x ∈ es.map (·.align), ∃ n, x = .ok n :=
    List.forall_mem_map.2 fun e he => (told_of_regular hes e he).2
  obtain ⟨m, hm⟩ := exists_greatest hsizes 0
  obtain ⟨align, halign⟩ := exists_greatest haligns 1
  obtain ⟨hpower, hparts⟩ := strictest_of_regular hes halign
  obtain ⟨-, hbound, hmem⟩ := greatest_spec hm
  obtain ⟨⟨hdvd, hle⟩, hleast⟩ := isLeast_alignTo (Nat.pos_of_isPowerOfTwo hpower) m
  have hsize := Extent.size_union_eq_ok_iff.2 ⟨m, align, hm, halign, rfl⟩
  refine ⟨_, align, ⟨hsize, halign, hpower, hdvd⟩, hparts, ⟨hdvd, ?_⟩, ?_⟩
  · intro e he
    obtain ⟨s, hs, hsm⟩ := hbound _ (List.mem_map_of_mem he)
    exact ⟨s, hs, Nat.le_trans hsm hle⟩
  · rintro n ⟨hn, hmembers⟩
    refine hleast ⟨hn, ?_⟩
    rcases hmem with rfl | hmem
    · exact Nat.zero_le n
    · obtain ⟨e, he, hsize⟩ := List.mem_map.1 hmem
      obtain ⟨s, hs, hsn⟩ := hmembers e he
      cases hsize.symm.trans hs
      exact hsn

end

section

variable {table : TypeTable} {target : Target} {id : TypeId}

/-- A result is the one that there is. -/
theorem mem_toOption {ε α : Type} {x : Except ε α} {a : α} (h : x = .ok a) : a ∈ x.toOption := by
  rw [h]
  rfl

/-- Nothing about the layout of a type exceeds the greatest size: neither an array, nor the end of
a field. -/
def Ty.Fits (table : TypeTable) (target : Target) : Ty → Prop
  | .array item items => ∀ s ∈ (table.sizeOf target item).toOption, s * items ≤ maxSize
  | .struct fields =>
    ∀ layout ∈ (table.structLayout target fields).toOption, ∀ p ∈ fields.zip layout.offsets,
      ∀ s ∈ (table.sizeOf target p.1).toOption, p.2 + s ≤ maxSize
  | .scalar _ | .pointer _ | .union _ | .function .. => True

instance (table : TypeTable) (target : Target) : DecidablePred (Ty.Fits table target)
  | .array item items =>
    inferInstanceAs (Decidable (∀ s ∈ (table.sizeOf target item).toOption, s * items ≤ maxSize))
  | .struct fields =>
    inferInstanceAs (Decidable (∀ layout ∈ (table.structLayout target fields).toOption,
      ∀ p ∈ fields.zip layout.offsets, ∀ s ∈ (table.sizeOf target p.1).toOption,
      p.2 + s ≤ maxSize))
  | .scalar _ | .pointer _ | .union _ | .function .. => .isTrue trivial

/-- A type of the table that does not contain itself by value, where it and all types inside it
fit. -/
structure Sizeable (table : TypeTable) (target : Target) (id : TypeId) : Prop where
  lt_size : id.val < table.size
  loopFree : LoopFree table.Embeds id
  fits : ∀ x, ReflTransGen table.Embeds id x → ∀ ty, table.get x = .ok ty → ty.Fits table target

/-- What lies in a type of known size has a known size. -/
theorem Sizeable.step (hclosed : table.Closed) {x : TypeId} (h : Sizeable table target id)
    (hx : table.Embeds id x) :
    Sizeable table target x where
  lt_size := hclosed.mentions hx.mentions
  loopFree := h.loopFree.step hx
  fits y hy := h.fits y (hy.head hx)

/-- The parts of a type in an object of the given size and alignment: the items of an array side by
side, the fields of a struct one after another with no more space than their alignments ask for,
the members of a union in the same place. -/
def Ty.Arranged (table : TypeTable) (target : Target) (size align : Nat) : Ty → Prop
  | .array item items => ∃ s, table.sizeOf target item = .ok s ∧ size = s * items
  | .struct fields =>
    ∃ layout stop, table.structLayout target fields = .ok layout ∧ layout.size = size ∧
      layout.align = align ∧ Packed 0 (fields.map (table.extent target)) layout.offsets stop ∧
      IsLeast {n | align ∣ n ∧ stop ≤ n} size
  | .union members =>
    IsLeast {n | align ∣ n ∧ ∀ m ∈ members, ∃ s, table.sizeOf target m = .ok s ∧ s ≤ n} size
  | .scalar _ | .pointer _ | .function .. => True

/-- The layout of a type: its size is a multiple of its alignment, a power of two that suits all
its parts. -/
structure LaidOut (table : TypeTable) (target : Target) (id : TypeId) (size align : Nat) :
    Prop where
  size_eq : table.sizeOf target id = .ok size
  align_eq : table.alignOf target id = .ok align
  isPowerOfTwo : align.isPowerOfTwo
  dvd : align ∣ size
  parts : ∀ x, table.Embeds id x → ∀ a, table.alignOf target x = .ok a → a ∣ align
  arranged : ∀ ty, table.get id = .ok ty → ty.Arranged table target size align

/-- A type that is laid out is regular. -/
theorem LaidOut.regular {size align : Nat} (h : LaidOut table target id size align) :
    (table.extent target id).Regular size align :=
  ⟨h.size_eq, h.align_eq, h.isPowerOfTwo, h.dvd⟩

/-- A type with a regular extent whose parts are arranged is laid out. -/
theorem Extent.Regular.laidOut {e : Extent} {ty : Ty} {size align : Nat} (h : e.Regular size align)
    (hextent : table.extent target id = e) (hty : table.get id = .ok ty)
    (hparts : ∀ x ∈ ty.parts, ∀ a, table.alignOf target x = .ok a → a ∣ align)
    (harranged : ty.Arranged table target size align) : LaidOut table target id size align where
  size_eq := by
    rw [TypeTable.sizeOf, hextent, h.size_eq]
  align_eq := by
    rw [TypeTable.alignOf, hextent, h.align_eq]
  isPowerOfTwo := h.isPowerOfTwo
  dvd := h.dvd
  parts := by
    rintro x ⟨ty', hty', hx⟩
    cases hty.symm.trans hty'
    exact hparts x hx
  arranged := by
    intro ty' hty'
    cases hty.symm.trans hty'
    exact harranged

/-- The alignment of a scalar is a power of two. -/
theorem Scalar.isPowerOfTwo_align (s : Scalar) : s.align.isPowerOfTwo :=
  ⟨s.align.log2, by cases s <;> rfl⟩

/-- The size of a scalar is a multiple of its alignment. -/
theorem Scalar.align_dvd_size (s : Scalar) : s.align ∣ s.size := by
  cases s <;> decide

/-- Every such type has a layout. -/
theorem Sizeable.exists_laidOut (hclosed : table.Closed)
    (hpointer : target.pointerSize.isPowerOfTwo) (h : Sizeable table target id) :
    ∃ size align, LaidOut table target id size align := by
  have hacc := h.loopFree.acc fun _ _ hstep => hstep.lt_size
  induction hacc with
  | intro id _ ih =>
    obtain ⟨ty, hty⟩ := TypeTable.exists_get h.lt_size
    have hfits := h.fits id .refl ty hty
    have hparts : ∀ x ∈ ty.parts, ∃ s a, LaidOut table target x s a :=
      fun x hx => ih x ⟨ty, hty, hx⟩ (h.step hclosed ⟨ty, hty, hx⟩)
    have hregular : ∀ e ∈ ty.parts.map (table.extent target), ∃ s a, e.Regular s a := by
      intro e he
      obtain ⟨x, hx, rfl⟩ := List.mem_map.1 he
      obtain ⟨s, a, hlaid⟩ := hparts x hx
      exact ⟨s, a, hlaid.regular⟩
    have hextent : table.extent target id = table.extentOver target (table.extent target) id :=
      TypeTable.extent_eq h.loopFree
    rw [TypeTable.extentOver, hty] at hextent
    have hpointed : (⟨.ok target.pointerSize, .ok target.pointerSize⟩ : Extent).Regular _ _ :=
      ⟨rfl, rfl, hpointer, Nat.dvd_refl _⟩
    cases ty with
    | scalar s =>
      have hscalar : (⟨.ok s.size, .ok s.align⟩ : Extent).Regular _ _ :=
        ⟨rfl, rfl, s.isPowerOfTwo_align, s.align_dvd_size⟩
      exact ⟨_, _, hscalar.laidOut hextent hty (by simp [Ty.parts]) trivial⟩
    | pointer pointee => exact ⟨_, _, hpointed.laidOut hextent hty (by simp [Ty.parts]) trivial⟩
    | function arguments results variadic =>
      exact ⟨_, _, hpointed.laidOut hextent hty (by simp [Ty.parts]) trivial⟩
    | array item items =>
      obtain ⟨s, a, hitem⟩ := hparts item (List.mem_singleton_self _)
      have harray := hitem.regular.array id (hfits s (mem_toOption hitem.size_eq))
      refine ⟨_, _, harray.laidOut hextent hty (fun x hx a' ha' => ?_) ⟨s, hitem.size_eq, rfl⟩⟩
      rw [List.mem_singleton.1 hx] at ha'
      cases hitem.align_eq.symm.trans ha'
      exact Nat.dvd_refl _
    | struct fields =>
      have hends :
          ∀ layout, StructLayout.ofExtents (fields.map (table.extent target)) = .ok layout →
          ∀ p ∈ (fields.map (table.extent target)).zip layout.offsets, ∀ s, p.1.size = .ok s →
          p.2 + s ≤ maxSize := by
        intro layout hlayout
        rw [List.zip_map_left, List.forall_mem_map]
        exact fun p hp s hs => hfits layout (mem_toOption hlayout) p hp s (mem_toOption hs)
      obtain ⟨layout, stop, hlayout, hstruct, haligns, hpacked, hleast⟩ :=
        exists_struct_layout hregular hends
      refine ⟨_, _, hstruct.laidOut hextent hty ?_ ⟨layout, stop, hlayout, rfl, rfl,
        hpacked, hleast⟩⟩
      exact fun x hx => haligns _ (List.mem_map_of_mem hx)
    | union members =>
      obtain ⟨size, align, hunion, haligns, hleast⟩ := exists_union_layout hregular
      simp only [List.forall_mem_map] at haligns hleast
      exact ⟨_, _, hunion.laidOut hextent hty haligns hleast⟩

end

end StackToGo
