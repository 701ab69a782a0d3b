import Mathlib.Data.Int.ModEq
import StackToGo.Proofs.Emit.Faithful

/-!
# Elements at constant places

The place of an element is the address of the first one, moved by the index times the size of an
item. If the index is a constant, the product is written as a number of bytes; otherwise the index
is written as `uintptr(index)`, and the code multiplies. The first takes the constant as it stands
in the program, and the second as its type has it. They agree on addresses just if the size times
the difference of the two is a multiple of the number of addresses (`constant_index_agrees_iff`):
always if the type is as wide as a pointer or wider, and not for all narrower types.
-/

namespace StackToGo

/-! ## Integers of a type -/

namespace IntShape

variable (shape : IntShape) (v : Int)

/-- Wrapping changes an integer by a multiple of the number of integers of the shape. -/
theorem dvd_sub_wrap : (2 : Int) ^ shape.bits ∣ v - shape.wrap v := by
  have hpow : ((Nat.pow 2 shape.bits : Nat) : Int) = 2 ^ shape.bits := by simp
  rw [← hpow, wrap]
  split
  · exact Int.dvd_self_sub_bmod
  · exact Int.dvd_self_sub_emod

/-- Wrapping twice is wrapping once. -/
@[simp] theorem wrap_wrap : shape.wrap (shape.wrap v) = shape.wrap v := by
  unfold wrap
  split
  · exact Int.bmod_bmod
  · exact Int.emod_emod _ _

end IntShape

/-! ## Numbers that expressions stand for -/

namespace Go

/-- The number that an expression over integers and addresses of `bits` bits stands for. Whatever
is no arithmetic has the number that `value` gives it. -/
def Expr.number (bits : Nat) (value : Expr → Int) : Expr → Int
  | .int n => n
  | .convert .uintptr x => x.number bits value % 2 ^ bits
  | .convert (.scalar s) x =>
    ((Kind.scalar s).wrap? (x.number bits value)).getD (value (.convert (.scalar s) x))
  | .binary .add l r => l.number bits value + r.number bits value
  | .binary .sub l r => l.number bits value - r.number bits value
  | .binary .scale l r => l.number bits value * r.number bits value
  | x => value x

variable {bits : Nat} {value : Expr → Int}

/-- A constant of an integer type is the integer that is written. -/
theorem Expr.number_constant {s : Scalar} {shape : IntShape} (hshape : s.intShape? = some shape)
    (v : Int) :
    (Expr.convert (.scalar s) (.int (shape.wrap v))).number bits value = shape.wrap v := by
  simp [Expr.number, Kind.wrap?, Kind.intShape?, hshape]

end Go

namespace Emit

open StackToGo.Go

/-- The number of bytes from the first element to the one with an index. -/
def byteOffset (neg : Bool) (size : Nat) (index : Int) : Int :=
  if neg then -(index * size) else index * size

variable {bits : Nat} {value : Expr → Int}

/-- A moved pointer stands for the moved number. -/
theorem number_displaced (b : Expr) (offset : Int) :
    (displaced b offset).number bits value = b.number bits value + offset := by
  unfold displaced
  split
  · omega
  · split
    · simp only [Expr.number]
      omega
    · simp only [Expr.number]

/-- A pointer moved by elements stands for the number moved by their bytes. -/
theorem number_displacedBy (b : Expr) (neg : Bool) (size : Nat) (index : Expr) :
    (displacedBy b neg size index).number bits value =
      b.number bits value + byteOffset neg size (index.number bits value % 2 ^ bits) := by
  cases neg
  · simp only [displacedBy, Expr.number, byteOffset, Bool.false_eq_true, if_false]
    rw [Int.mul_comm]
  · simp only [displacedBy, Expr.number, byteOffset, if_true]
    rw [Int.mul_comm]
    omega

/-- Offsets are congruent just if the index times the size is. -/
theorem byteOffset_modEq_iff {m : Int} (neg : Bool) (size : Nat) (i j : Int) :
    byteOffset neg size i ≡ byteOffset neg size j [ZMOD m] ↔ m ∣ size * (i - j) := by
  have hsub : (size : Int) * (i - j) = i * size - j * size := by
    rw [Int.mul_sub, Int.mul_comm (size : Int) i, Int.mul_comm (size : Int) j]
  rw [hsub, ← Int.modEq_iff_dvd]
  cases neg
  · exact ⟨Int.ModEq.symm, Int.ModEq.symm⟩
  · refine ⟨fun h => ?_, fun h => h.symm.neg⟩
    simpa [byteOffset] using h.neg.symm

/-- The bytes to an element are the same modulo `m` if the index is. -/
theorem byteOffset_emod_modEq (m : Int) (neg : Bool) (size : Nat) (i : Int) :
    byteOffset neg size (i % m) ≡ byteOffset neg size i [ZMOD m] := by
  refine (byteOffset_modEq_iff neg size _ _).2 (Int.dvd_mul_of_dvd_right ?_)
  exact Int.modEq_iff_dvd.1 (Int.mod_modEq i m).symm

/-! ## Elements -/

variable {env : Env} {s s' : State} {f : Frame} {usage : Use} {type : Option TypeId}
  {position : Position} {address neg : Bool} {base index : Tree} {v : Int} {x : Expr}

/-- What lies behind a pointer: the items of an array, or the pointees themselves. -/
inductive ItemOf (table : TypeTable) (pointer : TypeId) : TypeId → Prop
  | array {pointee item : TypeId} {items : Nat} (h : table.get pointer = .ok (.pointer pointee))
      (hpointee : table.get pointee = .ok (.array item items)) : ItemOf table pointer item
  | single {pointee : TypeId} {ty : Ty} (h : table.get pointer = .ok (.pointer pointee))
      (hpointee : table.get pointee = .ok ty) (hty : ∀ item items, ty ≠ .array item items) :
      ItemOf table pointer pointee

/-- A tree that has a value has the type of it. -/
theorem type_of_valueType {t : Tree} {id : TypeId} (h : t.valueType = .ok id) :
    t.type = some id := by
  unfold Tree.valueType at h
  split at h
  · rename_i htype
    cases h
    exact htype
  · cases h

/-- What can be pointed to is behind a pointer type. -/
theorem get_of_element {table : TypeTable} {pointer pointee : TypeId}
    (h : table.element pointer = .ok pointee) :
    table.get pointer = .ok (.pointer pointee) := by
  unfold TypeTable.element at h
  obtain ⟨ty, hty, h⟩ := bind_eq_ok_iff.1 h
  rw [hty]
  cases ty with
  | pointer other =>
    cases h
    rfl
  | _ => cases h

/-- The items behind a pointer, which is not a pointer to `void`. -/
theorem itemOf_of_yields {pointer item : TypeId}
    (h : Yields env (itemType pointer position) s item s') :
    ¬TypeTable.isVoidPointer pointer ∧ ItemOf env.program.types pointer item ∧ s = s' := by
  unfold itemType at h
  split at h
  · exact absurd h not_yields_unsupported
  · rename_i hvoid
    obtain ⟨table, _, htable, h⟩ := yields_bind.1 h
    obtain ⟨rfl, rfl⟩ := yields_types.1 htable
    obtain ⟨pointee, _, hlift, h⟩ := yields_bind.1 h
    obtain ⟨helement, rfl⟩ := yields_lift.1 hlift
    obtain ⟨ty, _, hlift, h⟩ := yields_bind.1 h
    obtain ⟨hty, rfl⟩ := yields_lift.1 hlift
    split at h
    · obtain ⟨rfl, rfl⟩ := yields_pure.1 h
      exact ⟨hvoid, .array (get_of_element helement) hty, rfl⟩
    · rename_i hother
      obtain ⟨rfl, rfl⟩ := yields_pure.1 h
      exact ⟨hvoid, .single (get_of_element helement) hty hother, rfl⟩

/-- The address in a typed pointer is that of the expression. -/
theorem eq_addressBits_of_yields {pointer : TypeId} {b : Expr}
    (hvoid : ¬TypeTable.isVoidPointer pointer)
    (h : Yields env (addressBits pointer b position) s x s') : x = .addressBits b := by
  unfold addressBits at h
  rw [if_neg hvoid] at h
  obtain ⟨table, _, -, h⟩ := yields_bind.1 h
  obtain ⟨isFunction, _, -, h⟩ := yields_bind.1 h
  split at h
  · exact absurd h not_yields_unsupported
  · exact (yields_pure.1 h).1.symm

/-- An element at a constant place is written with the number of bytes to it. -/
theorem yields_element (hs : Faithful env s) (hv : index.constant? = some v)
    (h : Yields env (core f usage type position (.element address neg base index)) s x s') :
    ∃ pointer item size t b s₁ s₂, base.type = some pointer ∧
      ItemOf env.program.types pointer item ∧
      env.program.types.sizeOf env.target item = .ok size ∧
      Yields env (expr f .value base) s₁ b s₂ ∧
      x = pointed address (.reinterpret (.pointer t)
        (displaced (.addressBits b) (byteOffset neg size v))) := by
  rw [core, hv] at h
  obtain ⟨pointer, _, hlift, h⟩ := yields_bind.1 h
  obtain ⟨hpointer, rfl⟩ := yields_lift.1 hlift
  obtain ⟨item, _, htype, h⟩ := yields_bind.1 h
  obtain ⟨hvoid, hitem, rfl⟩ := itemOf_of_yields htype
  obtain ⟨size, s₁, hsize, h⟩ := yields_bind.1 h
  obtain ⟨t, s₂, -, h⟩ := yields_bind.1 h
  obtain ⟨b, s₃, hb, h⟩ := yields_bind.1 h
  obtain ⟨b', s₄, hb', h⟩ := yields_bind.1 h
  obtain ⟨place, s₅, hplace, h⟩ := yields_bind.1 h
  obtain ⟨rfl, -⟩ := yields_pure.1 hplace
  obtain ⟨rfl, -⟩ := yields_pure.1 h
  obtain rfl := eq_addressBits_of_yields hvoid hb'
  exact ⟨pointer, item, size, t, b, s₂, s₃, type_of_valueType hpointer, hitem,
    hs.yields_sizeOf.1 ⟨s₁, hsize⟩, hb, rfl⟩

/-- An integer constant of integer type is given, wrapped. -/
theorem exists_yields_constant (hs : Faithful env s) {id : TypeId} {scalar : Scalar}
    {shape : IntShape} (hget : env.program.types.get id = .ok (.scalar scalar))
    (hshape : scalar.intShape? = some shape) (v : Int) (single : UInt32) (double : UInt64)
    (position : Position) :
    ∃ s', Yields env (constant id v single double position) s
      (.convert (.scalar scalar) (.int (shape.wrap v))) s' := by
  obtain ⟨s', ht⟩ := hs.yields_goType.2 (.scalar hget)
  have hinteger : Yields env (integer id (.scalar scalar) v position) s
      (.convert (.scalar scalar) (.int (shape.wrap v))) s' := by
    have hwrap : (Kind.scalar scalar).wrap? v = some (shape.wrap v) :=
      by simp [Kind.wrap?, Kind.intShape?, hshape]
    rw [integer, hwrap]
    exact yields_bind.2 ⟨_, _, ht, yields_pure.2 ⟨rfl, rfl⟩⟩
  have hkind : Yields env (kind id) s (.scalar scalar) s :=
    yields_bind.2 ⟨_, _, yields_types.2 ⟨rfl, rfl⟩, yields_lift.2 ⟨kind_of_get hget, rfl⟩⟩
  refine ⟨s', yields_bind.2 ⟨_, _, hkind, ?_⟩⟩
  cases scalar
  case float32 | float64 | complex64 | complex128 => cases hshape
  all_goals exact hinteger

/-- The code of a constant of an integer type, where it is not an index. -/
theorem exists_yields_index (hs : Faithful env s) {id : TypeId} {scalar : Scalar}
    {shape : IntShape} (hv : index.constant? = some v) (htype : index.type = some id)
    (hget : env.program.types.get id = .ok (.scalar scalar))
    (hshape : scalar.intShape? = some shape) (f : Frame) (usage : Use) :
    ∃ s',
    Yields env (expr f usage index) s (.convert (.scalar scalar) (.int (shape.wrap v))) s' := by
  obtain ⟨indexShape, indexType, origin, comma⟩ := index
  obtain rfl : indexType = some id := htype
  cases comma with
  | cons first rest => cases indexShape <;> cases hv
  | nil =>
    cases indexShape with
    | const32 value =>
      cases hv
      obtain ⟨s', h⟩ := exists_yields_constant hs hget hshape value.toInt value.toUInt32
        (Number.widen value.toUInt32) origin
      exact ⟨s', yields_bind.2 ⟨_, _, yields_pure.2 ⟨rfl, rfl⟩, h⟩⟩
    | const64 value =>
      cases hv
      obtain ⟨s', h⟩ :=
        exists_yields_constant hs hget hshape value.toInt (Number.narrow value.toUInt64)
        value.toUInt64 origin
      exact ⟨s', yields_bind.2 ⟨_, _, yields_pure.2 ⟨rfl, rfl⟩, h⟩⟩
    | _ => cases hv

/-- Both expressions stand for the same address of `bits` bits, whatever the parts of them are that
are no arithmetic. -/
def SameAddress (bits : Nat) (x y : Expr) : Prop :=
  ∀ value, x.number bits value ≡ y.number bits value [ZMOD 2 ^ bits]

/-- Both ways to an element lead to the same address just if the indices agree in bytes. -/
theorem sameAddress_displaced_iff (b : Expr) (neg : Bool) (size : Nat) {index : Expr} {c : Int}
    (hindex : ∀ value, index.number bits value = c) (v : Int) :
    SameAddress bits (displaced b (byteOffset neg size v)) (displacedBy b neg size index) ↔
      2 ^ bits ∣ size * (v - c) := by
  rw [← byteOffset_modEq_iff neg size v c]
  constructor
  · intro h
    have hsum := h fun _ => 0
    rw [number_displaced, number_displacedBy, hindex] at hsum
    exact (Int.ModEq.add_left_cancel' _ hsum).trans (byteOffset_emod_modEq _ neg size c)
  · intro h value
    rw [number_displaced, number_displacedBy, hindex]
    exact (h.trans (byteOffset_emod_modEq _ neg size c).symm).add_left _

/-- For every element at a place that is a constant of an integer type: the address that is written
with a number of bytes is the one that the code would compute from the constant as it is written
elsewhere, wrapped to its type, just if the size of an item times what wrapping changes is a
multiple of the number of addresses. So it is for all constants of types that are at least as wide
as a pointer. -/
theorem constant_index_agrees_iff (hs : Faithful env s) {id : TypeId} {scalar : Scalar}
    {shape : IntShape} (hv : index.constant? = some v) (htype : index.type = some id)
    (hget : env.program.types.get id = .ok (.scalar scalar))
    (hshape : scalar.intShape? = some shape)
    (h : Yields env (core f usage type position (.element address neg base index)) s x s') :
    ∃ pointer item size t b place code s₁ s₂ s₃, base.type = some pointer ∧
      ItemOf env.program.types pointer item ∧
      env.program.types.sizeOf env.target item = .ok size ∧
      Yields env (expr f .value base) s₁ b s₂ ∧
      Yields env (expr f .value index) s code s₃ ∧
      code = .convert (.scalar scalar) (.int (shape.wrap v)) ∧
      x = pointed address (.reinterpret (.pointer t) place) ∧
      (SameAddress (8 * env.target.pointerSize) place
        (displacedBy (.addressBits b) neg size code) ↔
        2 ^ (8 * env.target.pointerSize) ∣ size * (v - shape.wrap v)) ∧
      (8 * env.target.pointerSize ≤ shape.bits →
        SameAddress (8 * env.target.pointerSize) place
          (displacedBy (.addressBits b) neg size code)) := by
  obtain ⟨pointer, item, size, t, b, s₁, s₂, hpointer, hitem, hsize, hb, rfl⟩ :=
    yields_element hs hv h
  obtain ⟨s₃, hcode⟩ := exists_yields_index hs hv htype hget hshape f .value
  have hiff :
      SameAddress (8 * env.target.pointerSize) (displaced (.addressBits b) (byteOffset neg size v))
      (displacedBy (.addressBits b) neg size (.convert (.scalar scalar) (.int (shape.wrap v)))) ↔
      _ :=
    sameAddress_displaced_iff _ neg size (fun _ => Expr.number_constant hshape v) v
  refine ⟨pointer, item, size, t, b, _, _, s₁, s₂, s₃, hpointer, hitem, hsize, hb, hcode, rfl, rfl,
    hiff, fun hwide => ?_⟩
  exact hiff.2 (Int.dvd_mul_of_dvd_right ((pow_dvd_pow 2 hwide).trans (shape.dvd_sub_wrap v)))

/-- A program with pointers to 32-bit integers. -/
def intPointers : Env where
  dict := .ofList []
  program := ⟨TypeTable.empty.internEach [.pointer TypeTable.int32], []⟩
  target := ⟨8, false⟩
  options := {}
  qualifier := fun _ _ => ""

/-- The frame of a function without arguments, results and locals. -/
def idleFrame : Frame := ⟨0, ⟨⟨0⟩, .unexported, ⟨0⟩, .unknown, [], []⟩, [], [], false, []⟩

/-- An element behind a null pointer. -/
def elementAt (index : Shape) (indexType : TypeId) : Shape :=
  .element true false (.mk .null (some ⟨14⟩) .unknown []) (.mk index (some indexType) .unknown [])

/-- The constant `-1` as an unsigned index leads to the same address both ways. -/
theorem constant_index_agrees_uint64 : ∃ x s', Yields intPointers
      (core idleFrame .value none .unknown (elementAt (.const64 (-1)) TypeTable.uint64))
      (.start ⟨8, false⟩) x s' ∧
    ∃ t b size place code, x = pointed true (.reinterpret (.pointer t) place) ∧
      SameAddress 64 place (displacedBy (.addressBits b) false size code) := by
  refine ⟨_, _, rfl, ?_⟩
  obtain ⟨-, -, size, t, b, place, code, -, -, -, -, -, -, -, -, -, hx, -, hwide⟩ :=
    @constant_index_agrees_iff intPointers (.start ⟨8, false⟩) _ idleFrame .value none
      .unknown true false (.mk .null (some ⟨14⟩) .unknown [])
      (.mk (.const64 (-1)) (some TypeTable.uint64) .unknown []) (-1) _ (faithful_start _)
      TypeTable.uint64 .uint64 ⟨false, 64⟩ rfl rfl rfl rfl rfl
  exact ⟨t, b, size, place, code, hx, hwide (by decide)⟩

/-- So the two ways do not agree for all constants: -1 as a 32-bit integer without a sign is far
from -1. -/
theorem constant_index_may_differ :
    ¬∀ (env : Env) (s s' s₁ s₂ : State) (f : Frame) (usage : Use) (type : Option TypeId)
      (position : Position) (address neg : Bool) (base index : Tree) (v : Int)
        (id pointer item : TypeId) (size : Nat) (scalar : Scalar) (shape : IntShape) (t : Go.Ty)
          (b x place : Expr), Faithful env s → index.constant? = some v →
        index.type = some id → env.program.types.get id = .ok (.scalar scalar) →
        scalar.intShape? = some shape →
        Yields env (core f usage type position (.element address neg base index)) s x s' →
        base.type = some pointer →
        ItemOf env.program.types pointer item →
        env.program.types.sizeOf env.target item = .ok size →
        Yields env (expr f .value base) s₁ b s₂ →
        x = pointed address (.reinterpret (.pointer t) place) →
        SameAddress (8 * env.target.pointerSize) place
          (displacedBy (.addressBits b) neg size
            (.convert (.scalar scalar) (.int (shape.wrap v)))) := by
  intro h
  have hsame : SameAddress 64 (displaced (.addressBits .nil) (byteOffset false 4 (-1)))
      (displacedBy (.addressBits .nil) false 4
        (.convert (.scalar .uint32) (.int (IntShape.wrap ⟨false, 32⟩ (-1))))) :=
    h intPointers (.start ⟨8, false⟩) _ (.start ⟨8, false⟩) _ idleFrame .value none
      .unknown true false (.mk .null (some ⟨14⟩) .unknown [])
      (.mk (.const32 (-1)) (some TypeTable.uint32) .unknown []) (-1) TypeTable.uint32
      ⟨14⟩ TypeTable.int32 4 .uint32 ⟨false, 32⟩ (.scalar .int32) .nil _ _ (faithful_start _)
      rfl rfl rfl rfl rfl rfl (.single rfl rfl (by rintro _ _ ⟨⟩)) rfl rfl rfl
  have hdvd := (sameAddress_displaced_iff (.addressBits .nil) false 4
    (fun _ => Expr.number_constant (s := .uint32) rfl (-1)) (-1)).1 hsame
  exact absurd hdvd (by decide)

end Emit
end StackToGo
