import StackToGo.Proofs.Emit.ConstantIndex
import StackToGo.Proofs.Go.Grammar
import StackToGo.Proofs.Integer

/-!
# Stores into fields of bits

A field of bits is stored by a routine, which is called with the value moved to the place of the
field, the mask of the field and the two shifts that read it back. The text of the routine is read
as code over words, by the precedence of Go's operators, and run on words of the type
(`Routine.storeBits`). `bit_field_stores_exact`: the call leaves all bits around the field as they
were, sets the field to the lowest bits of the value, and returns these bits, extended as the type
is.
-/

namespace StackToGo

/-! ## Code over words -/

namespace Go

/-- Operators that take two words bit by bit. -/
inductive BitOperator where
  | and | andNot | or

def BitOperator.symbol : BitOperator → String
  | .and => "&"
  | .andNot => "&^"
  | .or => "|"

def BitOperator.apply {bits : Nat} : BitOperator → BitVec bits → BitVec bits → BitVec bits
  | .and, a, b => a &&& b
  | .andNot, a, b => a &&& ~~~b
  | .or, a, b => a ||| b

/-- An expression over words of one type. Shifts are by counts, which are no such words. -/
inductive WordExpr where
  | name (x : String)
  /-- The word that a pointer leads to. -/
  | behind (pointer : String)
  | bitwise (op : BitOperator) (lhs rhs : WordExpr)
  | lsh (x : WordExpr) (count : String)
  | rsh (x : WordExpr) (count : String)

/-- What names stand for. -/
structure Names (bits : Nat) where
  word : String → BitVec bits
  count : String → Nat
  behind : String → BitVec bits

namespace WordExpr

/-- The tokens are read as the expression, whose operators bind at least as tight as the level
says. -/
inductive Reads : Nat → List String → WordExpr → Prop
  | name {level : Nat} {x : String} (h : isIdentifier x) : Reads level [x] (.name x)
  | behind {level : Nat} {pointer : String} (h : isIdentifier pointer) :
      Reads level ["*", pointer] (.behind pointer)
  | paren {level : Nat} {ts : List String} {x : WordExpr} (h : Reads 1 ts x) :
      Reads level ("(" :: (ts ++ [")"])) x
  | bitwise {level tighter : Nat} (op : BitOperator) {ts us : List String} {lhs rhs : WordExpr}
      (hop : precedence? op.symbol = some tighter) (hlevel : level ≤ tighter)
      (hl : Reads tighter ts lhs) (hr : Reads (tighter + 1) us rhs) :
      Reads level (ts ++ op.symbol :: us) (.bitwise op lhs rhs)
  | lsh {level tighter : Nat} {ts : List String} {x : WordExpr} {count : String}
      (hop : precedence? "<<" = some tighter) (hlevel : level ≤ tighter) (hx : Reads tighter ts x)
      (hcount : isIdentifier count) : Reads level (ts ++ ["<<", count]) (.lsh x count)
  | rsh {level tighter : Nat} {ts : List String} {x : WordExpr} {count : String}
      (hop : precedence? ">>" = some tighter) (hlevel : level ≤ tighter) (hx : Reads tighter ts x)
      (hcount : isIdentifier count) : Reads level (ts ++ [">>", count]) (.rsh x count)

/-- The word that an expression stands for. -/
def eval (shape : IntShape) (names : Names shape.bits) : WordExpr → BitVec shape.bits
  | .name x => names.word x
  | .behind pointer => names.behind pointer
  | .bitwise op lhs rhs => op.apply (lhs.eval shape names) (rhs.eval shape names)
  | .lsh x count => x.eval shape names <<< names.count count
  | .rsh x count => shape.shiftRight (x.eval shape names) (names.count count)

end WordExpr

/-- The word of an argument. Whatever is no shift and no constant has the word that `value` gives
it. -/
def Expr.word {bits : Nat} (value : Expr → BitVec bits) : Expr → BitVec bits
  | .paren x => x.word value
  | .binary .lsh x (.int n) => x.word value <<< n.toNat
  | .convert (.scalar _) (.int n) => .ofInt bits n
  | x => value x

end Go

/-! ## The routine -/

namespace Routine

open StackToGo.Go

/-- The word that is stored behind `p`. -/
def storedWord : WordExpr :=
  .bitwise .or (.bitwise .andNot (.behind "p") (.name "m")) (.bitwise .and (.name "v") (.name "m"))

/-- The word that is returned. -/
def storedField : WordExpr := .rsh (.lsh (.bitwise .and (.name "v") (.name "m")) "l") "r"

/-- The text is that of a routine which takes a pointer `p`, two words `v` and `m` and two counts
`l` and `r`, stores a word behind `p` and returns another. -/
def StoresAndReturns (name t text : String) (stored returned : WordExpr) : Prop :=
  ∃ set result, text = "func " ++ name ++ "(p *" ++ t ++ ", v, m " ++ t ++ ", l, r uint) " ++ t ++
    " \x7b *p = " ++ set ++
      "; return " ++ result ++ " \x7d" ∧
    stored.Reads 1 (tokens set) ∧ returned.Reads 1 (tokens result)

/-- The word that is stored, read from its tokens. -/
theorem reads_storedWord : storedWord.Reads 1 (tokens "*p&^m | v&m") := by
  have hset :
      tokens "*p&^m | v&m" = (["*", "p"] ++ "&^" :: ["m"]) ++ "|" :: (["v"] ++ "&" :: ["m"]) :=
    by decide
  rw [hset]
  have hkept :
      WordExpr.Reads 4 (["*", "p"] ++ "&^" :: ["m"])
        (.bitwise .andNot (.behind "p") (.name "m")) :=
    .bitwise .andNot rfl (by decide) (.behind (by decide)) (.name (by decide))
  have hfield : WordExpr.Reads 5 (["v"] ++ "&" :: ["m"]) (.bitwise .and (.name "v") (.name "m")) :=
    .bitwise .and rfl (by decide) (.name (by decide)) (.name (by decide))
  exact .bitwise .or rfl (by decide) hkept hfield

/-- The word that is returned, read from its tokens. -/
theorem reads_storedField : storedField.Reads 1 (tokens "(v & m) << l >> r") := by
  have hresult :
      tokens "(v & m) << l >> r" = "(" :: ((["v"] ++ "&" :: ["m"]) ++ [")"]) ++ ["<<", "l"] ++
        [">>", "r"] := by
    decide
  rw [hresult]
  have hfield : WordExpr.Reads 1 (["v"] ++ "&" :: ["m"]) (.bitwise .and (.name "v") (.name "m")) :=
    .bitwise .and rfl (by decide) (.name (by decide)) (.name (by decide))
  exact .rsh rfl (by decide) (.lsh rfl (by decide) (.paren hfield) (by decide)) (by decide)

/-- The routine for bit fields stores and returns these words. -/
theorem storesAndReturns_definition (id : TypeId) (t : String) (pointer : Bool) :
    StoresAndReturns (name .storeBits id) t (definition .storeBits id t pointer) storedWord
      storedField := by
  refine ⟨"*p&^m | v&m", "(v & m) << l >> r", ?_, reads_storedWord, reads_storedField⟩
  unfold definition
  simp only [String.append_assoc]
  rfl

/-- The word behind `p` after a call of the routine, and the word that it returns. -/
def storeBits (shape : IntShape) (word v m : BitVec shape.bits) (left right : Nat) :
    BitVec shape.bits × BitVec shape.bits :=
  let names : Names shape.bits :=
    ⟨fun x => if x = "v" then v else m, fun n => if n = "l" then left else right, fun _ => word⟩
  (storedWord.eval shape names, storedField.eval shape names)

/-- The words after a call of the routine. -/
theorem storeBits_eq (shape : IntShape) (word v m : BitVec shape.bits) (left right : Nat) :
    storeBits shape word v m left right =
      (word &&& ~~~m ||| v &&& m, shape.shiftRight ((v &&& m) <<< left) right) := by
  rfl

end Routine

/-- Storing the value `v` into the field of the word leaves the bits around the field as they were,
and sets the field to the lowest bits of the value, which are also the result. -/
structure IntShape.StoresField {shape : IntShape} (bits offset : Nat) (v word : BitVec shape.bits)
    (outcome : BitVec shape.bits × BitVec shape.bits) : Prop where
  around : ∀ i, i < offset ∨ offset + bits ≤ i → outcome.1.getLsbD i = word.getLsbD i
  field : ∀ i, i < bits → outcome.1.getLsbD (offset + i) = v.getLsbD i
  result : outcome.2 = shape.extendLow bits v

/-- With the mask and the shifts of a field, the routine stores into just this field. -/
theorem storesField_storeBits {shape : IntShape} {bits offset : Nat}
    (h : shape.HoldsField bits offset) (v word : BitVec shape.bits) :
    IntShape.StoresField bits offset v word (Routine.storeBits shape word (v <<< offset)
      (.ofInt _ (shape.fieldMask bits offset)) (shape.fieldShifts bits offset).1
      (shape.fieldShifts bits offset).2) := by
  have hle := h.inside
  rw [Routine.storeBits_eq]
  refine ⟨?_, ?_, IntShape.shiftRight_raisedField h v⟩
  · intro i hi
    have hout : ¬(i < shape.bits ∧ offset ≤ i ∧ i < offset + bits) := by omega
    rw [BitVec.getLsbD_or, IntShape.getLsbD_fieldBits h, BitVec.getLsbD_and, BitVec.getLsbD_not,
      IntShape.getLsbD_fieldMask h, decide_eq_false hout]
    by_cases hlt : i < shape.bits
    · simp [hlt]
    · simp [BitVec.getLsbD_of_ge word i (Nat.not_lt.1 hlt)]
  · intro i hi
    have hin : offset + i < shape.bits ∧ offset ≤ offset + i ∧ offset + i < offset + bits :=
      by omega
    rw [BitVec.getLsbD_or, IntShape.getLsbD_fieldBits h, BitVec.getLsbD_and, BitVec.getLsbD_not,
      IntShape.getLsbD_fieldMask h, decide_eq_true hin]
    simp

namespace Kind

variable {k : Kind} {shape : IntShape} {bits offset : Nat}

/-- No integer is wider than 64 bits. -/
theorem width_le_of_intShape? (hk : k.intShape? = some shape) : shape.bits ≤ 64 := by
  cases k with
  | scalar scalar => cases scalar <;> cases hk <;> decide
  | _ => cases hk

/-- A field that an integer kind has, has a mask. -/
theorem fieldMask?_eq_some (hk : k.intShape? = some shape) (h : shape.hasField bits offset) :
    k.fieldMask? bits offset = some (shape.fieldMask bits offset) := by
  rw [fieldMask?, hk, Option.filter_some, if_pos h]
  rfl

/-- A field that an integer kind has, has shifts. -/
theorem fieldShifts?_eq_some (hk : k.intShape? = some shape) (h : shape.hasField bits offset) :
    k.fieldShifts? bits offset = some (shape.fieldShifts bits offset) := by
  rw [fieldShifts?, hk, Option.filter_some, if_pos h]
  rfl

/-- A kind without such a field has no mask and no shifts for it. -/
theorem field?_eq_none (h : ∀ shape, k.intShape? = some shape → ¬shape.hasField bits offset) :
    k.fieldMask? bits offset = none ∧ k.fieldShifts? bits offset = none := by
  have hnone : k.intShape?.filter (·.hasField bits offset) = none := by
    rw [Option.filter_eq_none_iff]
    exact h
  rw [fieldMask?, fieldShifts?, hnone]
  exact ⟨rfl, rfl⟩

end Kind

/-! ## Stores -/

namespace Emit

open StackToGo.Go
open StackToGo.TypeText (Expands)

variable {env : Env} {s s' : State} {f : Frame} {usage : Use} {type : Option TypeId}
  {position : Position} {bits offset : Nat} {address v : Tree} {x : Expr}

/-- A kind with the shape of an integer is a scalar with this shape. -/
theorem eq_scalar_of_intShape? {k : Kind} {shape : IntShape} (h : k.intShape? = some shape) :
    ∃ scalar, k = .scalar scalar ∧ scalar.intShape? = some shape := by
  cases k with
  | scalar scalar => exact ⟨scalar, rfl, h⟩
  | _ => cases h

/-- The type of a tree with a result is there. -/
theorem eq_some_of_yields_resultType {id : TypeId}
    (h : Yields env (resultType type position) s id s') :
    type = some id ∧ s = s' := by
  cases type with
  | none => exact absurd h not_yields_unsupported
  | some other =>
    obtain ⟨rfl, rfl⟩ := yields_pure.1 h
    exact ⟨rfl, rfl⟩

/-- A store into a field is a call of the routine, with the value moved to the field, the mask and
the shifts. -/
theorem yields_storeBits (hs : Faithful env s) (hbits : bits ≠ 0)
    (h : Yields env (core f usage type position (.store bits offset address v)) s x s') :
    ∃ id scalar shape a y s₁ s₂ s₃, type = some id ∧
      env.program.types.get id = .ok (.scalar scalar) ∧
      scalar.intShape? = some shape ∧ shape.hasField bits offset ∧
      Yields env (expr f .operand address) s₁ a s₂ ∧
      Yields env (expr f .operand v) s₂ y s₃ ∧
      x = .callName (Routine.name .storeBits id) [a, .paren (.binary .lsh y (.int offset)),
        .convert (.scalar scalar) (.int (shape.fieldMask bits offset)),
        .int (shape.fieldShifts bits offset).1, .int (shape.fieldShifts bits offset).2] := by
  by_cases hdup : ∃ target t p comma, address = .mk (.dup target) t p comma
  · -- The address is computed once, and fields of bits are refused there.
    obtain ⟨target, t, p, comma, rfl⟩ := hdup
    rw [core] at h
    obtain ⟨id, _, -, h⟩ := yields_bind.1 h
    obtain ⟨t, _, -, h⟩ := yields_bind.1 h
    rw [if_pos hbits] at h
    exact absurd h not_yields_unsupported
  · rw [core] at h
    · obtain ⟨id, _, hid, h⟩ := yields_bind.1 h
      obtain ⟨rfl, rfl⟩ := eq_some_of_yields_resultType hid
      obtain ⟨t, s₁, ht, h⟩ := yields_bind.1 h
      rw [if_neg hbits] at h
      obtain ⟨k, _, hyields, h⟩ := yields_bind.1 h
      obtain ⟨hkind, rfl⟩ := yields_kind.1 hyields
      by_cases hfield : ∃ shape, k.intShape? = some shape ∧ shape.hasField bits offset
      · obtain ⟨shape, hshape, hfield⟩ := hfield
        obtain ⟨scalar, rfl, hscalar⟩ := eq_scalar_of_intShape? hshape
        have hget := get_of_kind_scalar hkind
        obtain rfl := (hs.yields_goType.1 ⟨_, ht⟩).eq_scalar hget
        rw [Kind.fieldMask?_eq_some hshape hfield, Kind.fieldShifts?_eq_some hshape hfield] at h
        obtain ⟨name, s₂, hname, h⟩ := yields_bind.1 h
        obtain ⟨a, s₃, ha, h⟩ := yields_bind.1 h
        obtain ⟨y, s₄, hy, h⟩ := yields_bind.1 h
        obtain ⟨rfl, -⟩ := yields_pure.1 h
        obtain rfl : Routine.name .storeBits id = name := by
          obtain ⟨_, _, -, hname⟩ := yields_bind.1 hname
          exact (yields_pure.1 hname).1
        exact ⟨id, scalar, shape, a, y, s₂, s₃, s₄, rfl, hget, hscalar, hfield, ha, hy, rfl⟩
      · have hnone := Kind.field?_eq_none fun shape hshape hyes => hfield ⟨shape, hshape, hyes⟩
        rw [hnone.1, hnone.2] at h
        exact absurd h not_yields_unsupported
    · exact fun target t p comma heq => hdup ⟨target, t, p, comma, heq⟩

/-- Stores into fields of bits are exact. Only integer kinds that are wide enough have a mask and
shifts for a field of at least one bit, and the mask is an integer of the kind. Whatever the word
was before and whatever the value is, the routine called with the value at the place of the field,
the mask and the shifts leaves the bits around the field, sets the field to the lowest bits of the
value, and returns these, extended with a sign or without as the kind is. Its text is read as this
code. Every store into a field that is written is such a call. Nothing is said of fields whose end
overflows 32 bits. -/
theorem bit_field_stores_exact :
    (∀ (k : Kind) (bits offset : Nat), bits + offset < 2 ^ 32 →
      (¬∃ shape, k.intShape? = some shape ∧ 1 ≤ bits ∧ bits + offset ≤ shape.bits) →
        k.fieldMask? bits offset = none ∧ k.fieldShifts? bits offset = none) ∧
    (∀ (k : Kind) (shape : IntShape) (bits offset : Nat), k.intShape? = some shape → 1 ≤ bits →
      bits + offset ≤ shape.bits → ∃ mask left right, k.fieldMask? bits offset = some mask ∧
        k.fieldShifts? bits offset = some (left, right) ∧ shape.Contains mask ∧
          ∀ v word : BitVec shape.bits,
          IntShape.StoresField bits offset v word
            (Routine.storeBits shape word (v <<< offset) (.ofInt _ mask) left right)) ∧
    (∀ (id : TypeId) (t : String) (pointer : Bool),
      Routine.StoresAndReturns (Routine.name .storeBits id) t
        (Routine.definition .storeBits id t pointer) Routine.storedWord Routine.storedField) ∧
    ∀ (env : Env) (s s' : State) (f : Frame) (usage : Use) (type : Option TypeId)
      (position : Position) (bits offset : Nat) (address v : Tree) (x : Expr), Faithful env s →
      bits ≠ 0 → bits + offset < 2 ^ 32 →
      Yields env (core f usage type position (.store bits offset address v)) s x s' →
      ∃ id scalar shape a y placed mask left right s₁ s₂ s₃, type = some id ∧
        env.program.types.get id = .ok (.scalar scalar) ∧ scalar.intShape? = some shape ∧
        Yields env (expr f .operand address) s₁ a s₂ ∧ Yields env (expr f .operand v) s₂ y s₃ ∧
        x = .callName (Routine.name .storeBits id) [a, placed, mask, .int (left : Nat),
          .int (right : Nat)] ∧
        ∀ (value : Expr → BitVec shape.bits) (word : BitVec shape.bits),
          IntShape.StoresField bits offset (y.word value) word
          (Routine.storeBits shape word (placed.word value) (mask.word value) left right) := by
  refine ⟨?_, ?_, Routine.storesAndReturns_definition, ?_⟩
  · intro k bits offset hsum hno
    exact Kind.field?_eq_none fun shape hshape hfield =>
      hno ⟨shape, hshape, (IntShape.hasField_iff hsum).1 hfield⟩
  · intro k shape bits offset hshape hpos hle
    have hfield : shape.HoldsField bits offset := ⟨hpos, hle, Kind.width_le_of_intShape? hshape⟩
    exact ⟨_, _, _, Kind.fieldMask?_eq_some hshape hfield.hasField,
      Kind.fieldShifts?_eq_some hshape hfield.hasField, shape.contains_wrap _,
      storesField_storeBits hfield⟩
  · intro env s s' f usage type position bits offset address v x hs hbits hsum h
    obtain ⟨id, scalar, shape, a, y, s₁, s₂, s₃, htype, hget, hshape, hfield, ha, hy, rfl⟩ :=
      yields_storeBits hs hbits h
    refine ⟨id, scalar, shape, a, y, _, _, _, _, s₁, s₂, s₃, htype, hget, hshape, ha, hy, rfl,
      fun value word => ?_⟩
    obtain ⟨hpos, hle⟩ := (IntShape.hasField_iff hsum).1 hfield
    have hwidth : shape.bits ≤ 64 := Kind.width_le_of_intShape? (k := .scalar scalar) hshape
    exact storesField_storeBits ⟨hpos, hle, hwidth⟩ (y.word value) word

/-- A store into the upper half of a word. -/
def upperHalfStore : Shape :=
  .store 16 16 (.mk .null (some ⟨14⟩) .unknown [])
    (.mk (.const32 3) (some TypeTable.int32) .unknown [])

/-- The upper half of a word with a sign has a negative mask, and a store into it is written. -/
theorem upper_half_stored_exactly :
    (∃ left right, (Kind.scalar .int32).fieldMask? 16 16 = some (-65536) ∧
      (Kind.scalar .int32).fieldShifts? 16 16 = some (left, right) ∧ ∀ v word : BitVec 32,
        @IntShape.StoresField ⟨true, 32⟩ 16 16 v word
          (Routine.storeBits ⟨true, 32⟩ word (v <<< 16) (.ofInt _ (-65536)) left right)) ∧
    ∃ (x a y placed mask : Expr) (left right : Nat) (s' : State),
        Yields intPointers (core idleFrame .value (some TypeTable.int32) .unknown
        upperHalfStore) (.start ⟨8, false⟩) x s' ∧
      x = .callName "storebits_4" [a, placed, mask, .int left, .int right] ∧
      ∀ (value : Expr → BitVec 32) (word : BitVec 32),
        @IntShape.StoresField ⟨true, 32⟩ 16 16 (y.word value) word
        (Routine.storeBits ⟨true, 32⟩ word (placed.word value) (mask.word value) left right) := by
  constructor
  · obtain ⟨mask, left, right, hmask, hshifts, -, hstores⟩ :=
      bit_field_stores_exact.2.1 (.scalar .int32) ⟨true, 32⟩ 16 16 rfl (by omega) (by decide)
    obtain rfl : mask = -65536 := Option.some.inj (hmask.symm.trans (by decide))
    exact ⟨left, right, hmask, hshifts, hstores⟩
  · obtain ⟨x, s', h⟩ :
        ∃ x s',
        Yields intPointers (core idleFrame .value (some TypeTable.int32) .unknown upperHalfStore)
      (.start ⟨8, false⟩) x s' := ⟨_, _, rfl⟩
    obtain ⟨id, scalar, shape, a, y, placed, mask, left, right, -, -, -, hid, hget, hshape, -, -,
        hx, hstores⟩ :=
      bit_field_stores_exact.2.2.2 _ _ _ _ _ _ _ _ _ _ _ _ (faithful_start _)
        (by omega) (by omega) h
    cases hid
    cases hget
    cases hshape
    exact ⟨x, a, y, placed, mask, left, right, s', h, hx, hstores⟩

end Emit
end StackToGo
