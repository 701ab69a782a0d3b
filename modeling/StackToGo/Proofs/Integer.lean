import Mathlib.Algebra.Group.Int.Defs
import Mathlib.Algebra.Group.Nat.Defs
import StackToGo.Integer
import StackToGo.Value

/-!
# Words and the integers they stand for

An integer of a type is a word of its width, read with a sign or without (`IntShape.ofWord`), and
wrapping an integer keeps its word. For a field that lies inside of its word
(`IntShape.HoldsField`) the sum of 32 bits and the word of 64 bits that the mask is made of are
exact (`fieldMask_eq`). The mask and the shifts are then followed bit by bit: the mask selects the
bits of the field, and the shifts bring it to the bottom of the word with its own top bit, or
nothing, in the places above it.
-/

namespace StackToGo

/-- The integer that an initial value or a case is, as it stands in the program. -/
def Value.integer? : Value → Option Int
  | .int32 v => some v.toInt
  | .int64 v => some v.toInt
  | _ => none

namespace IntShape

variable (shape : IntShape)

/-! ## Integers of a shape -/

/-- Is it an integer of this width and signedness? -/
def Contains (n : Int) : Prop :=
  if shape.signed then -2 ^ (shape.bits - 1) ≤ n ∧ n < 2 ^ (shape.bits - 1)
    else 0 ≤ n ∧ n < 2 ^ shape.bits

/-- The integer that a word stands for. -/
def ofWord (word : BitVec shape.bits) : Int := if shape.signed then word.toInt else word.toNat

/-- An integer is wrapped to what its word stands for. -/
theorem wrap_eq_ofWord (v : Int) : shape.wrap v = shape.ofWord (.ofInt _ v) := by
  unfold wrap ofWord
  split
  · exact (BitVec.toInt_ofInt v).symm
  · have hpos : ((2 ^ shape.bits : Nat) : Int) ≠ 0 :=
      Int.natCast_ne_zero.2 (Nat.ne_of_gt (Nat.two_pow_pos _))
    rw [BitVec.toNat_ofInt, Int.toNat_of_nonneg (Int.emod_nonneg _ hpos)]
    rfl

/-- The word of what a word stands for is the word. -/
theorem ofInt_ofWord (word : BitVec shape.bits) :
    BitVec.ofInt shape.bits (shape.ofWord word) = word := by
  unfold ofWord
  split
  · exact BitVec.ofInt_toInt
  · rw [BitVec.ofInt_natCast, BitVec.ofNat_toNat, BitVec.setWidth_eq]

/-- Wrapping keeps the word. -/
theorem ofInt_wrap (v : Int) : BitVec.ofInt shape.bits (shape.wrap v) = .ofInt _ v := by
  rw [wrap_eq_ofWord, ofInt_ofWord]

/-- A word stands for an integer of the shape. -/
theorem contains_ofWord (word : BitVec shape.bits) : shape.Contains (shape.ofWord word) := by
  unfold Contains ofWord
  split
  · exact ⟨BitVec.le_toInt word, BitVec.toInt_lt⟩
  · exact ⟨Int.natCast_nonneg _, by exact_mod_cast word.isLt⟩

/-- A wrapped integer is one of the shape. -/
theorem contains_wrap (v : Int) : shape.Contains (shape.wrap v) := by
  rw [wrap_eq_ofWord]
  exact shape.contains_ofWord _

/-! ## Fields -/

section

variable {shape} {bits offset : Nat}

/-- A field of at least one bit that lies inside of a word of at most 64 bits. -/
structure HoldsField (shape : IntShape) (bits offset : Nat) : Prop where
  nonempty : 1 ≤ bits
  inside : bits + offset ≤ shape.bits
  width_le : shape.bits ≤ 64

/-- Which fields there are, as long as the sum of 32 bits does not overflow. -/
theorem hasField_iff (hsum : bits + offset < 2 ^ 32) :
    shape.hasField bits offset ↔ 1 ≤ bits ∧ bits + offset ≤ shape.bits := by
  have hend : (bits.toUInt32 + offset.toUInt32).toNat = bits + offset := by
    rw [UInt32.toNat_add, UInt32.toNat_ofNat', UInt32.toNat_ofNat', ← Nat.add_mod,
      Nat.mod_eq_of_lt hsum]
  simp [hasField, hend, Nat.one_le_iff_ne_zero]

/-- A field inside of its word is one that there is. -/
theorem HoldsField.hasField (h : shape.HoldsField bits offset) : shape.hasField bits offset := by
  obtain ⟨hpos, hinside, hwidth⟩ := h
  exact (hasField_iff (by omega)).2 ⟨hpos, hinside⟩

/-- Words of 64 bits with the lowest bits set, of which all may be set. -/
theorem toNat_lowBits (h : bits ≤ 64) :
    (if bits = 64 then 0xFFFFFFFFFFFFFFFF else (1 <<< bits.toUInt64) - 1 : UInt64).toNat =
      2 ^ bits - 1 := by
  split
  · rename_i hall
    rw [hall]
    rfl
  · have hlt : bits < 64 := by omega
    have hpow : (1 <<< bits.toUInt64 : UInt64).toNat = 2 ^ bits := by
      rw [UInt64.toNat_shiftLeft, UInt64.toNat_ofNat', Nat.mod_eq_of_lt (by omega : bits < 2 ^ 64),
        Nat.mod_eq_of_lt hlt, Nat.shiftLeft_eq]
      have hsmall : 1 * 2 ^ bits < 2 ^ 64 := by
        rw [Nat.one_mul]
        exact Nat.pow_lt_pow_right (by decide) hlt
      exact (Nat.mod_eq_of_lt hsmall).trans (Nat.one_mul _)
    rw [UInt64.toNat_sub_of_le, hpow]
    · rfl
    · rw [UInt64.le_iff_toNat_le, hpow]
      exact Nat.two_pow_pos bits

/-- Words of 64 bits wrap as the numbers that they are without a sign. -/
theorem wrap_toInt64 (hwidth : shape.bits ≤ 64) (word : UInt64) :
    shape.wrap word.toInt64.toInt = shape.wrap word.toNat := by
  have hword : word.toInt64.toInt = (word.toNat : Int).bmod (2 ^ 64) :=
    BitVec.toInt_eq_toNat_bmod _
  have hdvd : ((2 ^ shape.bits : Nat) : Int) ∣ (2 ^ 64 : Nat) :=
    Int.natCast_dvd_natCast.2 (Nat.pow_dvd_pow 2 hwidth)
  rw [wrap_eq_ofWord, wrap_eq_ofWord, hword]
  refine congrArg shape.ofWord (BitVec.eq_of_toNat_eq ?_)
  rw [BitVec.toNat_ofInt, BitVec.toNat_ofInt, ← Int.emod_emod_of_dvd _ hdvd, Int.bmod_emod,
    Int.emod_emod_of_dvd _ hdvd]

/-- The mask of a field inside of its word is the number with the bits of the field, wrapped. -/
theorem fieldMask_eq (h : shape.HoldsField bits offset) :
    shape.fieldMask bits offset = shape.wrap ((2 ^ bits - 1) * 2 ^ offset : Nat) := by
  obtain ⟨hpos, hinside, hwidth⟩ := h
  have hlt : (2 ^ bits - 1) * 2 ^ offset < 2 ^ 64 :=
    calc (2 ^ bits - 1) * 2 ^ offset < 2 ^ bits * 2 ^ offset :=
          Nat.mul_lt_mul_of_pos_right (Nat.sub_lt (Nat.two_pow_pos bits) Nat.one_pos)
            (Nat.two_pow_pos offset)
      _ = 2 ^ (bits + offset) := (Nat.pow_add 2 bits offset).symm
      _ ≤ 2 ^ 64 := Nat.pow_le_pow_right (by decide) (by omega)
  rw [fieldMask, wrap_toInt64 hwidth, UInt64.toNat_shiftLeft, toNat_lowBits (by omega),
    UInt64.toNat_ofNat', Nat.mod_eq_of_lt (by omega : offset < 2 ^ 64),
    Nat.mod_eq_of_lt (by omega : offset < 64), Nat.shiftLeft_eq, Nat.mod_eq_of_lt hlt]

/-- The mask has the bits of the field. -/
theorem getLsbD_fieldMask (h : shape.HoldsField bits offset) (i : Nat) :
    (BitVec.ofInt shape.bits (shape.fieldMask bits offset)).getLsbD i =
      decide (i < shape.bits ∧ offset ≤ i ∧ i < offset + bits) := by
  rw [fieldMask_eq h, ofInt_wrap, BitVec.ofInt_natCast, BitVec.getLsbD_ofNat,
    Nat.testBit_mul_two_pow, Nat.testBit_two_pow_sub_one, ← Bool.decide_and, ← Bool.decide_and,
    decide_eq_decide]
  omega

/-- The field that a value is stored in, with nothing around it. -/
theorem getLsbD_fieldBits (h : shape.HoldsField bits offset) (v : BitVec shape.bits) (i : Nat) :
    (v <<< offset &&& BitVec.ofInt shape.bits (shape.fieldMask bits offset)).getLsbD i =
      (decide (i < shape.bits ∧ offset ≤ i ∧ i < offset + bits) && v.getLsbD (i - offset)) := by
  rw [BitVec.getLsbD_and, BitVec.getLsbD_shiftLeft, getLsbD_fieldMask h, Bool.eq_iff_iff]
  simp only [Bool.and_eq_true, Bool.not_eq_true', decide_eq_true_eq,
    decide_eq_false_iff_not, Nat.not_lt]
  constructor
  · rintro ⟨⟨-, hbit⟩, hin⟩
    exact ⟨hin, hbit⟩
  · rintro ⟨hin, hbit⟩
    exact ⟨⟨⟨hin.1, hin.2.1⟩, hbit⟩, hin⟩

/-- The field at the top of the word. -/
theorem getLsbD_raisedField (h : shape.HoldsField bits offset) (v : BitVec shape.bits) (i : Nat) :
    ((v <<< offset &&& BitVec.ofInt shape.bits (shape.fieldMask bits offset)) <<<
        (shape.fieldShifts bits offset).1).getLsbD i =
      (decide (i < shape.bits ∧ shape.bits - bits ≤ i) &&
        v.getLsbD (i - (shape.bits - bits))) := by
  have hle := h.inside
  rw [BitVec.getLsbD_shiftLeft, getLsbD_fieldBits h, fieldShifts, Bool.eq_iff_iff]
  simp only [Bool.and_eq_true, Bool.not_eq_true', decide_eq_true_eq,
    decide_eq_false_iff_not, Nat.not_lt]
  have hplace (hi : shape.bits - bits ≤ i) :
      i - (shape.bits - offset - bits) - offset = i - (shape.bits - bits) := by
    omega
  constructor
  · rintro ⟨⟨hi, hleft⟩, hin, hbit⟩
    have htop : shape.bits - bits ≤ i := by omega
    exact ⟨⟨hi, htop⟩, hplace htop ▸ hbit⟩
  · rintro ⟨⟨hi, htop⟩, hbit⟩
    exact ⟨⟨hi, by omega⟩, ⟨by omega, by omega, by omega⟩, hplace htop ▸ hbit⟩

/-- A word moved down; the places above it get its top bit if words have a sign. -/
def shiftRight (shape : IntShape) (word : BitVec shape.bits) (n : Nat) : BitVec shape.bits :=
  if shape.signed then word.sshiftRight n else word >>> n

/-- The bits of a word that was moved down. -/
theorem getLsbD_shiftRight (word : BitVec shape.bits) (n : Nat) {i : Nat} (hi : i < shape.bits) :
    (shape.shiftRight word n).getLsbD i =
      if n + i < shape.bits then word.getLsbD (n + i) else shape.signed && word.msb := by
  unfold shiftRight
  by_cases hsigned : shape.signed
  · rw [if_pos hsigned, BitVec.getLsbD_sshiftRight]
    simp [hsigned, hi]
  · simp only [hsigned, Bool.false_eq_true, if_false, BitVec.getLsbD_ushiftRight, Bool.false_and]
    split
    · rfl
    · exact BitVec.getLsbD_of_ge _ _ (by omega)

/-- The lowest bits of a word, extended to a word again: by the top bit among them if words have a
sign. -/
def extendLow (shape : IntShape) (bits : Nat) (word : BitVec shape.bits) : BitVec shape.bits :=
  if shape.signed then (word.setWidth bits).signExtend shape.bits
    else (word.setWidth bits).setWidth shape.bits

/-- The bits of an extended word. -/
theorem getLsbD_extendLow (hpos : 1 ≤ bits) (word : BitVec shape.bits) {i : Nat}
    (hi : i < shape.bits) :
    (shape.extendLow bits word).getLsbD i =
      if i < bits then word.getLsbD i else shape.signed && word.getLsbD (bits - 1) := by
  unfold extendLow
  by_cases hsigned : shape.signed
  · rw [if_pos hsigned, BitVec.getLsbD_signExtend, BitVec.getLsbD_setWidth,
      BitVec.msb_eq_getLsbD_last, BitVec.getLsbD_setWidth]
    by_cases hin : i < bits
    · simp [hi, hin]
    · have hlast : bits - 1 < bits := by omega
      simp [hi, hin, hlast, hsigned]
  · by_cases hin : i < bits <;> simp [hsigned, hi, hin]

/-- Reading back the field gives the lowest bits of what was stored. -/
theorem shiftRight_raisedField (h : shape.HoldsField bits offset) (v : BitVec shape.bits) :
    shape.shiftRight ((v <<< offset &&& BitVec.ofInt shape.bits (shape.fieldMask bits offset)) <<<
      (shape.fieldShifts bits offset).1) (shape.fieldShifts bits offset).2 =
        shape.extendLow bits v := by
  have hpos := h.nonempty
  have hle := h.inside
  have hraised := getLsbD_raisedField h v
  generalize (v <<< offset &&& BitVec.ofInt shape.bits (shape.fieldMask bits offset)) <<<
    (shape.fieldShifts bits offset).1 = raised at hraised
  have hlow (i : Nat) (hi : i < bits) : raised.getLsbD (shape.bits - bits + i) = v.getLsbD i := by
    have hin : shape.bits - bits + i < shape.bits ∧ shape.bits - bits ≤ shape.bits - bits + i :=
      by omega
    rw [hraised, decide_eq_true hin, Bool.true_and, Nat.add_sub_cancel_left]
  have hmsb : raised.msb = v.getLsbD (bits - 1) := by
    have hlast : shape.bits - 1 = shape.bits - bits + (bits - 1) := by omega
    rw [BitVec.msb_eq_getLsbD_last, hlast, hlow _ (by omega)]
  apply BitVec.eq_of_getLsbD_eq
  intro i hi
  rw [getLsbD_shiftRight _ _ hi, getLsbD_extendLow hpos _ hi, fieldShifts, hmsb]
  by_cases hin : i < bits
  · rw [if_pos hin, if_pos (by omega), hlow i hin]
  · rw [if_neg hin, if_neg (by omega)]

end

end IntShape
end StackToGo
