import Mathlib.Data.Nat.Digits.Lemmas
import StackToGo.Proofs.Emit.Faithful
import StackToGo.Proofs.Integer

/-!
# Initial values of unions

A union is initialized by the bytes of one member, in the order of the target, with zero bytes
behind them. What is written for a member is its pattern (`MemberPattern`): an integer modulo the
number of patterns of its width, a float in the precision of the member, or the null pointer.
`union_bytes_in_target_order`: a value is accepted just if it has a pattern for the member and the
member fits, and the first bytes, read in the order of the target, are the pattern.
-/

namespace StackToGo

/-! ## Bytes of numbers -/

/-- The number that bytes stand for, the most significant one first or last. -/
def readBytes (bigEndian : Bool) (bytes : Bytes) : Nat :=
  Nat.ofDigits 256 ((if bigEndian then bytes.reverse else bytes).map UInt8.toNat)

namespace Emit

/-- The lowest bytes of a number, the lowest first. -/
def lowBytes : Nat → Nat → Bytes
  | 0, _ => []
  | width + 1, n => (n % 256).toUInt8 :: lowBytes width (n / 256)

/-- There are as many bytes as were asked for. -/
@[simp] theorem length_lowBytes (width n : Nat) : (lowBytes width n).length = width := by
  induction width generalizing n with
  | zero => rfl
  | succ width ih => rw [lowBytes, List.length_cons, ih]

/-- The lowest bytes of a number stand for its remainder. -/
theorem ofDigits_lowBytes (width n : Nat) :
    Nat.ofDigits 256 ((lowBytes width n).map UInt8.toNat) = n % 256 ^ width := by
  induction width generalizing n with
  | zero => simp [lowBytes, Nat.mod_one]
  | succ width ih =>
    have hbyte : (n % 256).toUInt8.toNat = n % 256 := by simp
    rw [lowBytes, List.map_cons, Nat.ofDigits_cons, ih, hbyte, Nat.pow_succ', Nat.mod_mul]

/-- The byte at each place is what is left when the number is shifted down. -/
theorem lowBytes_eq_map (width n : Nat) :
    lowBytes width n = (List.range width).map fun place => (n >>> (8 * place)).toUInt8 := by
  induction width generalizing n with
  | zero => rfl
  | succ width ih =>
    have hshift (place : Nat) : (n / 256) >>> (8 * place) = n >>> (8 * (place + 1)) := by
      rw [Nat.mul_succ, Nat.add_comm, Nat.shiftRight_add, Nat.shiftRight_eq_div_pow n 8]
    have hbyte : (n % 256).toUInt8 = (n >>> (8 * 0)).toUInt8 := by simp [← UInt8.toNat_inj]
    rw [lowBytes, ih, List.range_succ_eq_map, List.map_cons, List.map_map, hbyte]
    simp only [hshift, Function.comp_def]

/-- A word from its highest byte down is the word from its lowest byte up, reversed. -/
theorem bigEndianBytes_eq_reverse (word : Nat) :
    bigEndianBytes word = (littleEndianBytes word).reverse := rfl

section

variable {bigEndian : Bool} {size width bits : Nat}

/-- The first bytes of a word, from its lowest byte up. -/
theorem take_littleEndianBytes (h : width ≤ 8) :
    (littleEndianBytes bits).take width = lowBytes width bits := by
  rw [littleEndianBytes, ← List.map_take, List.take_range, Nat.min_eq_left h, lowBytes_eq_map]

/-- The last bytes of a word, from its highest byte down. -/
theorem drop_bigEndianBytes (h : width ≤ 8) :
    (bigEndianBytes bits).drop (8 - width) = (lowBytes width bits).reverse := by
  have hlength : (littleEndianBytes bits).length = 8 := rfl
  rw [bigEndianBytes_eq_reverse, ← take_littleEndianBytes h, List.reverse_take, hlength]

/-- The lowest bytes of the bits in the order of the target, and zero bytes behind them. -/
theorem unionBytes_eq (h : width ≤ 8) : unionBytes bigEndian size width bits =
    (if bigEndian then (lowBytes width bits).reverse else lowBytes width bits) ++
      List.replicate (size - width) 0 := by
  rw [unionBytes, take_littleEndianBytes h, drop_bigEndianBytes h, List.drop_replicate]

/-- The bytes of the member come first. -/
theorem take_unionBytes (h : width ≤ 8) : (unionBytes bigEndian size width bits).take width =
    if bigEndian then (lowBytes width bits).reverse else lowBytes width bits := by
  rw [unionBytes_eq h, List.take_left']
  split <;> simp

/-- Zero bytes follow the member. -/
theorem drop_unionBytes (h : width ≤ 8) :
    (unionBytes bigEndian size width bits).drop width = List.replicate (size - width) 0 := by
  rw [unionBytes_eq h, List.drop_left']
  split <;> simp

/-- There are as many bytes as the union has. -/
theorem length_unionBytes (h : width ≤ 8) (hfits : width ≤ size) :
    (unionBytes bigEndian size width bits).length = size := by
  rw [unionBytes_eq h, List.length_append, List.length_replicate]
  split <;> simp [hfits]

/-- The bytes of the member stand for the lowest bits. -/
theorem readBytes_take_unionBytes (h : width ≤ 8) :
    readBytes bigEndian ((unionBytes bigEndian size width bits).take width) =
      bits % 256 ^ width := by
  rw [take_unionBytes h, readBytes, ← ofDigits_lowBytes]
  cases bigEndian <;> simp

end

/-! ## Patterns of members -/

/-- What is written for a value in a member of the given kind and width in bytes. -/
inductive MemberPattern (width : Nat) : Kind → Value → Nat → Prop
  | integer {k : Kind} {v : Value} {n : Int} (hk : k.isInteger) (hv : v.integer? = some n) :
      MemberPattern width k v (n % 2 ^ (8 * width)).toNat
  | float32 (bits : UInt32) : MemberPattern width (.scalar .float32) (.float32 bits) bits.toNat
  | narrowed (bits : UInt64) :
      MemberPattern width (.scalar .float32) (.float64 bits) (Number.narrow bits).toNat
  | float64 (bits : UInt64) : MemberPattern width (.scalar .float64) (.float64 bits) bits.toNat
  | widened (bits : UInt32) :
      MemberPattern width (.scalar .float64) (.float32 bits) (Number.widen bits).toNat
  | null {v : Value} (hv : v.integer? = some 0) : MemberPattern width .pointer v 0

/-- An integer of 64 bits has the lowest bytes of the integer that it was made of. -/
theorem toNat_emod_word (n : Int) {width : Nat} (hwidth : width ≤ 8) :
    (n % 0x10000000000000000).toNat % 256 ^ width = (n % 2 ^ (8 * width)).toNat := by
  have hpow : (256 : Int) ^ width = 2 ^ (8 * width) := by rw [Int.pow_mul]; rfl
  have hdvd : (256 : Int) ^ width ∣ 0x10000000000000000 := by
    rw [show (0x10000000000000000 : Int) = 256 ^ 8 from rfl]
    exact pow_dvd_pow 256 hwidth
  zify
  rw [Int.toNat_of_nonneg (Int.emod_nonneg _ (by decide)), Int.emod_emod_of_dvd _ hdvd, hpow,
    Int.toNat_of_nonneg (Int.emod_nonneg _ (by positivity))]

/-- The bits that are taken for a member are its pattern, as far as it is wide. -/
theorem memberPattern_of_memberBits? {k : Kind} {v : Value} {width bits : Nat} (hwidth : width ≤ 8)
    (hscalar : ∀ s, k = .scalar s → width = s.size) (h : memberBits? k v = some bits) :
    MemberPattern width k v (bits % 256 ^ width) := by
  have hsingle (b : UInt32) (hk : k = .scalar .float32) : b.toNat % 256 ^ width = b.toNat := by
    rw [hscalar .float32 hk]
    exact Nat.mod_eq_of_lt b.toNat_lt
  have hdouble (b : UInt64) (hk : k = .scalar .float64) : b.toNat % 256 ^ width = b.toNat := by
    rw [hscalar .float64 hk]
    exact Nat.mod_eq_of_lt b.toNat_lt
  unfold memberBits? at h
  split at h
  case h_1 b =>
    cases h
    rw [hsingle b rfl]
    exact .float32 b
  case h_2 b =>
    cases h
    rw [hsingle _ rfl]
    exact .narrowed b
  case h_3 b =>
    cases h
    rw [hdouble b rfl]
    exact .float64 b
  case h_4 b =>
    cases h
    rw [hdouble _ rfl]
    exact .widened b
  case h_5 n | h_6 n =>
    obtain ⟨rfl, rfl⟩ : n = 0 ∧ 0 = bits := by simpa using h
    rw [Nat.zero_mod]
    exact .null rfl
  case h_7 n _ | h_8 n _ =>
    obtain ⟨hk, rfl⟩ : k.isInteger ∧ (n.toInt % 0x10000000000000000).toNat = bits :=
      by simpa using h
    rw [toNat_emod_word _ hwidth]
    exact .integer hk rfl
  case h_9 => cases h

/-- What can be written in a member has bits. -/
theorem MemberPattern.isSome_memberBits? {k : Kind} {v : Value} {width pattern : Nat}
    (h : MemberPattern width k v pattern) : (memberBits? k v).isSome := by
  cases h with
  | float32 | narrowed | float64 | widened => rfl
  | null hv =>
    cases v with
    | int32 n =>
      have hn : n = 0 := Int32.toInt_inj.1 (Option.some.inj hv)
      simp [memberBits?, hn]
    | int64 n =>
      have hn : n = 0 := Int64.toInt_inj.1 (Option.some.inj hv)
      simp [memberBits?, hn]
    | _ => cases hv
  | integer hk hv =>
    cases v with
    | int32 n | int64 n =>
      cases k with
      | scalar s => simp [memberBits?, hk]
      | _ => cases hk
    | _ => cases hv

/-! ## Members of unions -/

/-- The bytes begin with the value, as a member of the given type. -/
def BeginsWith (env : Env) (member : TypeId) (v : Value) (bytes : Bytes) (width : Nat) : Prop :=
  ∃ k pattern, env.program.types.kind member = .ok k ∧
    env.program.types.sizeOf env.target member = .ok width ∧
    MemberPattern width k v pattern ∧ width ≤ 8 ∧ width ≤ bytes.length ∧
    readBytes env.target.bigEndian (bytes.take width) = pattern

variable {env : Env} {s s' : State} {member : TypeId} {v : Value} {size : Nat}
  {position : Position} {bytes : Bytes}

/-- An integer in a member of its own width is read back, wrapped. -/
theorem BeginsWith.readBytes_integer {width : Nat} {k : Kind} {n : Int}
    (h : BeginsWith env member v bytes width) (hkind : env.program.types.kind member = .ok k)
    (hk : k.isInteger) (hsize : env.program.types.sizeOf env.target member = .ok size)
    (hv : v.integer? = some n) :
    readBytes env.target.bigEndian (bytes.take size) = (n % 2 ^ (8 * size)).toNat := by
  obtain ⟨k', pattern, hkind', hwidth, hpattern, -, -, hread⟩ := h
  obtain rfl := Except.ok.inj (hkind.symm.trans hkind')
  obtain rfl := Except.ok.inj (hsize.symm.trans hwidth)
  rw [hread]
  cases hpattern with
  | integer _ hv' =>
    obtain rfl := Option.some.inj (hv.symm.trans hv')
    rfl
  | _ => cases hk

/-- The size of a scalar type. -/
theorem sizeOf_scalar {table : TypeTable} {target : Target} {id : TypeId} {scalar : Scalar}
    (h : table.get id = .ok (.scalar scalar)) : table.sizeOf target id = .ok scalar.size := by
  rw [TypeTable.sizeOf, TypeTable.extent, TypeTable.extentWithin, h]

/-- In a faithful state a union gives the bytes of its member, if these are known and fit. -/
theorem yields_unionValue (hs : Faithful env s) :
    (∃ s', Yields env (unionValue member v size position) s bytes s') ↔
      ∃ k width bits, env.program.types.kind member = .ok k ∧
        env.program.types.sizeOf env.target member = .ok width ∧
        memberBits? k v = some bits ∧ width ≤ 8 ∧ width ≤ size ∧
        unionBytes env.target.bigEndian size width bits = bytes := by
  unfold unionValue
  constructor
  · intro ⟨s', h⟩
    obtain ⟨k, _, hk, h⟩ := yields_bind.1 h
    obtain ⟨hkind, rfl⟩ := yields_kind.1 hk
    obtain ⟨width, s₁, hwidth, h⟩ := yields_bind.1 h
    have hsize := hs.yields_sizeOf.1 ⟨s₁, hwidth⟩
    cases hbits : memberBits? k v with
    | none =>
      rw [hbits] at h
      exact absurd h not_yields_unsupported
    | some bits =>
      rw [hbits] at h
      by_cases hwide : (width > 8 || width > size) = true
      · simp only [hwide, if_true] at h
        exact absurd h not_yields_unsupported
      · simp only [hwide] at h
        obtain ⟨_, _, henv, h⟩ := yields_bind.1 h
        obtain ⟨rfl, rfl⟩ := yields_read.1 henv
        obtain ⟨rfl, -⟩ := yields_pure.1 h
        simp only [Bool.or_eq_true, decide_eq_true_eq, not_or, Nat.not_lt, gt_iff_lt] at hwide
        exact ⟨k, width, bits, hkind, hsize, hbits, hwide.1, hwide.2, rfl⟩
  · intro ⟨k, width, bits, hkind, hsize, hbits, height, hfits, hbytes⟩
    obtain ⟨s', hwidth⟩ := hs.yields_sizeOf.2 hsize
    have hwide : (width > 8 || width > size) = false := by simp [height, hfits]
    refine ⟨s', yields_bind.2 ⟨k, s, yields_kind.2 ⟨hkind, rfl⟩,
      yields_bind.2 ⟨width, s', hwidth, ?_⟩⟩⟩
    simp only [hbits, hwide]
    exact yields_bind.2 ⟨env, s', yields_read.2 ⟨rfl, rfl⟩, yields_pure.2 ⟨hbytes, rfl⟩⟩

/-- The bytes of a union begin with the member, and zero bytes follow. -/
theorem beginsWith_of_yields (hs : Faithful env s)
    (h : Yields env (unionValue member v size position) s bytes s') :
    ∃ width, BeginsWith env member v bytes width ∧ bytes.length = size ∧
      bytes.drop width = List.replicate (size - width) 0 := by
  obtain ⟨k, width, bits, hkind, hsize, hbits, height, hfits, rfl⟩ :=
    (yields_unionValue hs).1 ⟨s', h⟩
  have hscalar (scalar : Scalar) (hk : k = .scalar scalar) : width = scalar.size := by
    subst hk
    rw [sizeOf_scalar (get_of_kind_scalar hkind)] at hsize
    exact (Except.ok.inj hsize).symm
  have hlength : (unionBytes env.target.bigEndian size width bits).length = size :=
    length_unionBytes height hfits
  exact ⟨width, ⟨k, _, hkind, hsize, memberPattern_of_memberBits? height hscalar hbits, height,
    hfits.trans_eq hlength.symm, readBytes_take_unionBytes height⟩, hlength,
      drop_unionBytes height⟩

/-- A value is accepted just if it has a pattern for the member, and the member fits. -/
theorem exists_yields_unionValue (hs : Faithful env s) :
    (∃ bytes s', Yields env (unionValue member v size position) s bytes s') ↔
      ∃ k width pattern, env.program.types.kind member = .ok k ∧
        env.program.types.sizeOf env.target member = .ok width ∧
        MemberPattern width k v pattern ∧ width ≤ 8 ∧
        width ≤ size := by
  constructor
  · intro ⟨bytes, s', h⟩
    obtain ⟨width, ⟨k, pattern, hkind, hsize, hpattern, height, hfits, -⟩, hlength, -⟩ :=
      beginsWith_of_yields hs h
    exact ⟨k, width, pattern, hkind, hsize, hpattern, height, hlength ▸ hfits⟩
  · intro ⟨k, width, pattern, hkind, hsize, hpattern, height, hfits⟩
    obtain ⟨bits, hbits⟩ := Option.isSome_iff_exists.1 hpattern.isSome_memberBits?
    exact ⟨_, (yields_unionValue hs).2 ⟨k, width, bits, hkind, hsize, hbits, height, hfits, rfl⟩⟩

/-- Sizes do not depend on the order of bytes. -/
theorem sizeOf_congr_order (table : TypeTable) {target target' : Target}
    (h : target.pointerSize = target'.pointerSize) (id : TypeId) :
    table.sizeOf target id = table.sizeOf target' id := by
  have hextent (depth : Nat) :
      table.extentWithin target depth = table.extentWithin target' depth := by
    induction depth with
    | zero => rfl
    | succ depth ih =>
      funext id
      simp only [TypeTable.extentWithin, ih, h]
  rw [TypeTable.sizeOf, TypeTable.sizeOf, TypeTable.extent, TypeTable.extent, hextent]

/-- For every member of a union of `n` bytes, every value and both byte orders: the value is
accepted just if it has a pattern for the member, which has to be no wider than eight bytes and the
union. The result has `n` bytes, of which the first, as many as the member is wide, are the pattern
when they are read in the order of the target, and the others are zero. On targets that differ in
the order only, the bytes of the member are reversed. -/
theorem union_bytes_in_target_order (member : TypeId) (v : Value) (n : Nat) (position : Position) :
    (∀ (env : Env) (s : State), Faithful env s →
      ((∃ bytes s', Yields env (unionValue member v n position) s bytes s') ↔
        ∃ k width pattern, env.program.types.kind member = .ok k ∧
          env.program.types.sizeOf env.target member = .ok width ∧
          MemberPattern width k v pattern ∧ width ≤ 8 ∧
          width ≤ n)) ∧
    (∀ (env : Env) (s s' : State) (bytes : Bytes), Faithful env s →
      Yields env (unionValue member v n position) s bytes s' →
      ∃ k width pattern, env.program.types.kind member = .ok k ∧
        env.program.types.sizeOf env.target member = .ok width ∧
        MemberPattern width k v pattern ∧ width ≤ 8 ∧
        width ≤ n ∧ bytes.length = n ∧
        readBytes env.target.bigEndian (bytes.take width) = pattern ∧
        bytes.drop width = List.replicate (n - width) 0) ∧
    ∀ (env env' : Env) (s s' t t' : State) (little big : Bytes), Faithful env s → Faithful env' t →
      env.program.types = env'.program.types → env.target.pointerSize = env'.target.pointerSize →
      env.target.bigEndian = false → env'.target.bigEndian = true →
      Yields env (unionValue member v n position) s little s' →
      Yields env' (unionValue member v n position) t big t' →
      ∃ width, env.program.types.sizeOf env.target member = .ok width ∧
        big.take width = (little.take width).reverse ∧
        big.drop width = little.drop width := by
  refine ⟨fun env s hs => exists_yields_unionValue hs, ?_, ?_⟩
  · intro env s s' bytes hs h
    obtain ⟨width, ⟨k, pattern, hkind, hsize, hpattern, height, hfits, hread⟩, hlength, hrest⟩ :=
      beginsWith_of_yields hs h
    exact ⟨k, width, pattern, hkind, hsize, hpattern, height, hlength ▸ hfits,
      hlength, hread, hrest⟩
  · intro env env' s s' t t' little big hs ht htypes hpointer horder horder' hlittle hbig
    obtain ⟨k, width, bits, hkind, hsize, hbits, height, -, rfl⟩ :=
      (yields_unionValue hs).1 ⟨s', hlittle⟩
    obtain ⟨k', width', bits', hkind', hsize', hbits', -, -, rfl⟩ :=
      (yields_unionValue ht).1 ⟨t', hbig⟩
    rw [htypes] at hkind
    obtain rfl : k = k' := Except.ok.inj (hkind.symm.trans hkind')
    obtain rfl : bits = bits' := Option.some.inj (hbits.symm.trans hbits')
    obtain rfl : width = width' := by
      rw [← htypes, ← sizeOf_congr_order _ hpointer, hsize] at hsize'
      exact Except.ok.inj hsize'
    refine ⟨width, hsize, ?_, ?_⟩
    · rw [take_unionBytes height, take_unionBytes height, horder, horder']
      rfl
    · rw [drop_unionBytes height, drop_unionBytes height]

/-- A union of two words and a long one, an array of three of them, and a struct with a number and
the array. -/
def taggedUnions (bigEndian : Bool) : Env where
  dict := .ofList []
  program :=
    ⟨TypeTable.empty.internEach [.union [TypeTable.int32, TypeTable.uint32, TypeTable.uint64],
    .array ⟨14⟩ 3, .struct [TypeTable.int32, ⟨15⟩]], []⟩
  target := ⟨8, bigEndian⟩
  options := {}
  qualifier := fun _ _ => ""

/-- A negative number in a member of four bytes, at the start of a union of eight. -/
theorem negative_member_bytes : ∃ little big s t,
    Yields (taggedUnions false) (unionValue TypeTable.int32 (.int64 (-2)) 8 .unknown)
      (.start ⟨8, false⟩) little s ∧
    Yields (taggedUnions true) (unionValue TypeTable.int32 (.int64 (-2)) 8 .unknown)
      (.start ⟨8, true⟩) big t ∧
    readBytes false (little.take 4) = 0xFFFFFFFE ∧ big.take 4 = (little.take 4).reverse ∧
    little.drop 4 = [0, 0, 0, 0] := by
  obtain ⟨haccepts, hbytes, hreversed⟩ :=
    union_bytes_in_target_order TypeTable.int32 (.int64 (-2)) 8 .unknown
  have hsize (bigEndian : Bool) :
      (taggedUnions bigEndian).program.types.sizeOf (taggedUnions bigEndian).target
        TypeTable.int32 = .ok 4 :=
    rfl
  have hyields (bigEndian : Bool) := (haccepts (taggedUnions bigEndian) _ (faithful_start _)).2
    ⟨.scalar .int32, 4, _, rfl, hsize bigEndian, .integer rfl rfl, by omega, by omega⟩
  obtain ⟨little, s, hlittle⟩ := hyields false
  obtain ⟨big, t, hbig⟩ := hyields true
  obtain ⟨k, width, pattern, hkind, hwidth, hpattern, -, -, -, hread, hrest⟩ :=
    hbytes (taggedUnions false) _ s little (faithful_start _) hlittle
  obtain ⟨width', hwidth', hreverse, -⟩ :=
    hreversed (taggedUnions false) (taggedUnions true) _ s _ t little big
    (faithful_start _) (faithful_start _) rfl rfl rfl rfl hlittle hbig
  obtain rfl : 4 = width := Except.ok.inj ((hsize false).symm.trans hwidth)
  obtain rfl : 4 = width' := Except.ok.inj ((hsize false).symm.trans hwidth')
  obtain rfl : .scalar .int32 = k := Except.ok.inj hkind
  cases hpattern with
  | integer _ hv =>
    cases hv
    exact ⟨little, big, s, t, hlittle, hbig, hread, hreverse, hrest⟩

end Emit
end StackToGo
