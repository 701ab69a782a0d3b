import Mathlib.Data.List.Basic
import StackToGo.Emit.Definition

/-!
# What Go code leaves in a byte buffer

A byte buffer is an array of integers that are one byte wide. There are two ways to fill one: a
literal has the bytes as its items, and the function `Xstrncpy` of the runtime copies them from the
string table, as `strncpy` does in C. This module says what bytes either way leaves, and when the
two leave the same.
-/

namespace StackToGo.Go

/-! ## Literals -/

/-- The byte that a constant is stored as in an item of the given type. A constant out of range is
refused. -/
def byte? : Scalar → Int → Option UInt8
  | .int8, v => if -128 ≤ v ∧ v < 128 then some (.ofInt v) else none
  | .uint8, v => if 0 ≤ v ∧ v < 256 then some (.ofInt v) else none
  | _, _ => none

/-- The byte of an item of a literal. -/
def Element.byte? (s : Scalar) : Element → Option UInt8
  | .next (.int v) => Go.byte? s v
  | _ => none

/-- The bytes that the literal of a byte buffer stands for. Items that are not written are zero. -/
def Expr.bytes? : Expr → Option Bytes
  | .composite (.array items (.scalar s)) elements => do
    let bytes ← elements.mapM (Element.byte? s)
    if bytes.length ≤ items then some (bytes.rightpad items 0) else none
  | _ => none

/-! ## Copies -/

/-- The bytes that `strncpy` writes: those of the source up to a zero byte, and zero bytes from
there on. It fails if it reads beyond the end of the source. -/
def strncpy : Nat → Bytes → Option Bytes
  | 0, _ => some []
  | _ + 1, [] => none
  | count + 1, b :: rest =>
    if b = 0 then some (List.replicate (count + 1) 0) else (strncpy count rest).map (b :: ·)

/-- The bytes of the string table from the place on that an expression points to. It fails outside
of the table. -/
def Expr.source? (table : Bytes) : Expr → Option Bytes
  | .call (.name "str") [.int n] =>
    if 0 ≤ n ∧ n < table.length then some (table.drop n.toNat) else none
  | _ => none

/-- The array whose first item an expression points to, as a pointer to signed bytes. -/
def Expr.buffer? : Expr → Option String
  | .addressOf (.index (.name array) 0) => some array
  | .cast (.pointer (.scalar .int8))
      (.call (.select (.name "unsafe") "Pointer") [.addressOf (.index (.name array) 0)]) =>
        some array
  | _ => none

/-- The bytes of the array `name`, which were `buffer` before, after a copy from the string table.
An array without items has no first item, and no more bytes are copied than the array has. -/
def Stmt.fill? (runtime : String) (table : Bytes) (name : String) (buffer : Bytes) :
    Stmt → Option Bytes
  | .eval (.call (.select (.name package) "Xstrncpy") [start, source, .int count]) =>
    if package = runtime ∧ start.buffer? = some name ∧ 0 < buffer.length ∧ 0 ≤ count ∧
        count ≤ buffer.length then do
      let copied ← strncpy count.toNat (← source.source? table)
      return copied ++ buffer.drop count.toNat
    else none
  | _ => none

/-! ## Literals of strings -/

/-- The byte of an integer is given by its remainder. -/
theorem ofInt_eq_of_emod {v : Int} {b : UInt8} (h : v % 256 = b.toNat) : UInt8.ofInt v = b := by
  have hnat : (v % 2 ^ 8).toNat = b.toNat := by
    rw [show (2 : Int) ^ 8 = 256 from rfl, h, Int.toNat_natCast]
  rw [UInt8.ofInt, hnat, UInt8.ofNat_toNat]

/-- A byte, wrapped to the type of the items, is stored as itself. -/
theorem exists_wrap_byte {s : Scalar} (hs : (Kind.scalar s).isByte) (b : UInt8) :
    ∃ v, (Kind.scalar s).wrap? b.toNat = some v ∧ byte? s v = some b := by
  have hsmall := b.toNat_lt
  have hmod := Int.bmod_emod (x := b.toNat) (m := 256)
  cases s <;> try exact absurd hs (by decide)
  case int8 =>
    have hle := Int.le_bmod (x := b.toNat) (m := 256) (by decide)
    have hlt := Int.bmod_lt (x := b.toNat) (m := 256) (by decide)
    have hbyte : UInt8.ofInt ((b.toNat : Int).bmod 256) = b := ofInt_eq_of_emod (by omega)
    refine ⟨(b.toNat : Int).bmod 256, by simp [Kind.wrap?, Kind.intShape?, Scalar.intShape?,
      IntShape.wrap], ?_⟩
    rw [byte?, if_pos (by omega), hbyte]
  case uint8 =>
    have hbyte : UInt8.ofInt ((b.toNat : Int) % 256) = b := ofInt_eq_of_emod (by omega)
    refine ⟨(b.toNat : Int) % 256, by simp [Kind.wrap?, Kind.intShape?, Scalar.intShape?,
      IntShape.wrap], ?_⟩
    rw [byte?, if_pos (by omega), hbyte]

/-- The items for the bytes of a string are read as these bytes. -/
theorem mapM_stringItems {s : Scalar} (hs : (Kind.scalar s).isByte) (bytes : Bytes) :
    (Emit.stringItems (.scalar s) bytes).mapM (Element.byte? s) = some bytes := by
  induction bytes with
  | nil => rfl
  | cons b bytes ih =>
    obtain ⟨v, hv, hb⟩ := exists_wrap_byte hs b
    rw [Emit.stringItems] at ih ⊢
    simp [hv, ih, Element.byte?, hb]

/-- The literal for a string stands for its bytes, filled up with zero bytes. -/
theorem bytes?_stringItems {s : Scalar} (hs : (Kind.scalar s).isByte) {items : Nat} {bytes : Bytes}
    (h : bytes.length ≤ items) :
    (Expr.composite (.array items (.scalar s)) (Emit.stringItems (.scalar s) bytes)).bytes? =
      some (bytes.rightpad items 0) := by
  simp [Expr.bytes?, mapM_stringItems hs, h]

/-! ## Copies of strings -/

/-- Nothing but zero bytes follows a zero byte. -/
def EndsAtZero (bytes : Bytes) : Prop := ∀ b ∈ bytes.dropWhile (· ≠ 0), b = 0

instance (bytes : Bytes) : Decidable (EndsAtZero bytes) :=
  List.decidableBAll (fun b => b = 0) (bytes.dropWhile fun b => decide (b ≠ 0))

/-- A text that begins with a zero byte ends there just if there is nothing else. -/
theorem endsAtZero_cons_zero {bytes : Bytes} : EndsAtZero (0 :: bytes) ↔ ∀ b ∈ bytes, b = 0 := by
  simp [EndsAtZero]

/-- A byte other than zero in front changes nothing. -/
theorem endsAtZero_cons_of_ne {b : UInt8} (hb : b ≠ 0) {bytes : Bytes} :
    EndsAtZero (b :: bytes) ↔ EndsAtZero bytes := by
  simp [EndsAtZero, hb]

/-- Filling up gives only zero bytes just if there are no others. -/
theorem replicate_eq_rightpad_iff {count : Nat} {bytes : Bytes} (h : bytes.length ≤ count) :
    List.replicate count 0 = bytes.rightpad count 0 ↔ ∀ b ∈ bytes, b = 0 := by
  rw [eq_comm, List.eq_replicate_iff, List.rightpad]
  constructor
  · rintro ⟨-, hzero⟩ b hb
    exact hzero b (List.mem_append_left _ hb)
  · intro hzero
    refine ⟨by simp [h], fun b hb => ?_⟩
    rcases List.mem_append.1 hb with hb | hb
    · exact hzero b hb
    · exact List.eq_of_mem_replicate hb

/-- Filling up bytes leaves the first one. -/
theorem rightpad_cons (count : Nat) (b : UInt8) (bytes : Bytes) :
    (b :: bytes).rightpad (count + 1) 0 = b :: bytes.rightpad count 0 := by
  simp [List.rightpad]

/-- A copy of a string with a zero byte behind it has the bytes of the string just if nothing but
zero bytes follows a zero byte in what is copied. -/
theorem strncpy_eq_some_iff {bytes source : Bytes} (h : bytes ++ [0] <+: source) (count : Nat) :
    strncpy count source = some ((bytes.take count).rightpad count 0) ↔
    EndsAtZero (bytes.take count) := by
  induction count generalizing bytes source with
  | zero => simp [strncpy, EndsAtZero, List.rightpad]
  | succ count ih =>
    obtain ⟨rest, rfl⟩ := h
    cases bytes with
    | nil => simp [strncpy, EndsAtZero, List.rightpad]
    | cons b bytes =>
      rw [List.take_succ_cons, rightpad_cons]
      by_cases hb : b = 0
      · -- The copy ends here.
        rw [hb, endsAtZero_cons_zero,
          ← replicate_eq_rightpad_iff (List.length_take_le count bytes)]
        simp [strncpy, List.replicate_succ]
      · rw [endsAtZero_cons_of_ne hb, ← ih (List.prefix_append (bytes ++ [0]) rest)]
        simp [strncpy, hb]

/-- Where nothing of the string is left, the copy is empty just if a zero byte is found there. -/
theorem strncpy_eq_replicate_iff (source : Bytes) (count : Nat) :
    strncpy (count + 1) source = some (List.replicate (count + 1) 0) ↔ source.head? = some 0 := by
  cases source with
  | nil => simp [strncpy]
  | cons b rest =>
    by_cases hb : b = 0
    · simp [strncpy, hb]
    · simp [strncpy, hb, List.replicate_succ]

/-- The start of a buffer points to the first item of its array. -/
theorem buffer?_bufferStart (name : String) (k : Kind) :
    (Emit.bufferStart name k).buffer? = some name := by
  rw [Emit.bufferStart]
  split <;> rfl

/-- The copy of a string fills the array as `strncpy` does, if its place is in the table. -/
theorem fill?_copy {runtime name : String} {start : Expr} (hstart : start.buffer? = some name)
    (table : Bytes) (items n : Nat) :
    (Stmt.eval (.call (.select (.name runtime) "Xstrncpy") [start, .stringAt n, .int items])).fill?
      runtime table name
        (List.replicate items 0) =
      if 0 < items ∧ n < table.length then strncpy items (table.drop n) else none := by
  have hsource : (Expr.stringAt n).source? table = if n <
      table.length then some (table.drop n) else none := by
    simp [Expr.stringAt, Expr.callName, Expr.source?]
  by_cases hitems : 0 < items
  · by_cases hn : n < table.length
    · simp [Stmt.fill?, hstart, hsource, hitems, hn]
    · simp [Stmt.fill?, hstart, hsource, hn]
  · simp [Stmt.fill?, hitems]

end StackToGo.Go
