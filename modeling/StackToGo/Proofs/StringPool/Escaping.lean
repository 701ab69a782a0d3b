import StackToGo.Proofs.Identifier
import StackToGo.Proofs.StringPool

/-!
# The string table denotes the pool

`Go.readLiteral` reads an interpreted Go string literal from behind its opening quote up to the
first quote that no escape holds. A byte that the pool writes is read back as this byte whatever
follows it, so a reader that is between two written bytes is between two bytes of the pool again
after each step. `table_denotes_pool` says what this means for a whole pool: the literal ends at
the quote that closes it and denotes the bytes of the pool, all of them.
-/

namespace StackToGo

namespace Go

/-! ## Reading string literals -/

/-- The value of a hexadecimal digit, of a small or a capital letter alike. -/
def hexValue? (c : Char) : Option Nat :=
  if 0x30 ≤ c.toNat ∧ c.toNat ≤ 0x39 then some (c.toNat - 0x30)
  else if 0x61 ≤ c.toNat ∧ c.toNat ≤ 0x66 then some (c.toNat - 0x61 + 10)
  else if 0x41 ≤ c.toNat ∧ c.toNat ≤ 0x46 then some (c.toNat - 0x41 + 10)
  else none

/-- Reads a string literal from behind its opening quote: the bytes that it denotes, and the text
behind its closing quote. There is none if the line or the text ends before the literal does, or if
a backslash begins none of the escapes for a backslash, for a quote and for a byte. Every other
character stands for itself. -/
def readLiteral : List Char → Option (Bytes × List Char)
  | [] => none
  | '"' :: rest => some ([], rest)
  | '\\' :: '\\' :: rest => do
    let (bytes, behind) ← readLiteral rest
    return (0x5C :: bytes, behind)
  | '\\' :: '"' :: rest => do
    let (bytes, behind) ← readLiteral rest
    return (0x22 :: bytes, behind)
  | '\\' :: 'x' :: high :: low :: rest => do
    let high ← hexValue? high
    let low ← hexValue? low
    let (bytes, behind) ← readLiteral rest
    return (UInt8.ofNat (16 * high + low) :: bytes, behind)
  | c :: rest =>
    if c = '\\' ∨ c = '\n' then none
    else do
      let (bytes, behind) ← readLiteral rest
      return (String.utf8EncodeChar c ++ bytes, behind)

/-- A printable ASCII character. -/
def IsPrintable (c : Char) : Prop := 0x20 ≤ c.toNat ∧ c.toNat ≤ 0x7E

/-- A hexadecimal digit has the value that it was made of. -/
theorem hexValue?_hexDigit (n place : Nat) :
    hexValue? (Text.hexDigit n place) = some (n / Nat.pow 16 place % 16) := by
  have hall : ∀ i : Fin 16, hexValue? (Nat.digitChar i) = some i.val := by decide
  exact hall ⟨n / Nat.pow 16 place % 16, Nat.mod_lt _ (by decide)⟩

/-- Hexadecimal digits are printable. -/
theorem isPrintable_hexDigit (n place : Nat) : IsPrintable (Text.hexDigit n place) := by
  have hall : ∀ i : Fin 16, 0x20 ≤ (Nat.digitChar i).toNat ∧ (Nat.digitChar i).toNat ≤ 0x7E :=
    by decide
  exact hall ⟨n / Nat.pow 16 place % 16, Nat.mod_lt _ (by decide)⟩

/-- A byte is put together from its two digits. -/
theorem ofNat_hexDigits (b : UInt8) :
    UInt8.ofNat (16 * (b.toNat / Nat.pow 16 1 % 16) + b.toNat / Nat.pow 16 0 % 16) = b := by
  have hb := b.toNat_lt
  have hvalue : 16 * (b.toNat / Nat.pow 16 1 % 16) + b.toNat / Nat.pow 16 0 % 16 = b.toNat := by
    show 16 * (b.toNat / 16 % 16) + b.toNat / 1 % 16 = b.toNat
    omega
  rw [hvalue, UInt8.ofNat_toNat]

end Go

namespace StringPool

open StackToGo.Go

/-! ## Escaped bytes -/

/-- A byte that is written as it is. -/
def IsPlain (b : UInt8) : Prop := 0x20 ≤ b.toNat ∧ b.toNat ≤ 0x7E ∧ b.toNat ≠ 0x5C ∧ b.toNat ≠ 0x22

/-- The ways in which a byte is written. -/
theorem escapeByte_cases (b : UInt8) :
    (b = 0x5C ∧ escapeByte b = ['\\', '\\']) ∨ (b = 0x22 ∧ escapeByte b = ['\\', '"']) ∨
      escapeByte b = '\\' :: 'x' :: Text.hexByte b ∨
      (IsPlain b ∧ escapeByte b = [Char.ofNat b.toNat]) := by
  unfold escapeByte
  split
  case isTrue h => exact .inl ⟨h, rfl⟩
  case isFalse hbackslash =>
    split
    case isTrue h => exact .inr (.inl ⟨h, rfl⟩)
    case isFalse hquote =>
      split
      case isTrue => exact .inr (.inr (.inl rfl))
      case isFalse hplain =>
        refine .inr (.inr (.inr ⟨?_, rfl⟩))
        simp only [Bool.or_eq_true, decide_eq_true_eq, not_or, UInt8.le_iff_toNat_le,
          UInt8.lt_iff_toNat_lt] at hplain
        rw [← UInt8.toNat_inj] at hbackslash hquote
        exact ⟨Nat.le_of_not_lt hplain.1, Nat.le_of_lt_succ (Nat.lt_of_not_le hplain.2),
          hbackslash, hquote⟩

/-- A byte is escaped by printable characters. -/
theorem isPrintable_of_mem_escapeByte {b : UInt8} {c : Char} (h : c ∈ escapeByte b) :
    IsPrintable c := by
  have hmark : IsPrintable '\\' ∧ IsPrintable '"' ∧ IsPrintable 'x' := by
    unfold IsPrintable
    decide
  rcases escapeByte_cases b with ⟨-, hb⟩ | ⟨-, hb⟩ | hb | ⟨hplain, hb⟩ <;> rw [hb] at h
  · simp only [List.mem_cons, List.not_mem_nil, or_false, or_self] at h
    exact h ▸ hmark.1
  · simp only [List.mem_cons, List.not_mem_nil, or_false] at h
    rcases h with rfl | rfl
    · exact hmark.1
    · exact hmark.2.1
  · simp only [Text.hexByte, List.mem_cons, List.not_mem_nil, or_false] at h
    rcases h with rfl | rfl | rfl | rfl
    · exact hmark.1
    · exact hmark.2.2
    · exact isPrintable_hexDigit _ _
    · exact isPrintable_hexDigit _ _
  · rw [List.mem_singleton.1 h, IsPrintable, Identifier.toNat_ofNat_byte]
    exact ⟨hplain.1, hplain.2.1⟩

/-- A plain character is no mark of the literal, and stands for its byte. -/
theorem readLiteral_plain {b : UInt8} (h : IsPlain b) (rest : List Char) :
    readLiteral (Char.ofNat b.toNat :: rest) = (readLiteral rest).map fun read =>
      (b :: read.1, read.2) := by
  have hvalue := Identifier.toNat_ofNat_byte b
  obtain ⟨hlow, hhigh, hbackslash, hquote⟩ := h
  generalize Char.ofNat b.toNat = c at hvalue
  have hne (mark : Char) (hmark : b.toNat ≠ mark.toNat) : c ≠ mark := by
    rintro rfl
    exact hmark hvalue.symm
  have hencode : String.utf8EncodeChar c = [b] := by
    have hle : c.val.toNat ≤ 127 := by
      show c.toNat ≤ 127
      omega
    simp only [String.utf8EncodeChar, hle, if_true]
    rw [show c.val.toNat = b.toNat from hvalue, UInt8.ofNat_toNat]
  have hmarks : ¬(c = '\\' ∨ c = '\n') := by
    rintro (hc | hc)
    · exact hne '\\' hbackslash hc
    · exact hne '\n' (by show b.toNat ≠ 10; omega) hc
  rw [readLiteral, if_neg hmarks, hencode]
  · cases readLiteral rest <;> rfl
  · exact hne '"' hquote
  · rintro rest' rfl
    exact absurd (.inl rfl) hmarks
  · rintro rest' rfl
    exact absurd (.inl rfl) hmarks
  · rintro high low rest' rfl
    exact absurd (.inl rfl) hmarks

/-- Whatever follows a written byte, the byte is read first, and then what follows. -/
theorem readLiteral_escapeByte (b : UInt8) (rest : List Char) :
    readLiteral (escapeByte b ++ rest) = (readLiteral rest).map fun read =>
      (b :: read.1, read.2) := by
  rcases escapeByte_cases b with ⟨rfl, hb⟩ | ⟨rfl, hb⟩ | hb | ⟨hplain, hb⟩ <;> rw [hb]
  · show readLiteral ('\\' :: '\\' :: rest) = _
    rw [readLiteral]
    cases readLiteral rest <;> rfl
  · show readLiteral ('\\' :: '"' :: rest) = _
    rw [readLiteral]
    cases readLiteral rest <;> rfl
  · show readLiteral ('\\' :: 'x' :: Text.hexDigit b.toNat 1 :: Text.hexDigit b.toNat 0 :: rest) =
        _
    rw [readLiteral, hexValue?_hexDigit, hexValue?_hexDigit]
    simp only [Option.bind_eq_bind, Option.bind_some, ofNat_hexDigits]
    cases readLiteral rest <;> rfl
  · exact readLiteral_plain hplain rest

/-! ## Escaped byte strings -/

/-- Bytes are escaped one by one. -/
theorem toList_escapeBytes (bytes : Bytes) :
    (escapeBytes bytes).toList = bytes.flatMap escapeByte := by
  rw [escapeBytes, String.toList_ofList]

/-- The literal ends at the quote behind what was written, and not before. -/
theorem readLiteral_escapeBytes (bytes : Bytes) (behind : List Char) :
    readLiteral ((escapeBytes bytes).toList ++ '"' :: behind) = some (bytes, behind) := by
  rw [toList_escapeBytes]
  induction bytes with
  | nil => rfl
  | cons b rest ih =>
    rw [List.flatMap_cons, List.append_assoc, readLiteral_escapeByte, ih, Option.map_some]

/-- Different bytes have different texts. -/
theorem escapeBytes_injective : Function.Injective escapeBytes := by
  intro bytes bytes' h
  have hread := readLiteral_escapeBytes bytes []
  rw [h, readLiteral_escapeBytes bytes' []] at hread
  exact (Prod.mk.inj (Option.some.inj hread)).1.symm

/-- What is written for bytes is printable ASCII. Behind an opening quote it is read up to the
first quote after it, not to one inside of it, and denotes just these bytes; so different bytes are
written differently. The table of a pool with literals is declared by such a literal, which denotes
the bytes of the pool. -/
theorem table_denotes_pool :
    (∀ bytes, ∀ c ∈ (escapeBytes bytes).toList, IsPrintable c) ∧
    (∀ bytes behind, readLiteral ((escapeBytes bytes).toList ++ '"' :: behind) =
      some (bytes, behind)) ∧
    Function.Injective escapeBytes ∧
    ∀ p : StringPool, p.isEmpty = false → ∃ literal, p.declarations = [accessor, p.table] ∧
      p.table.toList = "var strTab = []byte(".toList ++ '"' :: literal ∧
      readLiteral literal = some (p.data, [')']) := by
  refine ⟨fun bytes c hc => ?_, readLiteral_escapeBytes, escapeBytes_injective, fun p hp => ?_⟩
  · rw [toList_escapeBytes] at hc
    obtain ⟨b, -, hc⟩ := List.mem_flatMap.1 hc
    exact isPrintable_of_mem_escapeByte hc
  · refine ⟨(escapeBytes p.data).toList ++ '"' :: [')'], ?_, ?_,
      readLiteral_escapeBytes p.data [')']⟩
    · rw [declarations_eq, if_neg (by simp [hp])]
    · have hopening : "var strTab = []byte(\"".toList = "var strTab = []byte(".toList ++ ['"'] :=
        by decide
      have hclosing : "\")".toList = ['"', ')'] := by decide
      unfold table
      rw [String.toList_append, String.toList_append, hopening, hclosing]
      simp only [List.append_assoc, List.cons_append, List.nil_append]

/-- An escape that hexadecimal digits follow, and a backslash before a quote. -/
example : readLiteral ((escapeBytes [0x00, 0x66, 0x5C, 0x22, 0xFF]).toList ++ ['"']) =
    some ([0x00, 0x66, 0x5C, 0x22, 0xFF], []) := by
  decide

end StringPool

end StackToGo
