import Mathlib.Data.List.Nodup
import StackToGo.Identifier

/-!
# Identifiers are legal and tell names apart

`encode` can be read back: the first character tells exported names from the others, a digit after
`_` tells the locals of a nested block from the rest, and what follows is a sequence of single
copied characters and escapes of three characters. So the bytes of a name, its export flag and its
scope are all determined by the identifier.

A cache only ever holds the spelling of its keys under the dictionary, and a dictionary only grows
by new byte strings. Hence two identifiers that one cache gives out are equal exactly if they are
made from the same key, whatever was interned or asked for in between.
-/

namespace StackToGo

/-! ## Characters -/

namespace Text

/-- Different digits have different characters. -/
theorem digitChar_inj {m n : Nat} (hm : m < 16) (hn : n < 16)
    (h : Nat.digitChar m = Nat.digitChar n) : m = n := by
  have hall : ∀ i j : Fin 16, Nat.digitChar i = Nat.digitChar j → i = j := by decide
  exact Fin.mk.inj_iff.1 (hall ⟨m, hm⟩ ⟨n, hn⟩ h)

/-- Hexadecimal digits are letters or digits. -/
theorem isAlphanum_hexDigit (n place : Nat) : (hexDigit n place).isAlphanum := by
  have hall : ∀ i : Fin 16, (Nat.digitChar i).isAlphanum := by decide
  exact hall ⟨n / Nat.pow 16 place % 16, Nat.mod_lt _ (by decide)⟩

/-- A byte is determined by its two digits. -/
theorem hexByte_inj {b c : UInt8} (h : hexByte b = hexByte c) : b = c := by
  obtain ⟨hhigh, hlow⟩ := List.cons.inj h
  have high : b.toNat / 16 % 16 = c.toNat / 16 % 16 :=
    digitChar_inj (Nat.mod_lt _ (by decide)) (Nat.mod_lt _ (by decide)) hhigh
  have low : b.toNat / 1 % 16 = c.toNat / 1 % 16 :=
    digitChar_inj (Nat.mod_lt _ (by decide)) (Nat.mod_lt _ (by decide)) (List.cons.inj hlow).1
  have hb := b.toNat_lt
  have hc := c.toNat_lt
  apply UInt8.toNat_inj.1
  omega

end Text

namespace Identifier

/-- The character that a byte is copied as. -/
theorem toNat_ofNat_byte (b : UInt8) : (Char.ofNat b.toNat).toNat = b.toNat := by
  have hb := b.toNat_lt
  rw [Char.ofNat, dif_pos (Or.inl (by omega))]
  rfl

/-- The bytes that are copied, by their ranges. -/
theorem isCopied_iff {front : Bool} {b : UInt8} : isCopied front b = true ↔
    (0x41 ≤ b.toNat ∧ b.toNat ≤ 0x5A) ∨ (0x61 ≤ b.toNat ∧ b.toNat ≤ 0x7A) ∨ b.toNat = 0x5F ∨
      front = false ∧ 0x30 ≤ b.toNat ∧ b.toNat ≤ 0x39 := by
  simp only [isCopied, isLetter, isDigit, Bool.or_eq_true, Bool.and_eq_true,
    decide_eq_true_eq, beq_iff_eq, Bool.not_eq_true', UInt8.le_iff_toNat_le,
    ← UInt8.toNat_inj, or_assoc]
  rfl

/-- What may stand in an identifier after its first character. -/
def IsPart (c : Char) : Prop := c.isAlphanum ∨ c = '_' ∨ c = escapeMark

/-- A legal identifier of two or more characters that begins as the identifiers of names do. -/
def IsLegal (text : String) : Prop :=
  ∃ first rest, text.toList = first :: rest ∧ (first = 'X' ∨ first = '_') ∧ rest ≠ [] ∧
    ∀ c ∈ rest, IsPart c

/-- The characters of ASCII letters are letters. -/
theorem isAlphanum_ofNat {n : Nat} (h : (0x41 ≤ n ∧ n ≤ 0x5A) ∨ (0x61 ≤ n ∧ n ≤ 0x7A)) :
    (Char.ofNat n).isAlphanum := by
  have hall : ∀ i : Fin 128, (0x41 ≤ i.val ∧ i.val ≤ 0x5A) ∨ (0x61 ≤ i.val ∧ i.val ≤ 0x7A) →
    (Char.ofNat i.val).isAlphanum := by decide +kernel
  exact hall ⟨n, by omega⟩ h

/-- Digits may stand in an identifier. -/
theorem isPart_of_isDigit {c : Char} (h : c.isDigit) : IsPart c :=
  .inl (by simp [Char.isAlphanum, h])

/-- The bytes that are copied may stand in an identifier. -/
theorem isPart_of_isCopied {front : Bool} {b : UInt8} (h : isCopied front b) :
    IsPart (Char.ofNat b.toNat) := by
  have hc := toNat_ofNat_byte b
  rcases isCopied_iff.1 h with hb | hb | hb | ⟨-, hb⟩
  · exact .inl (isAlphanum_ofNat (.inl hb))
  · exact .inl (isAlphanum_ofNat (.inr hb))
  · exact .inr (.inl (Char.toNat_inj.1 (hc.trans hb)))
  · exact isPart_of_isDigit (Char.isDigit_iff_toNat.2 (by rw [hc]; exact hb))

/-- The mark of an escape is never copied from a name. -/
theorem ofNat_ne_escapeMark {front : Bool} {b : UInt8} (h : isCopied front b) :
    Char.ofNat b.toNat ≠ escapeMark := by
  intro heq
  have hmark : b.toNat = 0xD8 := (toNat_ofNat_byte b).symm.trans (congrArg Char.toNat heq)
  rcases isCopied_iff.1 h with hb | hb | hb | ⟨-, hb⟩ <;> omega

/-! ## Reading identifiers back -/

/-- All that a byte is spelled with may stand in an identifier. -/
theorem isPart_of_mem_encodeByte {front : Bool} {b : UInt8} {c : Char}
    (h : c ∈ encodeByte front b) : IsPart c := by
  unfold encodeByte at h
  split at h
  case isTrue hb => exact List.mem_singleton.1 h ▸ isPart_of_isCopied hb
  case isFalse =>
    simp only [Text.hexByte, List.mem_cons, List.not_mem_nil, or_false] at h
    rcases h with rfl | rfl | rfl
    · exact .inr (.inr rfl)
    · exact .inl (Text.isAlphanum_hexDigit _ _)
    · exact .inl (Text.isAlphanum_hexDigit _ _)

/-- Where a written byte ends is visible, and so is the byte. -/
theorem encodeByte_append_inj {front : Bool} {b c : UInt8} {rest rest' : List Char}
    (h : encodeByte front b ++ rest = encodeByte front c ++ rest') : b = c ∧ rest = rest' := by
  unfold encodeByte at h
  split at h <;> split at h
  case isTrue.isTrue hb hc =>
    obtain ⟨hchar, hrest⟩ := List.cons.inj h
    refine ⟨UInt8.toNat_inj.1 ?_, hrest⟩
    rw [← toNat_ofNat_byte b, ← toNat_ofNat_byte c, hchar]
  case isTrue.isFalse hb _ => exact absurd (List.cons.inj h).1 (ofNat_ne_escapeMark hb)
  case isFalse.isTrue _ hc => exact absurd (List.cons.inj h).1.symm (ofNat_ne_escapeMark hc)
  case isFalse.isFalse =>
    obtain ⟨hhex, hrest⟩ := List.append_inj (List.cons.inj h).2 (by simp)
    exact ⟨Text.hexByte_inj hhex, hrest⟩

/-- No byte is spelled with nothing. -/
theorem encodeByte_ne_nil (front : Bool) (b : UInt8) : encodeByte front b ≠ [] := by
  unfold encodeByte
  split <;> simp

/-- Bytes behind the first are told by their spelling. -/
theorem flatMap_encodeByte_inj {a b : Bytes}
    (h : a.flatMap (encodeByte false) = b.flatMap (encodeByte false)) : a = b := by
  induction a generalizing b with
  | nil =>
    cases b with
    | nil => rfl
    | cons y b => exact absurd (List.append_eq_nil_iff.1 h.symm).1 (encodeByte_ne_nil _ _)
  | cons x a ih =>
    cases b with
    | nil => exact absurd (List.append_eq_nil_iff.1 h).1 (encodeByte_ne_nil _ _)
    | cons y b =>
      obtain ⟨rfl, hrest⟩ := encodeByte_append_inj h
      rw [ih hrest]

/-- Byte strings are told by their spelling. -/
theorem encodeBytes_inj {a b : Bytes} (h : encodeBytes a = encodeBytes b) : a = b := by
  cases a with
  | nil =>
    cases b with
    | nil => rfl
    | cons y b => exact absurd (List.append_eq_nil_iff.1 h.symm).1 (encodeByte_ne_nil _ _)
  | cons x a =>
    cases b with
    | nil => exact absurd (List.append_eq_nil_iff.1 h).1 (encodeByte_ne_nil _ _)
    | cons y b =>
      obtain ⟨rfl, hrest⟩ := encodeByte_append_inj h
      rw [flatMap_encodeByte_inj hrest]

/-- The digit of a name that begins with one is escaped. -/
theorem not_isDigit_encodeBytes {name : Bytes} {c : Char} {rest : List Char}
    (h : encodeBytes name = c :: rest) : ¬c.isDigit := by
  cases name with
  | nil => cases h
  | cons b name =>
    simp only [encodeBytes, encodeByte] at h
    split at h
    case isTrue hb =>
      obtain ⟨rfl, -⟩ := List.cons.inj h
      rw [Char.isDigit_iff_toNat, toNat_ofNat_byte]
      rintro ⟨hlow : 48 ≤ b.toNat, hhigh : b.toNat ≤ 57⟩
      rcases isCopied_iff.1 hb with hb | hb | hb | ⟨hfront, -⟩
      · omega
      · omega
      · omega
      · cases hfront
    case isFalse =>
      obtain ⟨rfl, -⟩ := List.cons.inj h
      decide

/-- Numbers followed by a mark that is no digit are told apart, and so is what comes after them. -/
theorem toDigits_append_inj {mark : Char} (hmark : mark.isDigit = false) {m n : Nat}
    {rest rest' : List Char}
    (h : Nat.toDigits 10 m ++ mark :: rest = Nat.toDigits 10 n ++ mark :: rest') :
    m = n ∧ rest = rest' := by
  have hdigits : ∀ (k : Nat) (tail : List Char),
      (Nat.toDigits 10 k ++ mark :: tail).takeWhile Char.isDigit = Nat.toDigits 10 k := by
    intro k tail
    rw [List.takeWhile_append_of_pos fun c hc =>
      Nat.isDigit_of_mem_toDigits (by decide) (by decide) hc,
        List.takeWhile_cons_of_neg (by simp [hmark]), List.append_nil]
  have heq : Nat.toDigits 10 m = Nat.toDigits 10 n := by rw [← hdigits m rest, h, hdigits]
  constructor
  · rw [← Nat.ofDigitChars_ten_toDigits (n := m), heq, Nat.ofDigitChars_ten_toDigits]
  · rw [heq] at h
    exact (List.cons.inj (List.append_cancel_left h)).2

/-- The opening of an unexported name in no block is never taken for that of one in a block. -/
theorem encodeBytes_ne_toDigits_append {name : Bytes} {n : Nat} {rest : List Char} :
    encodeBytes name ≠ Nat.toDigits 10 n ++ rest := by
  intro h
  obtain ⟨c, digits, hd⟩ := List.exists_cons_of_ne_nil (Nat.toDigits_ne_nil (n := n) (b := 10))
  rw [hd, List.cons_append] at h
  refine not_isDigit_encodeBytes h (Nat.isDigit_of_mem_toDigits (b := 10) (n := n) (by decide)
    (by decide) ?_)
  rw [hd]
  exact List.mem_cons_self

/-! ## Identifiers and their names -/

/-- There is an identifier for every name that is not empty, except for exported names in a
block. -/
theorem encode_eq_ok_iff {name : Bytes} {exported : Bool} {scope : Scope} {text : String} :
    encode name exported scope = .ok text ↔ name ≠ [] ∧ (exported = true → scope = none) ∧
      text = String.ofList (opening exported scope ++ encodeBytes name) := by
  unfold encode
  cases name with
  | nil => simp
  | cons b name =>
    cases exported with
    | false => cases scope <;> simp [eq_comm]
    | true => cases scope <;> simp [eq_comm]

/-- The bytes, the linkage and the scope are told by the identifier. -/
theorem encode_inj {a b : Bytes} {ea eb : Bool} {sa sb : Scope} {text : String}
    (ha : encode a ea sa = .ok text) (hb : encode b eb sb = .ok text) :
    a = b ∧ ea = eb ∧ sa = sb := by
  obtain ⟨-, hsa, hta⟩ := encode_eq_ok_iff.1 ha
  obtain ⟨-, hsb, htb⟩ := encode_eq_ok_iff.1 hb
  have h : opening ea sa ++ encodeBytes a = opening eb sb ++ encodeBytes b := by
    rw [← String.toList_ofList (l := opening ea sa ++ encodeBytes a), ← hta, htb,
      String.toList_ofList]
  cases ea <;> cases eb
  case true.true =>
    rw [hsa rfl, hsb rfl]
    exact ⟨encodeBytes_inj (List.cons.inj h).2, rfl, rfl⟩
  case true.false => cases sb <;> exact absurd (List.cons.inj h).1 (by decide)
  case false.true => cases sa <;> exact absurd (List.cons.inj h).1 (by decide)
  case false.false =>
    -- Both begin with `_`; a scope shows as a digit after it.
    cases sa with
    | none =>
      cases sb with
      | none => exact ⟨encodeBytes_inj (List.cons.inj h).2, rfl, rfl⟩
      | some n =>
        simp only [opening, List.cons_append, List.cons.injEq, true_and, List.nil_append,
          List.append_assoc] at h
        exact absurd h encodeBytes_ne_toDigits_append
    | some m =>
      cases sb with
      | none =>
        simp only [opening, List.cons_append, List.cons.injEq, true_and, List.nil_append,
          List.append_assoc] at h
        exact absurd h.symm encodeBytes_ne_toDigits_append
      | some n =>
        simp only [opening, List.cons_append, List.cons.injEq, true_and, List.nil_append,
          List.append_assoc] at h
        obtain ⟨rfl, hbytes⟩ := toDigits_append_inj (by decide) h
        exact ⟨encodeBytes_inj hbytes, rfl, rfl⟩

/-- All that a name is spelled with may stand in an identifier. -/
theorem isPart_of_mem_encodeBytes {name : Bytes} {c : Char} (h : c ∈ encodeBytes name) :
    IsPart c := by
  cases name with
  | nil => cases h
  | cons b name =>
    rcases List.mem_append.1 h with h | h
    · exact isPart_of_mem_encodeByte h
    · obtain ⟨d, -, hd⟩ := List.mem_flatMap.1 h
      exact isPart_of_mem_encodeByte hd

/-- Only the empty name is spelled with nothing. -/
theorem encodeBytes_ne_nil {name : Bytes} (h : name ≠ []) : encodeBytes name ≠ [] := by
  cases name with
  | nil => exact absurd rfl h
  | cons b name => exact List.append_ne_nil_of_left_ne_nil (encodeByte_ne_nil true b) _

/-- Identifiers are legal. -/
theorem isLegal_of_encode {name : Bytes} {exported : Bool} {scope : Scope} {text : String}
    (h : encode name exported scope = .ok text) : IsLegal text := by
  obtain ⟨hname, -, rfl⟩ := encode_eq_ok_iff.1 h
  have hpart : ∀ c ∈ encodeBytes name, IsPart c := fun c => isPart_of_mem_encodeBytes
  have hne := encodeBytes_ne_nil hname
  rw [IsLegal, String.toList_ofList]
  cases exported with
  | true => exact ⟨'X', encodeBytes name, rfl, .inl rfl, hne, hpart⟩
  | false =>
    cases scope with
    | none => exact ⟨'_', encodeBytes name, rfl, .inr rfl, hne, hpart⟩
    | some n =>
      refine ⟨'_', Nat.toDigits 10 n ++ ['_'] ++ encodeBytes name, rfl, .inr rfl, ?_,
        fun c hc => ?_⟩
      · exact List.append_ne_nil_of_right_ne_nil _ hne
      · rw [List.append_assoc, List.mem_append, List.singleton_append, List.mem_cons] at hc
        rcases hc with hc | rfl | hc
        · exact isPart_of_isDigit (Nat.isDigit_of_mem_toDigits (by decide) (by decide) hc)
        · exact .inr (.inl rfl)
        · exact hpart c hc

end Identifier

/-! ## Dictionaries -/

namespace Dictionary

/-- Each byte string has one id. -/
def Distinct (d : Dictionary) : Prop := d.entries.Nodup

/-- The empty dictionary has each byte string once. -/
theorem distinct_empty : empty.Distinct := List.nodup_singleton []

/-- Interning keeps each byte string to one id. -/
theorem Distinct.intern {d : Dictionary} (hd : d.Distinct) (bytes : Bytes) :
    (d.intern bytes).2.Distinct := by
  unfold Dictionary.intern
  split
  case h_1 => exact hd
  case h_2 hnone =>
    have hnew : bytes ∉ d.entries := List.idxOf?_eq_none_iff.1 hnone
    exact List.nodup_append.2 ⟨hd, List.nodup_singleton bytes, fun a ha b hb hab => by
      rw [List.mem_singleton] at hb
      exact hnew (hb ▸ hab ▸ ha)⟩

/-- Interning a list keeps each byte string to one id. -/
theorem Distinct.foldl_intern {d : Dictionary} (hd : d.Distinct) (list : List Bytes) :
    (list.foldl (fun d bytes => (d.intern bytes).2) d).Distinct := by
  induction list generalizing d with
  | nil => exact hd
  | cons bytes list ih => exact ih (hd.intern bytes)

/-- The dictionary of a list has each byte string once. -/
theorem distinct_ofList (list : List Bytes) : (ofList list).Distinct :=
  distinct_empty.foldl_intern list

/-- The bytes of an id are the entry at its place. -/
theorem bytes_eq_ok_iff {d : Dictionary} {id : Nat} {b : Bytes} :
    d.bytes id = .ok b ↔ d.entries[id]? = some b := by
  unfold Dictionary.bytes
  split
  case h_1 b' hget => rw [hget, Except.ok.injEq, Option.some.injEq]
  case h_2 hget => simp [hget]

/-- Ids keep their byte strings. -/
theorem bytes_intern {d : Dictionary} {id : Nat} {b : Bytes} (h : d.bytes id = .ok b)
    (new : Bytes) : (d.intern new).2.bytes id = .ok b := by
  unfold Dictionary.intern
  split
  case h_1 => exact h
  case h_2 =>
    rw [bytes_eq_ok_iff] at h ⊢
    have hlt : id < d.entries.length := (List.getElem?_eq_some_iff.1 h).1
    rw [List.getElem?_append_left hlt, h]

/-- The empty string keeps its id. -/
theorem bytes_zero_ofList (list : List Bytes) : (ofList list).bytes 0 = .ok [] := by
  have hfold : ∀ d : Dictionary, d.bytes 0 = .ok [] →
      (list.foldl (fun d bytes => (d.intern bytes).2) d).bytes 0 = .ok [] := by
    induction list with
    | nil => exact fun d hd => hd
    | cons bytes list ih => exact fun d hd => ih _ (bytes_intern hd bytes)
  exact hfold empty rfl

/-- Different ids have different bytes. -/
theorem Distinct.bytes_inj {d : Dictionary} (hd : d.Distinct) {i j : Nat} {b : Bytes}
    (hi : d.bytes i = .ok b) (hj : d.bytes j = .ok b) : i = j := by
  rw [bytes_eq_ok_iff] at hi hj
  have hlt : i < d.entries.length := (List.getElem?_eq_some_iff.1 hi).1
  exact (List.getElem?_inj hlt hd).1 (hi.trans hj.symm)

end Dictionary

/-! ## Caches -/

namespace Identifier

/-- What a key is spelled as under a dictionary. -/
def spelling (dict : Dictionary) (key : Key) : Except Error String := do
  encode (← dict.nameBytes key.name) key.exported key.scope

/-- A spelling is the encoding of the bytes of its name. -/
theorem spelling_eq_ok_iff {dict : Dictionary} {key : Key} {text : String} :
    spelling dict key = .ok text ↔
      ∃ bytes, dict.bytes key.name.val = .ok bytes ∧
      encode bytes key.exported key.scope = .ok text := by
  unfold spelling Dictionary.nameBytes
  cases dict.bytes key.name.val with
  | error e => simp [bind, Except.bind]
  | ok bytes => simp [bind, Except.bind]

/-- Spellings are legal identifiers. -/
theorem isLegal_of_spelling {dict : Dictionary} {key : Key} {text : String}
    (h : spelling dict key = .ok text) : IsLegal text := by
  obtain ⟨bytes, -, hencode⟩ := spelling_eq_ok_iff.1 h
  exact isLegal_of_encode hencode

/-- Spellings stay when a byte string is interned. -/
theorem spelling_intern {dict : Dictionary} {key : Key} {text : String}
    (h : spelling dict key = .ok text) (new : Bytes) :
    spelling (dict.intern new).2 key = .ok text := by
  obtain ⟨bytes, hbytes, hencode⟩ := spelling_eq_ok_iff.1 h
  exact spelling_eq_ok_iff.2 ⟨bytes, Dictionary.bytes_intern hbytes new, hencode⟩

/-- Keys of one dictionary are spelled alike only if they are the same. -/
theorem spelling_inj {dict : Dictionary} (hd : dict.Distinct) {k k' : Key} {text : String}
    (h : spelling dict k = .ok text) (h' : spelling dict k' = .ok text) : k = k' := by
  obtain ⟨bytes, hbytes, hencode⟩ := spelling_eq_ok_iff.1 h
  obtain ⟨bytes', hbytes', hencode'⟩ := spelling_eq_ok_iff.1 h'
  obtain ⟨rfl, hexported, hscope⟩ := encode_inj hencode hencode'
  have hid : k.name.val = k'.name.val := hd.bytes_inj hbytes hbytes'
  obtain ⟨⟨i⟩, exported, scope⟩ := k
  obtain ⟨⟨j⟩, exported', scope'⟩ := k'
  obtain rfl : i = j := hid
  obtain rfl : exported = exported' := hexported
  obtain rfl : scope = scope' := hscope
  rfl

/-- A cache answers from its entries, and otherwise spells the key and keeps the text. -/
theorem perform_identifier (dict : Dictionary) (key : Key) (cache : Cache) :
    (Cache.identifier dict key).perform cache =
      match cache.entries.lookup key with
      | some text => (.ok text, cache)
      | none => match spelling dict key with
        | .ok text => (.ok text, ⟨cache.entries ++ [(key, text)]⟩)
        | .error e => (.error e, cache) := by
  rw [Cache.identifier, Action.perform_bind, Action.perform_get]
  dsimp only
  cases cache.entries.lookup key with
  | some text => rfl
  | none =>
    unfold spelling
    cases dict.nameBytes key.name with
    | error e => rfl
    | ok bytes =>
      show (liftM (encode bytes key.exported key.scope) >>= fun text => _ :
          Action Cache String).perform cache =
        match encode bytes key.exported key.scope with
        | .ok text => (.ok text, ⟨cache.entries ++ [(key, text)]⟩)
        | .error e => (.error e, cache)
      rw [Action.perform_bind, Action.perform_liftExcept]
      cases encode bytes key.exported key.scope with
      | error e => rfl
      | ok text => rfl

/-- The entries of a cache are spellings under the dictionary. -/
def Cache.Sound (dict : Dictionary) (cache : Cache) : Prop :=
  ∀ entry ∈ cache.entries, spelling dict entry.1 = .ok entry.2

/-- What the users of a dictionary and a cache do with them. -/
inductive Request where
  | intern (bytes : Bytes)
  | ask (key : Key)
  deriving DecidableEq, Repr

/-- Answers requests in order: the keys that were asked for, each with its identifier or the
error. -/
def answers : List Request → Dictionary → Cache → List (Key × Except Error String)
  | [], _, _ => []
  | .intern bytes :: later, dict, cache => answers later (dict.intern bytes).2 cache
  | .ask key :: later, dict, cache =>
    let (answer, cache') := (Cache.identifier dict key).perform cache
    (key, answer) :: answers later dict cache'

/-- The dictionary after requests. -/
def dictionaryAfter : List Request → Dictionary → Dictionary
  | [], dict => dict
  | .intern bytes :: later, dict => dictionaryAfter later (dict.intern bytes).2
  | .ask _ :: later, dict => dictionaryAfter later dict

/-- A cache stays sound when a byte string is interned. -/
theorem Cache.Sound.intern {dict : Dictionary} {cache : Cache} (h : cache.Sound dict)
    (bytes : Bytes) : cache.Sound (dict.intern bytes).2 :=
  fun entry hentry => spelling_intern (h entry hentry) bytes

/-- A sound cache stays sound, and what it answers is the spelling of the key. -/
theorem Cache.Sound.identifier {dict : Dictionary} {cache : Cache} (h : cache.Sound dict)
    (key : Key) :
    (((Cache.identifier dict key).perform cache).2).Sound dict ∧
      ((Cache.identifier dict key).perform cache).1 = spelling dict key := by
  rw [perform_identifier]
  cases hlookup : cache.entries.lookup key with
  | some text =>
    obtain ⟨front, back, hsplit, -⟩ := List.lookup_eq_some_iff.1 hlookup
    exact ⟨h, (h (key, text) (by rw [hsplit]; simp)).symm⟩
  | none =>
    cases hspelling : spelling dict key with
    | error e => exact ⟨h, rfl⟩
    | ok text =>
      refine ⟨fun entry hentry => ?_, rfl⟩
      rcases List.mem_append.1 hentry with hentry | hentry
      · exact h entry hentry
      · rw [List.mem_singleton.1 hentry]
        exact hspelling

/-- Spellings stay whatever is asked for. -/
theorem spelling_dictionaryAfter {requests : List Request} {dict : Dictionary} {key : Key}
    {text : String} (h : spelling dict key = .ok text) :
    spelling (dictionaryAfter requests dict) key = .ok text := by
  induction requests generalizing dict with
  | nil => exact h
  | cons request later ih =>
    cases request with
    | intern bytes => exact ih (spelling_intern h bytes)
    | ask key' => exact ih h

/-- Each byte string keeps to one id whatever is asked for. -/
theorem distinct_dictionaryAfter {requests : List Request} {dict : Dictionary}
    (h : dict.Distinct) : (dictionaryAfter requests dict).Distinct := by
  induction requests generalizing dict with
  | nil => exact h
  | cons request later ih =>
    cases request with
    | intern bytes => exact ih (h.intern bytes)
    | ask key => exact ih h

/-- Every identifier that was given out is the spelling of its key under the final dictionary. -/
theorem spelling_of_mem_answers {requests : List Request} {dict : Dictionary} {cache : Cache}
    {key : Key} {text : String} (h : cache.Sound dict)
    (hmem : (key, .ok text) ∈ answers requests dict cache) :
    spelling (dictionaryAfter requests dict) key = .ok text := by
  induction requests generalizing dict cache with
  | nil => cases hmem
  | cons request later ih =>
    cases request with
    | intern bytes => exact ih (h.intern bytes) hmem
    | ask key' =>
      obtain ⟨hsound, hanswer⟩ := h.identifier key'
      rcases List.mem_cons.1 hmem with heq | hlater
      · obtain ⟨rfl, heq⟩ := Prod.mk.inj heq
        exact spelling_dictionaryAfter (hanswer.symm.trans heq.symm)
      · exact ih hsound hlater

/-- Identifiers are legal, two names share one only if they agree in their bytes, their export flag
and their scope, and two that one cache gives out are equal exactly if their keys are. -/
theorem identifiers_legal_and_distinct :
    (∀ name exported scope, (∃ text, encode name exported scope = .ok text) ↔
      name ≠ [] ∧ (exported = true → scope = none)) ∧
    (∀ a b ea eb sa sb text, encode a ea sa = .ok text → encode b eb sb = .ok text →
      a = b ∧ ea = eb ∧ sa = sb) ∧
    (∀ name exported scope text, encode name exported scope = .ok text → IsLegal text) ∧
    ∀ requests key key' text text',
      (key, .ok text) ∈ answers requests Dictionary.empty Cache.empty →
      (key', .ok text') ∈ answers requests Dictionary.empty Cache.empty →
      (text = text' ↔ key = key') := by
  refine ⟨fun name exported scope => ?_, fun a b ea eb sa sb text => encode_inj,
    fun name exported scope text => isLegal_of_encode, fun requests key key' text text' h h' => ?_⟩
  · simp [encode_eq_ok_iff]
  · have hsound : Cache.empty.Sound Dictionary.empty := fun entry hentry => by cases hentry
    have hdistinct : (dictionaryAfter requests Dictionary.empty).Distinct :=
      distinct_dictionaryAfter Dictionary.distinct_empty
    have hspelling := spelling_of_mem_answers hsound h
    have hspelling' := spelling_of_mem_answers hsound h'
    constructor
    · rintro rfl
      exact spelling_inj hdistinct hspelling hspelling'
    · rintro rfl
      exact Except.ok.inj (hspelling.symm.trans hspelling')

/-- A local `a` of block 3, and a name `3_a` that is interned after its identifier was made. -/
def similarNames : List Request :=
  [.intern [0x61], .ask ⟨⟨1⟩, false, some 3⟩, .intern [0x33, 0x5F, 0x61], .ask ⟨⟨2⟩, false, none⟩]

/-- A name that looks like a local of a block is spelled otherwise. -/
theorem similarNames_distinct :
    encode [0x61] false (some 3) = .ok "_3_a" ∧ IsLegal "_3_a" ∧
      answers similarNames Dictionary.empty Cache.empty =
        [(⟨⟨1⟩, false, some 3⟩, .ok "_3_a"), (⟨⟨2⟩, false, none⟩, .ok "_Ø33_a")] ∧
      ("_3_a" = "_Ø33_a" ↔ (⟨⟨1⟩, false, some 3⟩ : Key) = ⟨⟨2⟩, false, none⟩) := by
  obtain ⟨-, -, hlegal, hkeys⟩ := identifiers_legal_and_distinct
  have hanswers : answers similarNames Dictionary.empty Cache.empty =
    [(⟨⟨1⟩, false, some 3⟩, .ok "_3_a"), (⟨⟨2⟩, false, none⟩, .ok "_Ø33_a")] := rfl
  refine ⟨rfl, hlegal [0x61] false (some 3) "_3_a" rfl, hanswers, hkeys similarNames _ _ _ _ ?_ ?_⟩
  · rw [hanswers]
    exact List.mem_cons_self
  · rw [hanswers]
    exact List.mem_cons_of_mem _ List.mem_cons_self

end Identifier
end StackToGo
