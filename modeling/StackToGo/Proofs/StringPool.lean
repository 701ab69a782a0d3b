import Mathlib.Data.List.Infix
import Mathlib.Logic.Relation
import StackToGo.StringPool

/-!
# What the string pool holds

A request for the offset of a literal either finds it in the pool, or places it behind all others,
or fails; the pool only ever grows (`StringPool.Extends`). In a pool that requests lead to each
literal lies at its offset and is followed by a zero byte (`StringPool.Sound`), so it still does in
every later pool.
-/

namespace StackToGo.StringPool

open StackToGo.Action

section

variable {dict : Dictionary} {p p' p'' : StringPool}

/-- The pool after a new literal. -/
def place (p : StringPool) (id : StringId) (bytes : Bytes) : StringPool :=
  { p.pad with data := p.pad.data ++ bytes ++ [0], offsets := p.offsets ++ [(id, p.nextOffset)] }

/-- What a request for an offset does. -/
theorem perform_offset (dict : Dictionary) (id : StringId) (p : StringPool) :
    perform (offset dict id) p = match p.offsets.lookup id, dict.stringBytes id with
      | some start, _ => (.ok start, p)
      | none, .ok bytes => (.ok p.nextOffset, p.place id bytes)
      | none, .error e => (.error e, p.pad) := by
  unfold offset
  rw [perform_bind, perform_get]
  dsimp only
  cases p.offsets.lookup id with
  | some start => rfl
  | none =>
    simp only [perform_bind, perform_get, perform_modify, perform_liftExcept]
    cases dict.stringBytes id <;> rfl

/-- The later pool has all bytes and offsets of the earlier one. -/
structure Extends (p p' : StringPool) : Prop where
  data : p.data <+: p'.data
  offsets : ∀ id start, p.offsets.lookup id = some start → p'.offsets.lookup id = some start

/-- A pool extends itself. -/
theorem Extends.refl (p : StringPool) : p.Extends p := ⟨List.prefix_rfl, fun _ _ h => h⟩

/-- Extensions of extensions are extensions. -/
theorem Extends.trans (h : p.Extends p') (h' : p'.Extends p'') : p.Extends p'' :=
  ⟨h.data.trans h'.data, fun id start hlookup => h'.offsets id start (h.offsets id start hlookup)⟩

/-- Padding only adds to the pool. -/
theorem extends_pad (p : StringPool) : p.Extends p.pad := ⟨List.prefix_append _ _, fun _ _ h => h⟩

/-- A new literal only adds to the pool. -/
theorem extends_place (p : StringPool) (id : StringId) (bytes : Bytes) :
    p.Extends (p.place id bytes) where
  data := (extends_pad p).data.trans ((List.prefix_append _ _).trans (List.prefix_append _ _))
  offsets := fun id' start h => by simp [place, List.lookup_append, h]

/-- A request only adds to the pool. -/
theorem extends_offset (dict : Dictionary) (id : StringId) (p : StringPool) :
    p.Extends (perform (offset dict id) p).2 := by
  rw [perform_offset]
  split
  · exact .refl p
  · exact extends_place p id _
  · exact extends_pad p

/-- An offset that is given is the one that the pool has then. -/
theorem lookup_of_offset {id : StringId} {start : Nat}
    (h : (perform (offset dict id) p).1 = .ok start) :
    (perform (offset dict id) p).2.offsets.lookup id = some start := by
  rw [perform_offset] at h ⊢
  split at h
  case h_1 hlookup =>
    cases h
    exact hlookup
  case h_2 hlookup hbytes =>
    cases h
    simp [place, List.lookup_append, hlookup]
  case h_3 => cases h

/-- The pool after some requests for offsets, whether they fail or not. -/
def Requests (dict : Dictionary) : StringPool → StringPool → Prop :=
  Relation.ReflTransGen fun p p' => ∃ id, (perform (offset dict id) p).2 = p'

/-- A single request is one of the requests. -/
theorem requests_offset (dict : Dictionary) (id : StringId) (p : StringPool) :
    Requests dict p (perform (offset dict id) p).2 := .single ⟨id, rfl⟩

/-- Requests only add to the pool. -/
theorem Requests.extends (h : Requests dict p p') : p.Extends p' := by
  induction h with
  | refl => exact .refl p
  | tail _ hstep ih =>
    obtain ⟨id, rfl⟩ := hstep
    exact ih.trans (extends_offset dict id _)

/-- The literal lies in the data at the offset, with a zero byte behind it. -/
def Holds (data : Bytes) (start : Nat) (bytes : Bytes) : Prop := bytes ++ [0] <+: data.drop start

/-- A literal stays where it is when data is added. -/
theorem Holds.mono {data data' : Bytes} {start : Nat} {bytes : Bytes} (h : Holds data start bytes)
    (hdata : data <+: data') : Holds data' start bytes := List.IsPrefix.trans h (hdata.drop start)

/-- What is left of the literal from one of its bytes on, or from the zero byte behind it, lies in
the data too. -/
theorem Holds.drop {data : Bytes} {start : Nat} {bytes : Bytes} (h : Holds data start bytes)
    {skip : Nat} (hskip : skip ≤ bytes.length) :
    Holds data (start + skip) (bytes.drop skip) ∧ start + skip < data.length := by
  constructor
  · have hdrop := List.IsPrefix.drop h skip
    rwa [List.drop_append_of_le_length hskip, List.drop_drop] at hdrop
  · have hlength := List.IsPrefix.length_le h
    simp only [List.length_append, List.length_singleton, List.length_drop] at hlength
    omega

/-- The place at an offset from the start of a literal is one of its bytes, or the zero byte behind
it. -/
def Within (bytes : Bytes) (offset : Int) : Prop := 0 ≤ offset ∧ offset ≤ bytes.length

/-- A place inside of a literal is inside of the data. -/
theorem Holds.bounds {data : Bytes} {start : Nat} {bytes : Bytes} (h : Holds data start bytes)
    {offset : Int} (hoffset : Within bytes offset) :
    0 ≤ start + offset ∧ start + offset < data.length := by
  obtain ⟨hnonneg, hle⟩ := hoffset
  have hlt := (h.drop (Int.toNat_le.2 hle)).2
  omega

/-- Each literal lies at its offset. -/
structure Sound (dict : Dictionary) (p : StringPool) : Prop where
  align_pos : 0 < p.align
  holds : ∀ id start, p.offsets.lookup id = some start →
    ∃ bytes, dict.stringBytes id = .ok bytes ∧ Holds p.data start bytes

/-- Nothing lies in the empty pool. -/
theorem sound_empty (dict : Dictionary) (align : Nat) : Sound dict (.empty align) where
  align_pos := Nat.lt_of_lt_of_le Nat.one_pos (Nat.le_max_right align 1)
  holds := fun _ _ h => by cases h

/-- A pool is padded exactly to the place of the next literal. -/
theorem length_pad (halign : 0 < p.align) : p.pad.data.length = p.nextOffset := by
  have hle : p.data.length ≤ p.nextOffset := by
    have hdiv := Nat.div_add_mod (p.data.length + p.align - 1) p.align
    have hmod := Nat.mod_lt (p.data.length + p.align - 1) halign
    rw [nextOffset, Nat.mul_comm]
    omega
  simp [pad, hle]

/-- A new literal lies at the next offset. -/
theorem holds_place (halign : 0 < p.align) (id : StringId) (bytes : Bytes) :
    Holds (p.place id bytes).data p.nextOffset bytes := by
  rw [Holds, place, ← length_pad halign, List.append_assoc, List.drop_left]

/-- Padding moves no literal. -/
theorem Sound.pad (h : Sound dict p) : Sound dict p.pad where
  align_pos := h.align_pos
  holds := fun id start hlookup => by
    obtain ⟨bytes, hbytes, hholds⟩ := h.holds id start hlookup
    exact ⟨bytes, hbytes, hholds.mono (extends_pad p).data⟩

/-- A new literal lies at its offset, and the others stay at theirs. -/
theorem Sound.place (h : Sound dict p) {id : StringId} {bytes : Bytes}
    (hbytes : dict.stringBytes id = .ok bytes) :
    Sound dict (p.place id bytes) where
  align_pos := h.align_pos
  holds := fun id' start hlookup => by
    rw [StringPool.place, List.lookup_append, Option.or_eq_some_iff] at hlookup
    rcases hlookup with hold | ⟨-, hnew⟩
    · obtain ⟨bytes', hbytes', hholds⟩ := h.holds id' start hold
      exact ⟨bytes', hbytes', hholds.mono (extends_place p id bytes).data⟩
    · rw [List.lookup_cons] at hnew
      split at hnew
      · rename_i heq
        cases hnew
        rw [beq_iff_eq.1 heq]
        exact ⟨bytes, hbytes, holds_place h.align_pos id bytes⟩
      · cases hnew

/-- A request moves no literal. -/
theorem Sound.offset (h : Sound dict p) (id : StringId) :
    Sound dict (perform (offset dict id) p).2 := by
  rw [perform_offset]
  split
  case h_1 => exact h
  case h_2 hbytes => exact h.place hbytes
  case h_3 => exact h.pad

/-- Requests move no literal. -/
theorem Requests.sound (h : Requests dict p p') (hp : Sound dict p) : Sound dict p' := by
  induction h with
  | refl => exact hp
  | tail _ hstep ih =>
    obtain ⟨id, rfl⟩ := hstep
    exact ih.offset id

/-- A literal that is known is given the offset at which it lies. -/
theorem Sound.exists_offset (h : Sound dict p) {id : StringId} {bytes : Bytes}
    (hbytes : dict.stringBytes id = .ok bytes) :
    ∃ start p', perform (StringPool.offset dict id) p = (.ok start, p') ∧
      p'.offsets.lookup id = some start ∧
      Holds p'.data start bytes := by
  rw [perform_offset, hbytes]
  cases hlookup : p.offsets.lookup id with
  | some start =>
    obtain ⟨bytes', hbytes', hholds⟩ := h.holds id start hlookup
    rw [hbytes] at hbytes'
    cases hbytes'
    exact ⟨start, p, rfl, hlookup, hholds⟩
  | none =>
    refine ⟨p.nextOffset, p.place id bytes, rfl, ?_, holds_place h.align_pos id bytes⟩
    simp [StringPool.place, List.lookup_append, hlookup]

/-! ## The pool in the file -/

/-- A pool with a literal is not empty. -/
theorem isEmpty_of_lookup {id : StringId} {start : Nat} (h : p.offsets.lookup id = some start) :
    p.isEmpty = false := by
  rw [isEmpty, List.isEmpty_eq_false_iff]
  intro hnil
  rw [hnil] at h
  cases h

/-- The declaration of the table. -/
def table (p : StringPool) : String := "var strTab = []byte(\"" ++ escapeBytes p.data ++ "\")"

/-- A pool that is not empty is declared by the accessor and the table. -/
theorem declarations_eq (p : StringPool) :
    p.declarations = if p.isEmpty then [] else [accessor, p.table] :=
  rfl

end

end StackToGo.StringPool
