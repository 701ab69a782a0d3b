import Mathlib.Data.List.Dedup
import StackToGo.Proofs.StringPool

/-!
# Where the literals of a pool lie

However often literals are asked for, and in whatever order, each lies at a multiple of the
alignment, behind the zero byte of the one before it (`StringPool.Spaced`). Later requests only
append to the pool, so that a literal keeps its place. `literals_stay_apart` says so for every
sequence of requests.
-/

namespace StackToGo.StringPool

open StackToGo.Action

/-- The pool after requests for offsets. A request that fails does not end them. -/
def after (dict : Dictionary) (p : StringPool) (ids : List StringId) : StringPool :=
  ids.foldl (fun p id => (perform (offset dict id) p).2) p

/-- The requests for offsets with their answers. -/
def answers (dict : Dictionary) (p : StringPool) :
    List StringId → List (StringId × Except Error Nat)
  | [] => []
  | id :: rest =>
    let outcome := perform (offset dict id) p
    (id, outcome.1) :: answers dict outcome.2 rest

/-- The literals whose requests succeeded, one for each request. -/
def placed (list : List (StringId × Except Error Nat)) : List StringId :=
  (list.filter (·.2.isOk)).map (·.1)

section

variable {dict : Dictionary} {p : StringPool}

/-- Earlier and later requests. -/
theorem after_append (dict : Dictionary) (p : StringPool) (ids later : List StringId) :
    after dict p (ids ++ later) = after dict (after dict p ids) later := List.foldl_append

/-- Requests one after another are requests. -/
theorem requests_after (dict : Dictionary) (p : StringPool) (ids : List StringId) :
    Requests dict p (after dict p ids) := by
  induction ids generalizing p with
  | nil => exact .refl
  | cons id rest ih => exact (requests_offset dict id p).trans (ih _)

/-- Requests one after another only add to the pool. -/
theorem extends_after (dict : Dictionary) (p : StringPool) (ids : List StringId) :
    p.Extends (after dict p ids) :=
  (requests_after dict p ids).extends

/-- A literal that the data holds can be read off it, and so can the zero byte. -/
theorem Holds.bytes_at {data bytes : Bytes} {start : Nat} (h : Holds data start bytes) :
    (data.drop start).take bytes.length = bytes ∧ data[start + bytes.length]? = some 0 := by
  obtain ⟨rest, hrest⟩ := h
  rw [← List.getElem?_drop, ← hrest]
  simp

/-! ## Places -/

/-- Each literal lies at a multiple of the alignment and inside of the data, and the zero byte
behind it comes before the next literal. -/
structure Spaced (dict : Dictionary) (p : StringPool) : Prop where
  align_pos : 0 < p.align
  nodup : (p.offsets.map Prod.fst).Nodup
  aligned : ∀ entry ∈ p.offsets, p.align ∣ entry.2
  inside : ∀ entry ∈ p.offsets, ∀ bytes, dict.stringBytes entry.1 = .ok bytes →
    entry.2 + bytes.length < p.data.length
  apart : p.offsets.Pairwise fun entry entry' =>
    ∀ bytes, dict.stringBytes entry.1 = .ok bytes → entry.2 + bytes.length < entry'.2

/-- In the empty pool there is nothing to be spaced. -/
theorem spaced_empty (dict : Dictionary) (align : Nat) : Spaced dict (.empty align) where
  align_pos := (sound_empty dict align).align_pos
  nodup := .nil
  aligned := fun _ h => by cases h
  inside := fun _ h => by cases h
  apart := .nil

/-- The next offset is not inside of the data. -/
theorem length_le_nextOffset (h : 0 < p.align) : p.data.length ≤ p.nextOffset := by
  rw [← length_pad h]
  exact (extends_pad p).data.length_le

/-- The data ends with the zero byte behind the new literal. -/
theorem length_place (h : 0 < p.align) (id : StringId) (bytes : Bytes) :
    (p.place id bytes).data.length = p.nextOffset + bytes.length + 1 := by
  simp [place, length_pad h, Nat.add_assoc]

/-- Padding leaves literals spaced. -/
theorem Spaced.pad (h : Spaced dict p) : Spaced dict p.pad where
  align_pos := h.align_pos
  nodup := h.nodup
  aligned := h.aligned
  inside := fun entry hentry bytes hbytes =>
    (h.inside entry hentry bytes hbytes).trans_le (extends_pad p).data.length_le
  apart := h.apart

/-- A new literal is spaced from the others. -/
theorem Spaced.place (h : Spaced dict p) {id : StringId} {bytes : Bytes}
    (hnew : p.offsets.lookup id = none) (hbytes : dict.stringBytes id = .ok bytes) :
    Spaced dict (p.place id bytes) where
  align_pos := h.align_pos
  nodup := by
    rw [StringPool.place, List.map_append, List.map_singleton, List.nodup_append]
    refine ⟨h.nodup, List.nodup_singleton id, fun key hkey other hother => ?_⟩
    rw [List.mem_singleton.1 hother]
    rintro rfl
    obtain ⟨entry, hentry, rfl⟩ := List.mem_map.1 hkey
    simpa using List.lookup_eq_none_iff.1 hnew entry hentry
  aligned := by
    intro entry hentry
    rcases List.mem_append.1 hentry with hentry | hentry
    · exact h.aligned entry hentry
    · rw [List.mem_singleton.1 hentry]
      exact Nat.dvd_mul_left p.align _
  inside := by
    intro entry hentry bytes' hbytes'
    rw [length_place h.align_pos]
    have hlength := length_le_nextOffset h.align_pos
    rcases List.mem_append.1 hentry with hentry | hentry
    · have hinside := h.inside entry hentry bytes' hbytes'
      omega
    · rw [List.mem_singleton.1 hentry] at hbytes' ⊢
      cases hbytes.symm.trans hbytes'
      omega
  apart := by
    -- All earlier literals end inside of the data, and the new one starts behind it.
    refine List.pairwise_append.2 ⟨h.apart, List.pairwise_singleton _ _,
      fun entry hentry new hmem bytes' hbytes' => ?_⟩
    rw [List.mem_singleton.1 hmem]
    exact (h.inside entry hentry bytes' hbytes').trans_le (length_le_nextOffset h.align_pos)

/-- A request leaves literals spaced. -/
theorem Spaced.offset (h : Spaced dict p) (id : StringId) :
    Spaced dict (perform (offset dict id) p).2 := by
  rw [perform_offset]
  split
  case h_1 => exact h
  case h_2 hnew hbytes => exact h.place hnew hbytes
  case h_3 => exact h.pad

/-- Requests leave literals spaced. -/
theorem Spaced.after (h : Spaced dict p) (ids : List StringId) :
    Spaced dict (after dict p ids) := by
  induction ids generalizing p with
  | nil => exact h
  | cons id rest ih => exact ih (h.offset id)

/-- Requests keep the alignment. -/
theorem align_after (dict : Dictionary) (p : StringPool) (ids : List StringId) :
    (after dict p ids).align = p.align := by
  induction ids generalizing p with
  | nil => rfl
  | cons id rest ih =>
    have hfirst : (perform (offset dict id) p).2.align = p.align := by
      rw [perform_offset]
      split <;> rfl
    exact (ih _).trans hfirst

/-- What is looked up is in the list. -/
theorem mem_of_lookup {list : List (StringId × Nat)} {id : StringId} {start : Nat}
    (h : list.lookup id = some start) : (id, start) ∈ list := by
  obtain ⟨front, back, rfl, -⟩ := List.lookup_eq_some_iff.1 h
  exact List.mem_append_right _ List.mem_cons_self

/-- Two different literals lie apart from each other. -/
theorem Spaced.apart_of_lookup (h : Spaced dict p) {id id' : StringId} {start start' : Nat}
    {bytes bytes' : Bytes} (hid : p.offsets.lookup id = some start)
    (hid' : p.offsets.lookup id' = some start') (hbytes : dict.stringBytes id = .ok bytes)
    (hbytes' : dict.stringBytes id' = .ok bytes') (hne : id ≠ id') :
    start + bytes.length < start' ∨ start' + bytes'.length < start := by
  obtain ⟨i, hi, hentry⟩ := List.getElem_of_mem (mem_of_lookup hid)
  obtain ⟨j, hj, hentry'⟩ := List.getElem_of_mem (mem_of_lookup hid')
  rcases Nat.lt_trichotomy i j with hlt | rfl | hlt
  · have hapart := List.pairwise_iff_getElem.1 h.apart i j hi hj hlt
    rw [hentry, hentry'] at hapart
    exact .inl (hapart bytes hbytes)
  · exact absurd (congrArg Prod.fst (hentry.symm.trans hentry')) hne
  · have hapart := List.pairwise_iff_getElem.1 h.apart j i hj hi hlt
    rw [hentry, hentry'] at hapart
    exact .inr (hapart bytes' hbytes')

/-! ## Answers -/

/-- Exactly the literals of the dictionary are given an offset. -/
theorem Sound.isOk_offset (h : Sound dict p) (id : StringId) :
    (perform (StringPool.offset dict id) p).1.isOk = (dict.stringBytes id).isOk := by
  rw [perform_offset]
  split
  case h_1 hlookup =>
    obtain ⟨bytes, hbytes, -⟩ := h.holds id _ hlookup
    rw [hbytes]
    rfl
  case h_2 hbytes =>
    rw [hbytes]
    rfl
  case h_3 herror =>
    rw [herror]
    rfl

/-- A request adds the literal that it is for, unless it fails. -/
theorem mem_keys_offset {id id' : StringId} :
    id' ∈ (perform (offset dict id) p).2.offsets.map Prod.fst ↔
    id' ∈ p.offsets.map Prod.fst ∨ id' = id ∧ (perform (offset dict id) p).1.isOk := by
  rw [perform_offset]
  split
  case h_1 start _ hlookup =>
    refine (or_iff_left_of_imp ?_).symm
    rintro ⟨rfl, -⟩
    exact List.mem_map_of_mem (mem_of_lookup hlookup)
  case h_2 => simp [place, Except.isOk, Except.toBool]
  case h_3 => simp [pad, Except.isOk, Except.toBool]

/-- An offset that was answered is the one in the pool at the end. -/
theorem lookup_of_mem_answers {ids : List StringId} {id : StringId} {start : Nat}
    (h : (id, .ok start) ∈ answers dict p ids) :
    (after dict p ids).offsets.lookup id = some start := by
  induction ids generalizing p with
  | nil => cases h
  | cons first rest ih =>
    rcases List.mem_cons.1 h with heq | h
    · obtain ⟨rfl, hanswer⟩ := Prod.mk.inj heq
      exact (extends_after dict _ rest).offsets _ _ (lookup_of_offset hanswer.symm)
    · exact ih h

/-- A request succeeds just if the dictionary has the bytes. -/
theorem Sound.isOk_of_mem_answers (h : Sound dict p) {ids : List StringId} {id : StringId}
    {answer : Except Error Nat} (hmem : (id, answer) ∈ answers dict p ids) :
    answer.isOk = (dict.stringBytes id).isOk := by
  induction ids generalizing p with
  | nil => cases hmem
  | cons first rest ih =>
    rcases List.mem_cons.1 hmem with heq | hmem
    · obtain ⟨rfl, rfl⟩ := Prod.mk.inj heq
      exact h.isOk_offset _
    · exact ih (h.offset first) hmem

/-- The literals of the pool are those before, and those whose requests succeeded. -/
theorem mem_keys_after {ids : List StringId} {id : StringId} :
    id ∈ (after dict p ids).offsets.map Prod.fst ↔
    id ∈ p.offsets.map Prod.fst ∨ id ∈ placed (answers dict p ids) := by
  induction ids generalizing p with
  | nil => simp [after, answers, placed]
  | cons first rest ih =>
    show id ∈ (after dict (perform (offset dict first) p).2 rest).offsets.map Prod.fst ↔ _
    rw [ih, mem_keys_offset, or_assoc, answers]
    by_cases hok : (perform (offset dict first) p).1.isOk <;> simp [placed, hok]

/-- The pool has as many literals as different ones were placed. -/
theorem size_after (dict : Dictionary) (align : Nat) (ids : List StringId) :
    (after dict (.empty align) ids).size =
      (placed (answers dict (.empty align) ids)).dedup.length := by
  have hperm : ((after dict (.empty align) ids).offsets.map Prod.fst).Perm
      (placed (answers dict (.empty align) ids)).dedup := by
    refine (List.perm_ext_iff_of_nodup ((spaced_empty dict align).after ids).nodup
      (List.nodup_dedup _)).2 fun id => ?_
    rw [mem_keys_after, List.mem_dedup]
    exact or_iff_right List.not_mem_nil
  rw [← hperm.length_eq, List.length_map]
  rfl

end

/-- For every alignment, every dictionary and every sequence of requests for offsets, of which
those for literals of the dictionary succeed: a literal that is asked for again is given the same
offset; each offset is a multiple of the alignment, or of 1 if that is 0; the bytes of the literal
lie there, with a zero byte behind them, however many requests follow; two different literals lie
apart, with their zero bytes; the bytes of the pool are only ever appended to; and the pool counts
each literal once. -/
theorem literals_stay_apart (dict : Dictionary) (align : Nat) (ids : List StringId) :
    (∀ id answer, (id, answer) ∈ answers dict (.empty align) ids →
      answer.isOk = (dict.stringBytes id).isOk) ∧
    (∀ id start start', (id, .ok start) ∈ answers dict (.empty align) ids →
      (id, .ok start') ∈ answers dict (.empty align) ids → start = start') ∧
    (∀ id start, (id, .ok start) ∈ answers dict (.empty align) ids → max align 1 ∣ start) ∧
    (∀ id start, (id, .ok start) ∈ answers dict (.empty align) ids →
      ∃ bytes, dict.stringBytes id = .ok bytes ∧ ∀ later,
        ((after dict (.empty align) (ids ++ later)).data.drop start).take bytes.length = bytes ∧
        (after dict (.empty align) (ids ++ later)).data[start + bytes.length]? = some 0) ∧
    (∀ id id' start start' bytes bytes', (id, .ok start) ∈ answers dict (.empty align) ids →
      (id', .ok start') ∈ answers dict (.empty align) ids → id ≠ id' →
      dict.stringBytes id = .ok bytes →
      dict.stringBytes id' = .ok bytes' → start + bytes.length < start' ∨
      start' + bytes'.length < start) ∧
    (∀ later, (after dict (.empty align) ids).data <+:
      (after dict (.empty align) (ids ++ later)).data) ∧
    (after dict (.empty align) ids).size =
      (placed (answers dict (.empty align) ids)).dedup.length := by
  have hsound := sound_empty dict align
  have hspaced := (spaced_empty dict align).after ids
  refine ⟨fun id answer => hsound.isOk_of_mem_answers, fun id start start' h h' => ?_,
    fun id start h => ?_, fun id start h =>
      ?_, fun id id' start start' bytes bytes' h h' hne hbytes hbytes' => ?_, fun later => ?_,
      size_after dict align ids⟩
  · exact Option.some.inj ((lookup_of_mem_answers h).symm.trans (lookup_of_mem_answers h'))
  · have haligned := hspaced.aligned _ (mem_of_lookup (lookup_of_mem_answers h))
    rwa [align_after] at haligned
  · obtain ⟨bytes, hbytes, hholds⟩ :=
      ((requests_after dict _ ids).sound hsound).holds id start (lookup_of_mem_answers h)
    refine ⟨bytes, hbytes, fun later => ?_⟩
    rw [after_append]
    exact (hholds.mono (extends_after dict _ later).data).bytes_at
  · exact hspaced.apart_of_lookup (lookup_of_mem_answers h) (lookup_of_mem_answers h')
      hbytes hbytes' hne
  · rw [after_append]
    exact (extends_after dict _ later).data

end StackToGo.StringPool
