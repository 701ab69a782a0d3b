import StackToGo.Proofs.StringPool.Escaping
import StackToGo.Proofs.StringPool.Spacing

/-!
# What failed requests leave in a pool

The pool is padded before a literal is looked up in the dictionary, so a request that fails leaves
the padding behind (`padding_left_behind`). That is all that it leaves: offsets and answers are
those of the requests that succeed, and the next literal that is placed begins where the padding
ends, so it makes the padding its own. What is left to see in the end is the padding of a request
that failed after the last new literal (`StringPool.PaddedLast`).
-/

namespace StackToGo.StringPool

open StackToGo.Action

section

variable {dict : Dictionary} {p : StringPool}

/-! ## Padding -/

/-- The next offset is a multiple of the alignment. -/
theorem dvd_nextOffset (p : StringPool) : p.align ∣ p.nextOffset := Nat.dvd_mul_left p.align _

/-- A length that is a multiple of the alignment is the place of the next literal. -/
theorem nextOffset_eq_length (hp : 0 < p.align) (h : p.align ∣ p.data.length) :
    p.nextOffset = p.data.length := by
  obtain ⟨n, hn⟩ := h
  have hless : (p.align - 1) / p.align = 0 := Nat.div_eq_of_lt (Nat.sub_lt hp Nat.one_pos)
  rw [nextOffset, hn, Nat.add_sub_assoc hp, Nat.mul_add_div hp, hless, Nat.add_zero, Nat.mul_comm]

/-- Padding shows unless the next literal begins at the end of the pool anyway. -/
theorem data_pad_eq_iff (hp : 0 < p.align) : p.pad.data = p.data ↔ p.align ∣ p.data.length := by
  constructor
  · intro h
    rw [← h, length_pad hp]
    exact dvd_nextOffset p
  · intro h
    simp [pad, nextOffset_eq_length hp h]

/-- Padding leaves the next offset. -/
theorem nextOffset_pad (hp : 0 < p.align) : p.pad.nextOffset = p.nextOffset := by
  have hdvd : p.pad.align ∣ p.pad.data.length := by
    rw [length_pad hp]
    exact dvd_nextOffset p
  rw [nextOffset_eq_length (p := p.pad) hp hdvd, length_pad hp]

/-- There is nothing to pad in a padded pool. -/
theorem pad_pad (hp : 0 < p.align) : p.pad.pad = p.pad := by
  have hzero : p.pad.nextOffset - p.pad.data.length = 0 :=
    by rw [nextOffset_pad hp, length_pad hp, Nat.sub_self]
  rw [pad, hzero, List.replicate_zero, List.append_nil]

/-- A literal lies in a padded pool where it lies without the padding. -/
theorem place_pad (hp : 0 < p.align) (id : StringId) (bytes : Bytes) :
    p.pad.place id bytes = p.place id bytes := by
  rw [place, pad_pad hp, nextOffset_pad hp]
  rfl

/-- A new literal adds one to the size. -/
theorem size_place (p : StringPool) (id : StringId) (bytes : Bytes) :
    (p.place id bytes).size = p.size + 1 :=
  List.length_append

/-- Padding does not show in what is answered. -/
theorem answer_pad (hp : 0 < p.align) (id : StringId) :
    (perform (offset dict id) p.pad).1 = (perform (offset dict id) p).1 := by
  have hoffsets : p.pad.offsets = p.offsets := rfl
  rw [perform_offset, perform_offset, nextOffset_pad hp, hoffsets]
  cases p.offsets.lookup id <;> cases dict.stringBytes id <;> rfl

/-- What a request that fails leaves behind. -/
theorem offset_eq_pad {id : StringId} (h : (perform (offset dict id) p).1.isOk = false) :
    (perform (offset dict id) p).2 = p.pad := by
  rw [perform_offset] at h ⊢
  split at h
  · cases h
  · cases h
  · rfl

/-- A request that succeeds finds the literal, or places it in the same way with and without
padding. -/
theorem offset_of_isOk (hp : 0 < p.align) {id : StringId}
    (h : (perform (offset dict id) p).1.isOk) :
    (∀ q : StringPool, q.offsets = p.offsets → (perform (offset dict id) q).2 = q) ∨
      (perform (offset dict id) p).2.size = p.size + 1 ∧
        (perform (offset dict id) p.pad).2 = (perform (offset dict id) p).2 := by
  cases hlookup : p.offsets.lookup id with
  | some start =>
    refine .inl fun q hq => ?_
    rw [perform_offset, hq, hlookup]
  | none =>
    refine .inr ?_
    have hpad : p.pad.offsets.lookup id = none := hlookup
    rw [perform_offset, hlookup] at h ⊢
    rw [perform_offset, hpad]
    cases hbytes : dict.stringBytes id with
    | error e =>
      rw [hbytes] at h
      cases h
    | ok bytes => exact ⟨size_place p id bytes, place_pad hp id bytes⟩

/-! ## Requests without those that fail -/

/-- The requests that succeed, among those made one after the other. -/
def kept (dict : Dictionary) (p : StringPool) (ids : List StringId) : List StringId :=
  placed (answers dict p ids)

/-- The answers with one more request. -/
theorem answers_append_singleton (dict : Dictionary) (p : StringPool) (ids : List StringId)
    (id : StringId) :
    answers dict p (ids ++ [id]) = answers dict p ids ++
      [(id, (perform (offset dict id) (after dict p ids)).1)] := by
  induction ids generalizing p with
  | nil => rfl
  | cons first rest ih => exact congrArg ((first, (perform (offset dict first) p).1) :: ·) (ih _)

/-- The pool after one more request. -/
theorem after_append_singleton (dict : Dictionary) (p : StringPool) (ids : List StringId)
    (id : StringId) :
    after dict p (ids ++ [id]) = (perform (offset dict id) (after dict p ids)).2 :=
  after_append dict p ids [id]

/-- The requests that succeed, with one more request. -/
theorem kept_append_singleton (dict : Dictionary) (p : StringPool) (ids : List StringId)
    (id : StringId) :
    kept dict p (ids ++ [id]) =
      kept dict p ids ++
        if (perform (offset dict id) (after dict p ids)).1.isOk then [id] else [] := by
  rw [kept, answers_append_singleton, placed, List.filter_append, List.map_append,
    List.filter_singleton]
  by_cases h : (perform (offset dict id) (after dict p ids)).1.isOk <;> simp [h, kept, placed]

/-- Some request failed, and no literal was placed since then. -/
def PaddedLast (dict : Dictionary) (p : StringPool) (ids : List StringId) : Prop :=
  ∃ front id back, ids = front ++ id :: back ∧
    (perform (offset dict id) (after dict p front)).1.isOk = false ∧
    (after dict p ids).size = (after dict p front).size

/-- Without requests none failed. -/
theorem not_paddedLast_nil : ¬PaddedLast dict p [] := by
  rintro ⟨front, id, back, h, -⟩
  simp at h

/-- A request that fails pads last. -/
theorem paddedLast_of_fails {ids : List StringId} {id : StringId}
    (h : (perform (offset dict id) (after dict p ids)).1.isOk = false) :
    PaddedLast dict p (ids ++ [id]) := by
  refine ⟨ids, id, [], rfl, h, ?_⟩
  rw [after_append_singleton, offset_eq_pad h]
  rfl

/-- After a request that succeeds, the request that failed is an earlier one. -/
theorem paddedLast_append_singleton {ids : List StringId} {id : StringId}
    (h : (perform (offset dict id) (after dict p ids)).1.isOk) : PaddedLast dict p (ids ++ [id]) ↔
      ∃ front failing back, ids = front ++ failing :: back ∧
        (perform (offset dict failing) (after dict p front)).1.isOk = false ∧
        (perform (offset dict id) (after dict p ids)).2.size = (after dict p front).size := by
  rw [← after_append_singleton]
  constructor
  · rintro ⟨front, failing, back, hids, hfails, hsize⟩
    rcases List.eq_nil_or_concat back with rfl | ⟨back, last, rfl⟩
    · obtain ⟨rfl, heq⟩ := List.append_inj' hids rfl
      cases heq
      rw [h] at hfails
      cases hfails
    · rw [List.concat_eq_append, ← List.cons_append, ← List.append_assoc] at hids
      obtain ⟨rfl, -⟩ := List.append_inj' hids rfl
      exact ⟨front, failing, back, rfl, hfails, hsize⟩
  · rintro ⟨front, failing, back, rfl, hfails, hsize⟩
    exact ⟨front, failing, back ++ [id], by simp, hfails, hsize⟩

/-- A request removes no literal. -/
theorem size_le_offset (dict : Dictionary) (id : StringId) (p : StringPool) :
    p.size ≤ (perform (offset dict id) p).2.size := by
  rw [perform_offset]
  split
  · exact Nat.le_refl _
  · rw [size_place]
    exact Nat.le_succ _
  · exact Nat.le_refl _

/-- Requests remove no literal. -/
theorem size_le_after (dict : Dictionary) (p : StringPool) (ids : List StringId) :
    p.size ≤ (after dict p ids).size := by
  induction ids generalizing p with
  | nil => exact Nat.le_refl _
  | cons id rest ih => exact (size_le_offset dict id p).trans (ih _)

/-- Requests that fail leave nothing but padding, and only those that fail last. -/
theorem after_eq_kept (hp : 0 < p.align) (ids : List StringId) :
    (PaddedLast dict p ids → after dict p ids = (after dict p (kept dict p ids)).pad) ∧
      (¬PaddedLast dict p ids → after dict p ids = after dict p (kept dict p ids)) := by
  induction ids using List.reverseRecOn with
  | nil => exact ⟨fun h => absurd h not_paddedLast_nil, fun _ => rfl⟩
  | append_singleton ids id ih =>
    have halign : 0 < (after dict p (kept dict p ids)).align := by rwa [align_after]
    have heither : after dict p ids = after dict p (kept dict p ids) ∨
        after dict p ids = (after dict p (kept dict p ids)).pad := by
      by_cases h : PaddedLast dict p ids
      · exact .inr (ih.1 h)
      · exact .inl (ih.2 h)
    by_cases hok : (perform (offset dict id) (after dict p ids)).1.isOk
    · have hkept : kept dict p (ids ++ [id]) = kept dict p ids ++ [id] :=
        by rw [kept_append_singleton, if_pos hok]
      rw [hkept, after_append_singleton, after_append_singleton, paddedLast_append_singleton hok]
      have hanswer : (perform (offset dict id) (after dict p (kept dict p ids))).1.isOk := by
        rcases heither with heq | heq
        · rwa [heq] at hok
        · rwa [heq, answer_pad halign] at hok
      have hoffsets : (after dict p ids).offsets = (after dict p (kept dict p ids)).offsets := by
        rcases heither with heq | heq <;> rw [heq]
        rfl
      rcases offset_of_isOk halign hanswer with hfound | ⟨hsize, hplaced⟩
      · -- The literal is known: nothing changes on either side.
        rw [hfound _ hoffsets, hfound _ rfl]
        exact ih
      · -- The literal is new, and the same on both sides, whether there is padding before it or
        -- not.
        have hboth : (perform (offset dict id) (after dict p ids)).2 =
            (perform (offset dict id) (after dict p (kept dict p ids))).2 := by
          rcases heither with heq | heq <;> rw [heq]
          exact hplaced
        refine ⟨?_, fun _ => hboth⟩
        rintro ⟨front, failing, back, rfl, -, hfront⟩
        have hgrows :
            (after dict p front).size ≤ (after dict p (front ++ failing :: back)).size := by
          rw [after_append]
          exact size_le_after dict _ _
        have hsame : (after dict p (front ++ failing :: back)).size =
            (after dict p (kept dict p (front ++ failing :: back))).size :=
          congrArg List.length hoffsets
        rw [hboth, hsize, ← hsame] at hfront
        omega
    · rw [Bool.not_eq_true] at hok
      have hkept : kept dict p (ids ++ [id]) = kept dict p ids := by
        rw [kept_append_singleton, if_neg (by simp [hok]), List.append_nil]
      rw [hkept, after_append_singleton, offset_eq_pad hok]
      refine ⟨fun _ => ?_, fun h => absurd (paddedLast_of_fails hok) h⟩
      rcases heither with heq | heq <;> rw [heq]
      exact pad_pad halign

/-- The answers to the requests that succeed do not depend on those that fail. -/
theorem answers_kept (hp : 0 < p.align) (ids : List StringId) :
    answers dict p (kept dict p ids) = (answers dict p ids).filter (·.2.isOk) := by
  induction ids using List.reverseRecOn with
  | nil => rfl
  | append_singleton ids id ih =>
    have halign : 0 < (after dict p (kept dict p ids)).align := by rwa [align_after]
    have hanswer : (perform (offset dict id) (after dict p (kept dict p ids))).1 =
        (perform (offset dict id) (after dict p ids)).1 := by
      by_cases h : PaddedLast dict p ids
      · rw [(after_eq_kept hp ids).1 h, answer_pad halign]
      · rw [(after_eq_kept hp ids).2 h]
    rw [kept_append_singleton, answers_append_singleton, List.filter_append, ← ih]
    by_cases hok : (perform (offset dict id) (after dict p ids)).1.isOk
    · rw [if_pos hok, answers_append_singleton, hanswer]
      simp [hok]
    · simp [hok]

/-- The declarations of two pools with the same offsets differ just if there are any and the bytes
differ. -/
theorem declarations_eq_iff {p q : StringPool} (h : p.offsets = q.offsets) :
    p.declarations = q.declarations ↔ q.isEmpty ∨ p.data = q.data := by
  have hempty : p.isEmpty = q.isEmpty := congrArg List.isEmpty h
  rw [declarations_eq, declarations_eq, hempty]
  by_cases hq : q.isEmpty
  · simp [hq]
  · simp only [hq, if_false, Bool.false_eq_true, false_or]
    constructor
    · intro htable
      have hlist := congrArg String.toList (List.cons.inj (List.cons.inj htable).2).1
      unfold table at hlist
      rw [String.toList_append, String.toList_append, String.toList_append,
        String.toList_append] at hlist
      exact escapeBytes_injective (String.toList_inj.1
        (List.append_cancel_left (List.append_cancel_right hlist)))
    · intro hdata
      unfold table
      rw [hdata]

end

/-- In every pool, a request that fails leaves the offsets and their number as they were, and adds
just the zero bytes up to the place of the next literal, none if the pool ends there. After any
requests, the offsets and the answers are those of the requests that succeed. The bytes are those
of the requests that succeed too, padded if the last request that failed came after the last new
literal; so bytes and declarations are the same unless this padding shows. -/
theorem failures_leave_padding {p : StringPool} (hp : 0 < p.align) (dict : Dictionary) :
    (∀ id e, (perform (offset dict id) p).1 = .error e →
      (perform (offset dict id) p).2 =
        { p with data := p.data ++ List.replicate (p.nextOffset - p.data.length) 0 } ∧
      ((perform (offset dict id) p).2.data = p.data ↔ p.align ∣ p.data.length)) ∧
    ∀ ids, answers dict p (kept dict p ids) = (answers dict p ids).filter (·.2.isOk) ∧
      (after dict p ids).offsets = (after dict p (kept dict p ids)).offsets ∧
      ((after dict p ids).data = (after dict p (kept dict p ids)).data ↔
        ¬PaddedLast dict p ids ∨ p.align ∣ (after dict p (kept dict p ids)).data.length) ∧
      (PaddedLast dict p ids → (after dict p ids).data =
        (after dict p (kept dict p ids)).pad.data) ∧
      ((after dict p ids).declarations = (after dict p (kept dict p ids)).declarations ↔
        (after dict p (kept dict p ids)).isEmpty ∨
        (after dict p ids).data = (after dict p (kept dict p ids)).data) := by
  constructor
  · intro id e h
    have hpad : (perform (offset dict id) p).2 = p.pad := offset_eq_pad (by rw [h]; rfl)
    rw [hpad]
    exact ⟨rfl, data_pad_eq_iff hp⟩
  · intro ids
    obtain ⟨hpadded, hsame⟩ : (PaddedLast dict p ids → _) ∧ _ := after_eq_kept hp ids
    have halign := align_after dict p (kept dict p ids)
    have hoffsets : (after dict p ids).offsets = (after dict p (kept dict p ids)).offsets := by
      by_cases h : PaddedLast dict p ids
      · rw [hpadded h]
        rfl
      · rw [hsame h]
    refine ⟨answers_kept hp ids, hoffsets, ?_, fun h => by rw [hpadded h],
      declarations_eq_iff hoffsets⟩
    by_cases h : PaddedLast dict p ids
    · rw [hpadded h, data_pad_eq_iff (by rwa [halign]), halign]
      simp [h]
    · simp [h, hsame h]

/-- A dictionary of one word. -/
def greeting : Dictionary := .ofList [[0x68, 0x65, 0x6C, 0x6C, 0x6F]]

/-- A request that fails changes the bytes of the pool, and the declaration of the table. -/
theorem padding_left_behind :
    (perform (offset greeting ⟨9⟩) (after greeting (.empty 16) [⟨1⟩])).1.isOk = false ∧
    (perform (offset greeting ⟨9⟩) (after greeting (.empty 16) [⟨1⟩])).2.data ≠
      (after greeting (.empty 16) [⟨1⟩]).data ∧
    (after greeting (.empty 16) [⟨1⟩, ⟨9⟩]).declarations ≠
      (after greeting (.empty 16) [⟨1⟩]).declarations := by
  decide +kernel

/-- The padding is there while the literal is the last one, and no longer shows when another
literal follows. -/
theorem greeting_padding :
    (after greeting (.empty 16) [⟨1⟩, ⟨9⟩]).data = (after greeting (.empty 16) [⟨1⟩]).pad.data ∧
    (after greeting (.empty 16) [⟨1⟩, ⟨9⟩, ⟨0⟩]).declarations =
      (after greeting (.empty 16) [⟨1⟩, ⟨0⟩]).declarations := by
  have hpool := (failures_leave_padding (p := .empty 16) (by decide) greeting).2
  obtain ⟨-, -, -, hpadded, -⟩ := hpool [⟨1⟩, ⟨9⟩]
  obtain ⟨-, -, -, -, hlater⟩ := hpool [⟨1⟩, ⟨9⟩, ⟨0⟩]
  exact ⟨hpadded ⟨[⟨1⟩], ⟨9⟩, [], rfl, by decide, by decide⟩, hlater.2 (.inr (by decide))⟩

end StackToGo.StringPool
