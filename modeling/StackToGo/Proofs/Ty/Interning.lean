import StackToGo.Proofs.Ty.Loops

/-!
# Interning

A table has its types twice, in the order of their ids and as the keys of its index. Interning
keeps the two inverse to each other: the index has an id for a type exactly if the type is the
entry at the place of the id. From this (`TypeTable.Interned`) it follows that different ids name
different types, and that a type is in the table if looking it up gives an id.

The index is not part of the list of a table. It comes back when the entries are interned again
(`Interned.remade`), because every step that made the table is repeated in its order.

Reading a table from a list interns the entries and compares each id with the place of the entry.
Since ids are places, this succeeds exactly if the list begins the table that interning all of its
entries leads to (`Interned.internAll_eq_ok_iff`), which says what lists are read without a look at
how.
-/

namespace StackToGo.TypeTable

variable {t t' : TypeTable} {id : TypeId} {ty : Ty} {list front back : List Ty}

@[simp] theorem internEach_nil (t : TypeTable) : t.internEach [] = t := rfl

@[simp] theorem internEach_cons (t : TypeTable) (ty : Ty) (list : List Ty) :
    t.internEach (ty :: list) = (t.intern ty).2.internEach list := rfl

/-- Interning two lists in a row is interning the whole. -/
theorem internEach_append (t : TypeTable) (front back : List Ty) :
    t.internEach (front ++ back) = (t.internEach front).internEach back := List.foldl_append

/-- The entries and the index of a table are inverse to each other. -/
def Inverse (t : TypeTable) : Prop := ∀ ty id, t.lookup ty = some id ↔ t.get id = .ok ty

/-- The tables that interning leads to. -/
structure Interned (t : TypeTable) : Prop where
  predefined : predefined <+: t.entries
  inverse : t.Inverse
  /-- Interning the entries makes the table again, with its index. -/
  remade : empty.internEach t.entries = t

/-! ## One step -/

/-- A type that the index has keeps its id, and the table stays as it is. -/
theorem intern_of_some (h : t.lookup ty = some id) : t.intern ty = (id, t) := by
  rw [intern, h]

/-- A type that the index does not have is added behind the entries, and its place to the index. -/
theorem intern_of_none (h : t.lookup ty = none) :
    t.intern ty = (⟨t.size⟩, ⟨t.entries ++ [ty], (ty, ⟨t.size⟩) :: t.index⟩) := by
  rw [intern, h]

/-- The entries after a new type was added. -/
theorem entries_intern_of_none (h : t.lookup ty = none) :
    (t.intern ty).2.entries = t.entries ++ [ty] := by
  rw [intern_of_none h]

/-- Interning adds entries behind those that are there. -/
theorem prefix_intern (t : TypeTable) (ty : Ty) : t.entries <+: (t.intern ty).2.entries := by
  cases h : t.lookup ty with
  | some id => simp only [intern_of_some h, List.prefix_rfl]
  | none =>
    rw [entries_intern_of_none h]
    exact List.prefix_append _ _

/-- The types that are named after a new one was added: the earlier ones, and the new one at the
end. -/
theorem get_intern_of_none {new : Ty} (h : t.lookup new = none) :
    (t.intern new).2.get id = .ok ty ↔ t.get id = .ok ty ∨ id = ⟨t.size⟩ ∧ ty = new := by
  obtain ⟨place⟩ := id
  rw [get_eq_ok_iff, get_eq_ok_iff, entries_intern_of_none h, TypeId.mk.injEq, size]
  rcases Nat.lt_trichotomy place t.entries.length with hlt | rfl | hgt
  · simp [List.getElem?_append_left hlt, Nat.ne_of_lt hlt]
  · simp [eq_comm]
  · have hnew : (t.entries ++ [new]).length ≤ place := by
      rw [List.length_append]
      exact hgt
    simp only [List.getElem?_eq_none hnew, List.getElem?_eq_none (Nat.le_of_lt hgt),
      Nat.ne_of_gt hgt, reduceCtorEq, false_and, or_self]

/-- The ids that are found after a new type was added: the earlier ones, and the place of the new
one. -/
theorem lookup_intern_of_none {new : Ty} (h : t.lookup new = none) :
    (t.intern new).2.lookup ty = if ty = new then some ⟨t.size⟩ else t.lookup ty := by
  rw [intern_of_none h]
  show ((new, (⟨t.size⟩ : TypeId)) :: t.index).lookup ty = _
  rw [List.lookup_cons]
  by_cases heq : ty = new
  · simp [heq]
  · rw [if_neg heq, beq_eq_false_iff_ne.2 heq]
    rfl

/-- Interning keeps the entries and the index inverse to each other. -/
theorem Inverse.intern (h : t.Inverse) (new : Ty) : (t.intern new).2.Inverse := by
  cases hnew : t.lookup new with
  | some id =>
    rw [intern_of_some hnew]
    exact h
  | none =>
    -- No id names the new type yet, and no type has the new id.
    have hfresh (id : TypeId) : t.get id ≠ .ok new := fun hget => by
      rw [(h new id).2 hget] at hnew
      cases hnew
    have hbeyond (ty : Ty) : t.get ⟨t.size⟩ ≠ .ok ty := fun hget =>
      Nat.lt_irrefl _ (lt_size_of_get hget)
    intro ty id
    rw [lookup_intern_of_none hnew, get_intern_of_none hnew]
    split
    · rename_i heq
      rw [heq, Option.some.injEq, eq_comm]
      exact ⟨fun hid => .inr ⟨hid, rfl⟩, fun hid => (hid.resolve_left (hfresh id)).1⟩
    · rename_i hne
      rw [h ty id]
      exact ⟨.inl, fun hid => hid.resolve_right fun hlast => hne hlast.2⟩

/-- Interning gives the id of the type. -/
theorem Inverse.get_intern (h : t.Inverse) (ty : Ty) :
    (t.intern ty).2.get (t.intern ty).1 = .ok ty := by
  cases hty : t.lookup ty with
  | some id =>
    rw [intern_of_some hty]
    exact (h ty id).1 hty
  | none =>
    have hid : (t.intern ty).1 = ⟨t.size⟩ := by rw [intern_of_none hty]
    exact (get_intern_of_none hty).2 (.inr ⟨hid, rfl⟩)

/-- Different ids name different types. -/
theorem Inverse.id_inj {id' : TypeId} (h : t.Inverse) (hid : t.get id = .ok ty)
    (hid' : t.get id' = .ok ty) : id = id' :=
  Option.some.inj (((h ty id).2 hid).symm.trans ((h ty id').2 hid'))

/-- No type is in the table twice. -/
theorem Inverse.nodup (h : t.Inverse) : t.entries.Nodup := by
  rw [List.nodup_iff_injective_get]
  intro place place' heq
  have hget (place : Fin t.entries.length) : t.get ⟨place⟩ = .ok (t.entries.get place) :=
    get_eq_ok_iff.2 (List.getElem?_eq_getElem place.isLt)
  have hid := h.id_inj (hget place) (heq ▸ hget place')
  exact Fin.ext (congrArg TypeId.val hid)

/-- A type that the index does not have is not among the entries. -/
theorem Inverse.lookup_eq_none_iff (h : t.Inverse) : t.lookup ty = none ↔ ty ∉ t.entries := by
  constructor
  · intro hnone hmem
    obtain ⟨place, hplace⟩ := List.mem_iff_getElem?.1 hmem
    rw [(h ty ⟨place⟩).2 (get_eq_ok_iff.2 hplace)] at hnone
    cases hnone
  · intro hnew
    cases hty : t.lookup ty with
    | none => rfl
    | some id => exact absurd (mem_entries_of_get ((h ty id).1 hty)) hnew

/-- Interning a type that is there changes nothing. -/
theorem Inverse.intern_of_mem (h : t.Inverse) (hty : ty ∈ t.entries) : (t.intern ty).2 = t := by
  cases hlookup : t.lookup ty with
  | some id => rw [intern_of_some hlookup]
  | none => exact absurd hty (h.lookup_eq_none_iff.1 hlookup)

/-- One more step leads from such a table to another. -/
theorem Interned.intern (h : t.Interned) (ty : Ty) : (t.intern ty).2.Interned := by
  refine ⟨h.predefined.trans (prefix_intern t ty), h.inverse.intern ty, ?_⟩
  cases hty : t.lookup ty with
  | some id =>
    rw [intern_of_some hty]
    exact h.remade
  | none =>
    rw [entries_intern_of_none hty, internEach_append, h.remade, internEach_cons, internEach_nil]

/-! ## Whole runs -/

/-- The table of the predefined types has these as its entries. -/
theorem entries_empty : empty.entries = predefined := by decide

/-- What each step keeps holds after all of them. -/
theorem internEach_induction {P : TypeTable → Prop} (hstep : ∀ t ty, P t → P (t.intern ty).2)
    (h : P t) (list : List Ty) : P (t.internEach list) := by
  induction list generalizing t with
  | nil => exact h
  | cons ty list ih => exact ih (hstep t ty h)

/-- Interning any types keeps the entries and the index inverse to each other. -/
theorem Inverse.internEach (h : t.Inverse) (list : List Ty) : (t.internEach list).Inverse :=
  internEach_induction (fun _ ty ht => ht.intern ty) h list

/-- The entries and the index of the table of the predefined types are inverse to each other. -/
theorem inverse_empty : empty.Inverse := by
  have hnew : (⟨[], []⟩ : TypeTable).Inverse := by
    intro ty id
    simp [lookup, get_eq_ok_iff]
  unfold empty
  exact hnew.internEach predefined

/-- The table of the predefined types is interned. -/
theorem interned_empty : empty.Interned :=
  ⟨entries_empty ▸ List.prefix_rfl, inverse_empty, by decide⟩

/-- Interning any types leads from such a table to another. -/
theorem Interned.internEach (h : t.Interned) (list : List Ty) : (t.internEach list).Interned :=
  internEach_induction (fun _ ty ht => ht.intern ty) h list

/-- Interning any types adds entries behind those that are there. -/
theorem prefix_internEach (t : TypeTable) (list : List Ty) :
    t.entries <+: (t.internEach list).entries :=
  internEach_induction (P := fun made => t.entries <+: made.entries)
    (fun made ty h => h.trans (prefix_intern made ty)) List.prefix_rfl list

/-- An id keeps its meaning in a table that goes on. -/
theorem get_of_extends (h : t.entries <+: t'.entries) (hget : t.get id = .ok ty) :
    t'.get id = .ok ty := by
  obtain ⟨more, hmore⟩ := h
  rw [get_eq_ok_iff] at hget ⊢
  rw [← hmore, List.getElem?_append_left (List.getElem?_eq_some_iff.1 hget).1, hget]

/-- New types that are different are added in their order. -/
theorem Inverse.entries_internEach (h : t.Inverse) (hnodup : (t.entries ++ list).Nodup) :
    (t.internEach list).entries = t.entries ++ list := by
  induction list generalizing t with
  | nil => rw [internEach_nil, List.append_nil]
  | cons ty list ih =>
    have hnew : ty ∉ t.entries := by
      have hdisjoint := (List.nodup_append.1 hnodup).2.2
      exact fun hmem => hdisjoint ty hmem ty List.mem_cons_self rfl
    have hentries := entries_intern_of_none (h.lookup_eq_none_iff.2 hnew)
    rw [internEach_cons, ih (h.intern ty) (by simpa [hentries] using hnodup), hentries]
    simp

/-- Interning types that are all there changes nothing. -/
theorem Inverse.internEach_of_subset (h : t.Inverse) (hlist : ∀ ty ∈ list, ty ∈ t.entries) :
    t.internEach list = t := by
  induction list with
  | nil => rfl
  | cons ty list ih =>
    obtain ⟨hty, hrest⟩ := List.forall_mem_cons.1 hlist
    rw [internEach_cons, h.intern_of_mem hty, ih hrest]

/-! ## Lists that are tables -/

/-- The entry at a place is interned there exactly if the table that is made has it there. -/
theorem Interned.id_eq_iff (h : t.Interned) (position : Nat) (ty : Ty) (list : List Ty) :
    (t.intern ty).1.val = position ↔
      ((t.intern ty).2.internEach list).entries[position]? = some ty := by
  have hget : ((t.intern ty).2.internEach list).get (t.intern ty).1 = .ok ty :=
    get_of_extends (prefix_internEach _ list) (h.inverse.get_intern ty)
  refine ⟨?_, fun hentry => ?_⟩
  · rintro rfl
    exact get_eq_ok_iff.1 hget
  · have hplace : ((t.intern ty).2.internEach list).get ⟨position⟩ = .ok ty :=
      get_eq_ok_iff.2 hentry
    exact congrArg TypeId.val (((h.intern ty).internEach list).inverse.id_inj hget hplace)

/-- Interning with a check of the places gives the same table, if every entry has its place in
it. -/
theorem Interned.internAll_eq_ok_iff (h : t.Interned) {position : Nat} :
    t.internAll position list = .ok t' ↔
      t.internEach list = t' ∧ ∀ i ty, list[i]? = some ty →
      t'.entries[position + i]? = some ty := by
  induction list generalizing t position with
  | nil => simp [internAll]
  | cons ty list ih =>
    have hplace := h.id_eq_iff position ty list
    -- The first entry is at its place, and the others are at theirs.
    have hall : (∀ i ty', (ty :: list)[i]? = some ty' → t'.entries[position + i]? = some ty') ↔
        t'.entries[position]? = some ty ∧
          ∀ i ty', list[i]? = some ty' → t'.entries[position + 1 + i]? = some ty' := by
      refine ⟨fun hall => ⟨hall 0 ty rfl, fun i ty' hi => ?_⟩, fun ⟨hfirst, hrest⟩ i ty' hi => ?_⟩
      · rw [Nat.add_assoc, Nat.add_comm 1 i]
        exact hall (i + 1) ty' hi
      · cases i with
        | zero =>
          cases hi
          exact hfirst
        | succ i =>
          rw [← Nat.add_assoc, Nat.add_right_comm]
          exact hrest i ty' hi
    rw [internAll, hall, internEach_cons]
    dsimp only
    split
    · rename_i hid
      rw [ih (h.intern ty)]
      constructor
      · rintro ⟨rfl, hrest⟩
        exact ⟨rfl, hplace.1 hid, hrest⟩
      · rintro ⟨rfl, -, hrest⟩
        exact ⟨rfl, hrest⟩
    · rename_i hid
      constructor
      · rintro ⟨⟩
      · rintro ⟨rfl, hfirst, -⟩
        exact absurd (hplace.2 hfirst) hid

/-- A prefix has the same entries at the same places. -/
theorem prefix_iff_getElem? :
    front <+: back ↔ ∀ i ty, front[i]? = some ty → back[0 + i]? = some ty := by
  rw [List.prefix_iff_getElem?]
  simp only [Nat.zero_add]
  exact ⟨fun h i ty hi => by grind, fun h i hi => h i _ (List.getElem?_eq_getElem hi)⟩

/-- A list makes a table just if interning it places each entry at its own place. -/
theorem ofList?_eq_ok_iff_begins :
    ofList? list = .ok t ↔ empty.internEach list = t ∧ list <+: t.entries ∧ t.Closed := by
  have hfind : t.findDangling t.entries = none ↔ t.Closed := findDangling_eq_none_iff
  have hintern : empty.internAll 0 list = .ok t ↔
      empty.internEach list = t ∧ list <+: t.entries := by
    rw [interned_empty.internAll_eq_ok_iff, prefix_iff_getElem?]
  rw [← and_assoc, ← hintern, ← hfind, ofList?]
  cases hrun : empty.internAll 0 list with
  | error e => simp [bind, Except.bind]
  | ok made =>
    simp only [bind, Except.bind, Except.ok.injEq]
    cases hdangling : made.findDangling made.entries with
    | some found =>
      constructor
      · rintro ⟨⟩
      · rintro ⟨rfl, hnone⟩
        rw [hdangling] at hnone
        cases hnone
    | none =>
      constructor
      · rintro ⟨⟩
        exact ⟨rfl, hdangling⟩
      · rintro ⟨rfl, -⟩
        rfl

/-- The list agrees with the predefined types at their places, as far as it goes. -/
def Agrees (list : List Ty) : Prop := list.take predefined.length <+: predefined

/-- The list, filled up if it ends among the predefined types. -/
def filled (list : List Ty) : List Ty :=
  if list.length < predefined.length then predefined else list

/-- A list that agrees with the predefined types begins the one that is filled up. -/
theorem prefix_filled (h : Agrees list) : list <+: filled list := by
  rw [filled]
  split
  · rename_i hshort
    rwa [Agrees, List.take_of_length_le (by omega)] at h
  · exact List.prefix_rfl

/-- The entries of the table that a list leads to, if it agrees with the predefined types and
repeats nothing. -/
theorem entries_of_agrees (hagrees : Agrees list) (hnodup : list.Nodup) :
    (empty.internEach list).entries = filled list := by
  rw [filled]
  split
  · rename_i hshort
    rw [Agrees, List.take_of_length_le (by omega)] at hagrees
    have hknown : ∀ ty ∈ list, ty ∈ empty.entries := fun ty hty =>
      entries_empty ▸ hagrees.subset hty
    rw [inverse_empty.internEach_of_subset hknown, entries_empty]
  · rename_i hlong
    have hwhole : list.take predefined.length = predefined :=
      hagrees.eq_of_length (List.length_take_of_le (by omega))
    obtain ⟨more, rfl⟩ : predefined <+: list := hwhole ▸ List.take_prefix _ _
    have hstart : empty.internEach predefined = empty := by
      rw [← entries_empty, interned_empty.remade]
    rw [internEach_append, hstart,
      inverse_empty.entries_internEach (entries_empty ▸ hnodup), entries_empty]

/-- A list begins the table made of its entries exactly if it agrees with the predefined types and
repeats nothing. -/
theorem prefix_internEach_iff :
    list <+: (empty.internEach list).entries ↔ Agrees list ∧ list.Nodup := by
  constructor
  · intro h
    have hinterned := interned_empty.internEach list
    refine ⟨?_, h.sublist.nodup hinterned.inverse.nodup⟩
    have hfirst : list.take predefined.length <+: list := List.take_prefix _ _
    exact List.prefix_of_prefix_length_le (hfirst.trans h) hinterned.predefined
      (List.length_take_le _ _)
  · rintro ⟨hagrees, hnodup⟩
    rw [entries_of_agrees hagrees hnodup]
    exact prefix_filled hagrees

/-- Which lists are read as tables, and as which. -/
theorem ofList?_eq_ok_iff :
    ofList? list = .ok t ↔
      Agrees list ∧ list.Nodup ∧ empty.internEach list = t ∧ t.Closed := by
  rw [ofList?_eq_ok_iff_begins]
  constructor
  · rintro ⟨rfl, hbegins, hclosed⟩
    obtain ⟨hagrees, hnodup⟩ := prefix_internEach_iff.1 hbegins
    exact ⟨hagrees, hnodup, rfl, hclosed⟩
  · rintro ⟨hagrees, hnodup, rfl, hclosed⟩
    exact ⟨rfl, prefix_internEach_iff.2 ⟨hagrees, hnodup⟩, hclosed⟩

/-- The table that a list leads to is closed if the list, filled up, refers to its own entries
only. -/
theorem closed_iff_of_agrees (hagrees : Agrees list) (hnodup : list.Nodup) :
    (empty.internEach list).Closed ↔
      ∀ ty ∈ filled list, ∀ id ∈ ty.references, id.val < (filled list).length := by
  rw [Closed, size, entries_of_agrees hagrees hnodup]

/-- A table is its list. After any types have been interned, the index and the entries are inverse
to each other, different ids name different types, the predefined types have their places, and no
id changes its meaning later. A list is read as a table exactly if it agrees with the predefined
types, repeats nothing and, filled up, refers to its own entries only. The table then has these
entries and an index that is inverse to them. A table without references to nowhere is read back
from its list, with the same index. -/
theorem interning_faithful :
    (∀ list : List Ty,
      (∀ ty id, (empty.internEach list).lookup ty = some id ↔
        (empty.internEach list).get id = .ok ty) ∧
      (∀ id id' ty, (empty.internEach list).get id = .ok ty →
        (empty.internEach list).get id' = .ok ty → id = id') ∧
      (∀ ty, (empty.internEach (list ++ [ty])).get ((empty.internEach list).intern ty).1 =
        .ok ty) ∧
      (∀ i ty, predefined[i]? = some ty → (empty.internEach list).get ⟨i⟩ = .ok ty) ∧
      ∀ more id ty, (empty.internEach list).get id = .ok ty →
        (empty.internEach (list ++ more)).get id = .ok ty) ∧
    (∀ list : List Ty, (∃ t, ofList? list = .ok t) ↔
      Agrees list ∧ list.Nodup ∧
        ∀ ty ∈ filled list, ∀ id ∈ ty.references, id.val < (filled list).length) ∧
    (∀ (list : List Ty) t, ofList? list = .ok t →
      t.entries = filled list ∧ ∀ ty id, t.lookup ty = some id ↔ t.get id = .ok ty) ∧
    ∀ list : List Ty, (empty.internEach list).Closed →
      ofList? (empty.internEach list).entries = .ok (empty.internEach list) := by
  refine ⟨fun list => ?_, fun list => ?_, fun list t h => ?_, fun list hclosed => ?_⟩
  · have hinterned := interned_empty.internEach list
    refine ⟨hinterned.inverse, fun id id' ty => hinterned.inverse.id_inj, fun ty => ?_,
      fun i ty hi => ?_, fun more id ty hget => ?_⟩
    · rw [internEach_append]
      exact hinterned.inverse.get_intern ty
    · refine get_of_extends (t := empty) ?_ (get_eq_ok_iff.2 (entries_empty ▸ hi))
      exact entries_empty ▸ hinterned.predefined
    · rw [internEach_append]
      exact get_of_extends (prefix_internEach _ more) hget
  · constructor
    · rintro ⟨t, h⟩
      obtain ⟨hagrees, hnodup, rfl, hclosed⟩ := ofList?_eq_ok_iff.1 h
      exact ⟨hagrees, hnodup, (closed_iff_of_agrees hagrees hnodup).1 hclosed⟩
    · rintro ⟨hagrees, hnodup, hclosed⟩
      have hclosed := (closed_iff_of_agrees hagrees hnodup).2 hclosed
      exact ⟨_, ofList?_eq_ok_iff.2 ⟨hagrees, hnodup, rfl, hclosed⟩⟩
  · obtain ⟨hagrees, hnodup, rfl, -⟩ := ofList?_eq_ok_iff.1 h
    exact ⟨entries_of_agrees hagrees hnodup, (interned_empty.internEach list).inverse⟩
  · have hinterned := interned_empty.internEach list
    exact ofList?_eq_ok_iff_begins.2 ⟨hinterned.remade, List.prefix_rfl, hclosed⟩

end StackToGo.TypeTable
