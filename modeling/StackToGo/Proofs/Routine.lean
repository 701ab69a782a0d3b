import StackToGo.Proofs.Go.Calls
import StackToGo.Proofs.Go.Declarations
import StackToGo.Proofs.Identifier
import StackToGo.Proofs.TypeText.Memory

/-!
# Names and texts of routines

The name of a routine tells its family and its type, also when it is read at the front of a longer
text. The texts of the routines that were asked for declare each of them once (`filter_texts`),
with the Go text of its type. They are sorted by families and by Go texts (`Listing`).
-/

namespace StackToGo.Routine

open StackToGo.Action
open StackToGo.TypeText (Settled Expands signature)

/-! ## Names -/

/-- The characters of the name of a routine. -/
theorem toList_name (family : Family) (id : TypeId) :
    (name family id).toList = family.stem.toList ++ '_' :: Nat.toDigits 10 id.val := by
  rw [name, String.toList_append, String.toList_append]
  simp [toString, Nat.repr]

/-- Names that are followed by a mark that is no digit are told apart. -/
theorem name_append_inj {mark : Char} (hmark : mark.isDigit = false) {family family' : Family}
    {id id' : TypeId} {rest rest' : List Char}
    (h : (name family id).toList ++ mark :: rest = (name family' id').toList ++ mark :: rest') :
    family = family' ∧ id = id' := by
  rw [toList_name, toList_name, List.append_assoc, List.append_assoc, List.cons_append,
    List.cons_append] at h
  have hfamily : family = family' := by
    cases family <;> cases family' <;> first | rfl | simp [Family.stem] at h
  subst hfamily
  have hdigits := (List.cons.inj (List.append_cancel_left h)).2
  obtain ⟨id⟩ := id
  obtain ⟨id'⟩ := id'
  exact ⟨rfl, congrArg TypeId.mk (Identifier.toDigits_append_inj hmark hdigits).1⟩

/-- A name tells the family and the type of a routine. -/
theorem name_inj {family family' : Family} {id id' : TypeId}
    (h : name family id = name family' id') : family = family' ∧ id = id' := by
  have hmarked : (name family id).toList ++ '(' :: [] = (name family' id').toList ++ '(' :: [] :=
    by rw [h]
  exact name_append_inj (by decide) hmarked

/-- No routine has the name of the accessor of the string table. -/
theorem name_ne_str (family : Family) (id : TypeId) : name family id ≠ "str" := by
  intro h
  have hlist := congrArg String.toList h
  rw [toList_name] at hlist
  cases family <;> simp [Family.stem] at hlist

/-- The name of a routine is that of a support function. -/
theorem isSupportName_name (family : Family) (id : TypeId) :
    Go.isSupportName (name family id) := by
  rw [Go.isSupportName, toList_name]
  cases family <;> simp [Family.stem]

/-! ## Requests -/

/-- Asking for a routine adds it to those that were asked for. -/
theorem Needs.mem_require {needs : Needs} {family family' : Family} {id id' : TypeId} :
    (family', id') ∈ (needs.require family id).requests ↔
      (family', id') ∈ needs.requests ∨ (family' = family ∧ id' = id) := by
  unfold Needs.require
  split
  · rename_i hmem
    constructor
    · exact .inl
    · rintro (h | ⟨rfl, rfl⟩)
      · exact h
      · exact hmem
  · simp

/-- No routine is asked for twice. -/
theorem Needs.nodup_require {needs : Needs} (h : needs.requests.Nodup) (family : Family)
    (id : TypeId) : (needs.require family id).requests.Nodup := by
  rw [Needs.require]
  split
  · exact h
  · rename_i hnew
    refine List.nodup_append.2 ⟨h, List.nodup_singleton _, ?_⟩
    intro key hkey key' hkey' heq
    rw [heq, List.mem_singleton.1 hkey'] at hkey
    exact hnew hkey

/-! ## Texts -/

/-- The names and types of the parameters of a routine for the type with text `t`. A typed pointer
is incremented by a number of bytes, and anything else by a value of its own type. -/
def parameters (family : Family) (t : String) (pointer : Bool) : List (String × String) :=
  match family with
  | .copy => [("d", "*" ++ t), ("s", "*" ++ t)]
  | .postIncrement | .preIncrement => [("p", "*" ++ t), ("d", if pointer then "int" else t)]
  | .storeBits => [("p", "*" ++ t), ("v", t), ("m", t), ("l", "uint"), ("r", "uint")]
  | .store => [("p", "*" ++ t), ("v", t)]

/-- The type of the result: the pointer that was copied to, or a value. -/
def resultType (family : Family) (t : String) : String := if family = .copy then "*" ++ t else t

/-- The text is that of the routine of the family for the type. It declares a function whose
parameters and result have types that are made of the Go text of the type. -/
def Defines (table : TypeTable) (target : Target) (family : Family) (id : TypeId) (text : String) :
    Prop :=
  ∃ k t, table.kind id = .ok k ∧ ((signature table target id).perform .empty).1 = .ok t ∧
    Go.DeclaresFunction text (name family id)
      (parameters family t (k = .pointer && !TypeTable.isVoidPointer id)) (resultType family t) ∧
    text = definition family id t (k = .pointer && !TypeTable.isVoidPointer id)

/-- A character that is in no stem, and is neither `_` nor a digit, is in no name. -/
theorem not_mem_toList_name {c : Char} (hstem : ∀ family : Family, c ∉ family.stem.toList)
    (hmark : c ≠ '_') (hdigit : c.isDigit = false) (family : Family) (id : TypeId) :
    c ∉ (name family id).toList := by
  intro hc
  rw [toList_name, List.mem_append, List.mem_cons] at hc
  rcases hc with hc | hc | hc
  · exact hstem family hc
  · exact hmark hc
  · have hdigit' := Nat.isDigit_of_mem_toDigits (by decide) (by decide) hc
    rw [hdigit] at hdigit'
    cases hdigit'

/-- The text of a routine has its name, parameters and result in its header. -/
theorem declaresFunction_definition (family : Family) (id : TypeId) (t : String) (pointer : Bool) :
    Go.DeclaresFunction (definition family id t pointer) (name family id)
      (parameters family t pointer) (resultType family t) := by
  unfold definition
  cases family with
  | copy => exact ⟨_, .shared "d" (.last "s" _), by simp [resultType]⟩
  | postIncrement | preIncrement =>
    refine ⟨_, .typed "p" _ (.last "d" _), ?_⟩
    cases pointer <;> simp [resultType]
  | storeBits =>
    exact ⟨_, .typed "p" _ (.shared "v" (.typed "m" _ (.shared "l" (.last "r" _)))),
      by simp [resultType]⟩
  | store => exact ⟨_, .typed "p" _ (.last "v" _), by simp [resultType]⟩

/-- The text of a routine declares its name. -/
theorem Defines.declaredName_eq {table : TypeTable} {target : Target} {family : Family}
    {id : TypeId} {text : String} (h : Defines table target family id text) :
    Go.declaredName text = name family id := by
  obtain ⟨k, t, -, -, hheader, -⟩ := h
  have hblank : ' ' ∉ (name family id).toList :=
    not_mem_toList_name (by rintro ⟨⟩ <;> decide) (by decide) (by decide) family id
  have hopen : '(' ∉ (name family id).toList :=
    not_mem_toList_name (by rintro ⟨⟩ <;> decide) (by decide) (by decide) family id
  exact hheader.declaredName_eq ⟨hblank, hopen⟩

/-- A routine, with the Go text of its type. -/
structure Entry where
  family : Family
  text : String
  id : TypeId

/-- What the routine is asked for by. -/
def Entry.key (e : Entry) : Family × TypeId := (e.family, e.id)

/-- The place of a family among the texts. -/
def Family.rank : Family → Nat
  | .copy => 0
  | .postIncrement => 1
  | .preIncrement => 2
  | .storeBits => 3
  | .store => 4

/-- The order of routines: by their families, then by the texts of their types, then by the ids of
these. -/
def Entry.Precedes (e e' : Entry) : Prop :=
  e.family.rank < e'.family.rank ∨
    e.family = e'.family ∧ (e.text < e'.text ∨ e.text = e'.text ∧ e.id.val ≤ e'.id.val)

/-- The line is the text of the routine. -/
def Entry.Writes (table : TypeTable) (target : Target) (e : Entry) (line : String) : Prop :=
  ∃ k, table.kind e.id = .ok k ∧ ((signature table target e.id).perform .empty).1 = .ok e.text ∧
    line = definition e.family e.id e.text (k = .pointer && !TypeTable.isVoidPointer e.id)

/-- The lines are the texts of the routines with the given keys, in the order of routines. -/
def Listing (table : TypeTable) (target : Target) (keys : List (Family × TypeId))
    (lines : List String) : Prop :=
  ∃ entries : List Entry, (entries.map Entry.key).Perm keys ∧ entries.Pairwise Entry.Precedes ∧
    List.Forall₂ (Entry.Writes table target) entries lines

/-- The order of routines in a family is by the texts of types, then by their ids. -/
theorem precedes_iff {a b : String × TypeId} :
    precedes a b = true ↔ a.1 < b.1 ∨ a.1 = b.1 ∧ a.2.val ≤ b.2.val := by
  simp [precedes]

/-- Sorted routines are in their order. -/
theorem pairwise_sorted (entries : List (String × TypeId)) :
    (entries.mergeSort precedes).Pairwise fun a b => precedes a b = true := by
  refine List.pairwise_mergeSort ?_ ?_ entries
  · intro a b c hab hbc
    rw [precedes_iff] at *
    rcases hab with hab | ⟨hab, hle⟩ <;> rcases hbc with hbc | ⟨hbc, hle'⟩
    · exact .inl (String.lt_trans hab hbc)
    · exact .inl (hbc ▸ hab)
    · exact .inl (hab ▸ hbc)
    · exact .inr ⟨hab.trans hbc, hle.trans hle'⟩
  · intro a b
    rw [Bool.or_eq_true, precedes_iff, precedes_iff]
    by_cases hlt : a.1 < b.1
    · exact .inl (.inl hlt)
    · by_cases hgt : b.1 < a.1
      · exact .inr (.inl hgt)
      · have heq : a.1 = b.1 := String.le_antisymm (String.not_lt.1 hgt) (String.not_lt.1 hlt)
        exact (Nat.le_total a.2.val b.2.val).imp (fun hle => .inr ⟨heq, hle⟩) fun hle =>
          .inr ⟨heq.symm, hle⟩

section

variable {table : TypeTable} {target : Target}

/-- The text of a routine defines it. -/
theorem Entry.Writes.defines {e : Entry} {line : String} (h : e.Writes table target line) :
    Defines table target e.family e.id line := by
  obtain ⟨k, hk, hsignature, rfl⟩ := h
  exact ⟨k, e.text, hk, hsignature, declaresFunction_definition _ _ _ _, rfl⟩

/-- Which routines were asked for first does not matter for a listing. -/
theorem Listing.perm {keys keys' : List (Family × TypeId)} {lines : List String}
    (h : Listing table target keys lines) (hkeys : keys.Perm keys') :
    Listing table target keys' lines := by
  obtain ⟨entries, hentries, hsorted, hlines⟩ := h
  exact ⟨entries, hentries.trans hkeys, hsorted, hlines⟩

/-- Routines of later families follow. -/
theorem Listing.append {keys keys' : List (Family × TypeId)} {lines lines' : List String}
    (h : Listing table target keys lines) (h' : Listing table target keys' lines')
    (hrank : ∀ key ∈ keys, ∀ key' ∈ keys', key.1.rank < key'.1.rank) :
    Listing table target (keys ++ keys') (lines ++ lines') := by
  obtain ⟨entries, hentries, hsorted, hlines⟩ := h
  obtain ⟨entries', hentries', hsorted', hlines'⟩ := h'
  refine ⟨entries ++ entries', ?_, List.pairwise_append.2
    ⟨hsorted, hsorted', fun e he e' he' => .inl ?_⟩, List.rel_append hlines hlines'⟩
  · rw [List.map_append]
    exact hentries.append hentries'
  · have hkey := hentries.mem_iff.1 (List.mem_map_of_mem he)
    have hkey' := hentries'.mem_iff.1 (List.mem_map_of_mem he')
    exact hrank e.key hkey e'.key hkey'

/-- The texts of a family are those of its routines for the given types, sorted. -/
theorem maintains_familyTexts (family : Family) (ids : List TypeId) :
    Maintains (Settled table target) (familyTexts table target family ids)
      (Listing table target (ids.map (family, ·))) := by
  unfold familyTexts
  have hentry (id : TypeId) : Maintains (Settled table target)
      (do return ((← TypeText.goType table target id).text, id)) fun entry =>
        ((signature table target entry.2).perform .empty).1 = .ok entry.1 ∧ entry.2 = id :=
    maintains_bind (TypeText.maintains_goType id) fun t ht =>
      maintains_pure ⟨TypeText.signature_eq_ok_iff.2 ⟨t, ht, rfl⟩, rfl⟩
  refine maintains_bind (maintains_mapM hentry ids) fun entries hentries => ?_
  have htext (entry : String × TypeId) : Maintains (Settled table target) (do
      let pointer := (← table.kind entry.2) = .pointer && !TypeTable.isVoidPointer entry.2
      return definition family entry.2 entry.1 pointer) fun text => ∃ k,
        table.kind entry.2 = .ok k ∧
        text = definition family entry.2 entry.1
          (k = .pointer && !TypeTable.isVoidPointer entry.2) :=
    maintains_bind (maintains_lift _) fun k hk => maintains_pure ⟨k, hk, rfl⟩
  -- The entries are sorted by their texts, but each keeps its type beside its text.
  refine (maintains_mapM htext _).weaken fun texts htexts => ?_
  obtain ⟨hsignature, heach⟩ := (List.forall₂_and_left _ _).1 hentries.flip
  have hperm := List.mergeSort_perm entries precedes
  have hkeys : entries.map (·.2) = ids := by
    rwa [← List.forall₂_eq_eq_eq, List.forall₂_map_left_iff]
  refine ⟨(entries.mergeSort precedes).map fun entry => ⟨family, entry.1, entry.2⟩, ?_, ?_, ?_⟩
  · rw [← hkeys, List.map_map, List.map_map]
    exact hperm.map _
  · rw [List.pairwise_map]
    exact (pairwise_sorted entries).imp fun hle => .inr ⟨rfl, precedes_iff.1 hle⟩
  · rw [List.forall₂_map_left_iff]
    have hsorted := (List.forall₂_and_left _ _).2
      ⟨fun entry hentry => hsignature entry (hperm.mem_iff.1 hentry), htexts⟩
    exact hsorted.imp fun entry text ⟨hsignature, k, hk, htext⟩ => ⟨k, hk, hsignature, htext⟩

/-- Sorting requests by their families leaves the same requests. -/
theorem perm_flatMap_filter (requests : List (Family × TypeId)) :
    (Family.all.flatMap fun family => requests.filter (·.1 = family)).Perm requests := by
  rw [List.perm_iff_count]
  rintro ⟨family, id⟩
  have hcount (other : Family) : (requests.filter (·.1 = other)).count (family, id) =
      if family = other then requests.count (family, id) else 0 := by
    split
    · exact List.count_filter (by simpa)
    · simp_all [List.count_eq_zero]
  cases family <;> simp [Family.all, hcount]

/-- The types of a family are those that it was asked for with. -/
theorem Needs.perm_types (needs : Needs) (family : Family) :
    ((needs.types family).map (family, ·)).Perm (needs.requests.filter (·.1 = family)) := by
  have hkeys : ((needs.requests.filter (·.1 = family)).map (·.2)).map (family, ·) =
      needs.requests.filter (·.1 = family) := by
    rw [List.map_map]
    refine (List.map_congr_left fun key hkey => ?_).trans (List.map_id _)
    have hfamily : key.1 = family := by simpa using (List.mem_filter.1 hkey).2
    exact Prod.ext hfamily.symm rfl
  have hperm :=
    (List.mergeSort_perm ((needs.requests.filter (·.1 = family)).map (·.2)) fun a b => a.val ≤
      b.val).map
    (family, ·)
  rwa [hkeys] at hperm

/-- The routines of families are written one family after the other. -/
theorem listing_flatten {needs : Needs} {families : List Family} {lists : List (List String)}
    (hfamilies : families.Pairwise fun a b => a.rank < b.rank)
    (h : List.Forall₂ (fun family => Listing table target ((needs.types family).map (family, ·)))
      families lists) :
    Listing table target (families.flatMap fun family => needs.requests.filter (·.1 = family))
      lists.flatten := by
  induction h with
  | nil => exact ⟨[], .nil, .nil, .nil⟩
  | @cons family lines families lists hfirst _ ih =>
    obtain ⟨hlater, hfamilies⟩ := List.pairwise_cons.1 hfamilies
    refine (hfirst.perm (needs.perm_types family)).append (ih hfamilies) fun key hkey key' hkey' =>
      ?_
    obtain ⟨family', hfamily', hkey'⟩ := List.mem_flatMap.1 hkey'
    rw [of_decide_eq_true (List.mem_filter.1 hkey).2,
      of_decide_eq_true (List.mem_filter.1 hkey').2]
    exact hlater family' hfamily'

/-- The texts are those of the routines asked for, in the order of routines. -/
theorem maintains_texts (needs : Needs) :
    Maintains (Settled table target) (texts table target needs)
      (Listing table target needs.requests) := by
  unfold texts
  refine maintains_bind (maintains_mapM (fun family => maintains_familyTexts family _) _)
    fun lists hlists => ?_
  exact maintains_pure ((listing_flatten (by decide) hlists).perm
    (perm_flatMap_filter needs.requests))

section

variable {order : List (Family × TypeId)} {list : List String}
  (h : List.Forall₂ (fun key text => Defines table target key.1 key.2 text) order list)
include h

/-- No routine declares a name that is none of a routine that was asked for. -/
theorem filter_texts_eq_nil {f : String} (hf : ∀ key ∈ order, name key.1 key.2 ≠ f) :
    list.filter (Go.declaredName · = f) = [] := by
  induction h with
  | nil => rfl
  | @cons key text order list hfirst _ ih =>
    rw [List.filter_cons_of_neg]
    · exact ih fun key hkey => hf key (List.mem_cons_of_mem _ hkey)
    · simpa [hfirst.declaredName_eq] using hf key List.mem_cons_self

/-- A routine that was asked for once is declared once. -/
theorem filter_texts (hnodup : order.Nodup) {family : Family} {id : TypeId}
    (hmem : (family, id) ∈ order) :
    ∃ text, Defines table target family id text ∧
    list.filter (Go.declaredName · = name family id) = [text] := by
  induction h with
  | nil => cases hmem
  | @cons key text order list hfirst hrest ih =>
    obtain ⟨hkey, hnodup⟩ := List.nodup_cons.1 hnodup
    have hdeclared : Go.declaredName text = name key.1 key.2 := hfirst.declaredName_eq
    rcases List.mem_cons.1 hmem with rfl | hmem
    · refine ⟨text, hfirst, ?_⟩
      have hothers : list.filter (Go.declaredName · = name family id) = [] := by
        refine filter_texts_eq_nil hrest fun key' hkey' heq => hkey ?_
        obtain ⟨hfamily, hid⟩ := name_inj heq
        rwa [show (family, id) = key' from Prod.ext hfamily.symm hid.symm]
      rw [List.filter_cons_of_pos (by simpa using hdeclared), hothers]
    · rw [List.filter_cons_of_neg]
      · exact ih hnodup hmem
      · intro heq
        obtain ⟨hfamily, hid⟩ := name_inj (hdeclared.symm.trans (of_decide_eq_true heq))
        exact hkey (by rwa [show key = (family, id) from Prod.ext hfamily hid])

end

end

end StackToGo.Routine
