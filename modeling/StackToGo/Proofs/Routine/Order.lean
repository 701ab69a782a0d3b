import StackToGo.Proofs.Routine

/-!
# The order of routines

The texts of routines follow from the set of the routines asked for. The order and the number of
the requests are lost when the types of a family are sorted (`Needs.types_eq`), and what has been
remembered about Go types does not show in an answer (`computes_texts`). Types of the same Go text
stay apart by their ids.
-/

namespace StackToGo

namespace TypeText

/-- The memory after requests, whether they failed or not. -/
def memoryAfter (table : TypeTable) (target : Target) (history : List Request) : TypeText :=
  history.foldl (fun m request => ((request.answer table target).perform m).2) .empty

/-- The memory after requests is right. -/
theorem settled_memoryAfter (table : TypeTable) (target : Target) (history : List Request) :
    Settled table target (memoryAfter table target history) := by
  refine List.foldlRecOn history _ settled_empty fun m hm request _ => ?_
  obtain ⟨r, hr⟩ := computes_answer table target request
  exact (hr m hm).2

end TypeText

namespace Routine

open StackToGo.Action
open StackToGo.TypeText (Settled Expands expansion memoryAfter settled_memoryAfter)

variable {table : TypeTable} {target : Target}

/-! ## Requests one after another -/

/-- What is asked for by requests one after another. -/
def Needs.ofRequests (requests : List (Family × TypeId)) : Needs :=
  requests.foldl (fun needs key => needs.require key.1 key.2) .empty

/-- Just what was requested is asked for. -/
theorem Needs.mem_ofRequests {requests : List (Family × TypeId)} {key : Family × TypeId} :
    key ∈ (Needs.ofRequests requests).requests ↔ key ∈ requests := by
  have hfold (needs : Needs) :
      key ∈ (requests.foldl (fun needs key => needs.require key.1 key.2) needs).requests ↔
        key ∈ needs.requests ∨ key ∈ requests := by
    induction requests generalizing needs with
    | nil => simp
    | cons first rest ih =>
      rw [List.foldl_cons, ih, Needs.mem_require, List.mem_cons, or_assoc, ← Prod.mk.injEq]
  refine (hfold .empty).trans ?_
  simp [Needs.empty]

/-- Nothing is asked for twice. -/
theorem Needs.nodup_ofRequests (requests : List (Family × TypeId)) :
    (Needs.ofRequests requests).requests.Nodup :=
  List.foldlRecOn (motive := fun needs : Needs => needs.requests.Nodup) requests _ List.nodup_nil
    fun _ h key _ => Needs.nodup_require h key.1 key.2

/-- Needs for the same routines have the same types, however they came up. -/
theorem Needs.types_eq {needs needs' : Needs} (hnodup : needs.requests.Nodup)
    (hnodup' : needs'.requests.Nodup) (h : ∀ key, key ∈ needs.requests ↔ key ∈ needs'.requests) :
    needs.types = needs'.types := by
  funext family
  have hperm : needs.requests.Perm needs'.requests :=
    (List.perm_ext_iff_of_nodup hnodup hnodup').2 h
  have hsorted (ids : List TypeId) :
      (ids.mergeSort fun a b => a.val ≤ b.val).Pairwise fun a b : TypeId => a.val ≤ b.val := by
    refine (List.pairwise_mergeSort ?_ ?_ ids).imp of_decide_eq_true
    · intro a b c hab hbc
      exact decide_eq_true ((of_decide_eq_true hab).trans (of_decide_eq_true hbc))
    · intro a b
      simpa using Nat.le_total a.val b.val
  refine List.Perm.eq_of_pairwise (fun a b _ _ hab hba => ?_) (hsorted _) (hsorted _) ?_
  · obtain ⟨a⟩ := a
    obtain ⟨b⟩ := b
    exact congrArg TypeId.mk (Nat.le_antisymm hab hba)
  · exact (List.mergeSort_perm _ _).trans
      (((hperm.filter _).map _).trans (List.mergeSort_perm _ _).symm)

/-! ## Texts without memory -/

/-- The texts of a family do not depend on memory, and are refused only with what refuses one of
its types. -/
theorem computes_familyTexts (table : TypeTable) (target : Target) (family : Family)
    (ids : List TypeId) :
    ∃ r, Computes (Settled table target) (familyTexts table target family ids) r ∧
      ∀ e, r = .error e → ∃ id ∈ ids,
      expansion table target (table.size + 1) [] id = .error e := by
  have hentry (id : TypeId) : Computes (Settled table target)
      (do return ((← TypeText.goType table target id).text, id))
      (do return ((← expansion table target (table.size + 1) [] id).text, id)) :=
    computes_bind (TypeText.computes_goType id) fun t _ => computes_pure (t.text, id)
  refine ⟨_, computes_bind (computes_mapM fun id _ => hentry id) fun entries _ =>
    computes_mapM fun entry _ =>
    computes_bind (computes_lift (table.kind entry.2)) fun k _ => computes_pure _, fun e he => ?_⟩
  rcases bind_eq_error_iff.1 he with he | ⟨entries, hentries, he⟩
  · obtain ⟨id, hid, he⟩ := exists_of_mapM_eq_error he
    rcases bind_eq_error_iff.1 he with he | ⟨t, -, he⟩
    · exact ⟨id, hid, he⟩
    · cases he
  · -- Every type has been expanded by now, so it is in the table and has a kind.
    obtain ⟨entry, hentry, he⟩ := exists_of_mapM_eq_error he
    obtain ⟨id, -, hid⟩ := exists_mem_of_forall₂ (mapM_eq_ok_iff.1 hentries).flip
      ((List.mergeSort_perm _ _).mem_iff.1 hentry)
    obtain ⟨t, ht, hpair⟩ := bind_eq_ok_iff.1 hid
    cases hpair
    obtain ⟨ty, hty⟩ := TypeTable.exists_get (TypeText.expands_of_expansion ht).lt_size
    rw [TypeTable.kind, hty] at he
    cases he

/-- The texts do not depend on what is remembered, and fail only with the failure of a type. -/
theorem computes_texts (table : TypeTable) (target : Target) (needs : Needs) :
    ∃ r, Computes (Settled table target) (texts table target needs) r ∧
      ∀ e, r = .error e → ∃ key ∈ needs.requests,
      expansion table target (table.size + 1) [] key.2 = .error e := by
  choose r hr using fun family => computes_familyTexts table target family (needs.types family)
  refine ⟨_, computes_bind (computes_mapM fun family _ => (hr family).1) fun lists _ =>
    computes_pure _, fun e he => ?_⟩
  rcases bind_eq_error_iff.1 he with he | ⟨lists, -, he⟩
  · obtain ⟨family, -, he⟩ := exists_of_mapM_eq_error he
    obtain ⟨id, hid, he⟩ := (hr family).2 e he
    have hkey := (needs.perm_types family).mem_iff.1 (List.mem_map_of_mem hid)
    exact ⟨(family, id), (List.mem_filter.1 hkey).1, he⟩
  · cases he

/-- There are texts if every type that was asked for has a Go type, and only then. -/
theorem exists_texts_iff {needs : Needs} {m : TypeText} (hm : Settled table target m) :
    (∃ list, ((texts table target needs).perform m).1 = .ok list) ↔
      ∀ key ∈ needs.requests, ∃ t, Expands table target key.2 t := by
  constructor
  · rintro ⟨list, hlist⟩ key hkey
    obtain ⟨entries, hkeys, -, hentries⟩ := (maintains_texts needs m hm).2 list hlist
    obtain ⟨e, he, rfl⟩ := List.mem_map.1 (hkeys.mem_iff.2 hkey)
    obtain ⟨line, -, k, -, hsignature, -⟩ := exists_mem_of_forall₂ hentries he
    obtain ⟨t, ht, -⟩ := TypeText.signature_eq_ok_iff.1 hsignature
    exact ⟨t, ht⟩
  · intro h
    obtain ⟨r, hr, herror⟩ := computes_texts table target needs
    rw [(hr m hm).1]
    cases r with
    | ok list => exact ⟨list, rfl⟩
    | error e =>
      obtain ⟨key, hkey, he⟩ := herror e rfl
      obtain ⟨t, ht⟩ := h key hkey
      rw [(TypeText.expansion_eq_ok_iff trail_nil (by simp)).2 ht] at he
      cases he

/-! ## The order of the texts -/

/-- The strict order of routines. -/
def Entry.Before (e e' : Entry) : Prop :=
  e.family.rank < e'.family.rank ∨
    e.family = e'.family ∧ (e.text < e'.text ∨ e.text = e'.text ∧ e.id.val < e'.id.val)

/-- Of two different routines in order, the first is strictly before the second. -/
theorem Entry.Precedes.before {e e' : Entry} (h : e.Precedes e') (hne : e.key ≠ e'.key) :
    e.Before e' := by
  refine h.imp_right fun ⟨hfamily, h⟩ => ⟨hfamily, h.imp_right fun ⟨htext, hid⟩ => ⟨htext, ?_⟩⟩
  refine lt_of_le_of_ne hid fun heq => hne (Prod.ext hfamily ?_)
  obtain ⟨_, _, id⟩ := e
  obtain ⟨_, _, id'⟩ := e'
  exact congrArg TypeId.mk heq

/-- What requests end with, after what has been asked about types before. -/
def textsFor (table : TypeTable) (target : Target) (history : List TypeText.Request)
    (requests : List (Family × TypeId)) : Except Error (List String) :=
  ((texts table target (.ofRequests requests)).perform (memoryAfter table target history)).1

/-- Requests for the same routines, in whatever order and however often, end with the same texts or
the same refusal, whatever has been asked about types before. There are texts if every type has a
Go type. They are then the texts of these routines, each once, in strictly ascending order, and
declare as many different names. -/
theorem texts_determined_by_needs (table : TypeTable) (target : Target)
    (history history' : List TypeText.Request) (requests requests' : List (Family × TypeId))
    (h : ∀ key, key ∈ requests ↔ key ∈ requests') :
    textsFor table target history requests = textsFor table target history' requests' ∧
      ((∃ list, textsFor table target history requests = .ok list) ↔
        ∀ key ∈ requests, ∃ t, Expands table target key.2 t) ∧
      ∀ list, textsFor table target history requests = .ok list →
        ∃ entries : List Entry, (∀ key, key ∈ entries.map Entry.key ↔ key ∈ requests) ∧
          entries.Pairwise Entry.Before ∧ List.Forall₂ (Entry.Writes table target) entries list ∧
          list.map Go.declaredName = entries.map (fun e => name e.family e.id) ∧
          (list.map Go.declaredName).Nodup := by
  have hm := settled_memoryAfter table target history
  have hnodup := Needs.nodup_ofRequests requests
  refine ⟨?_, ?_, fun list hlist => ?_⟩
  · have hneeds : texts table target (.ofRequests requests) =
        texts table target (.ofRequests requests') := by
      unfold texts
      rw [Needs.types_eq hnodup (Needs.nodup_ofRequests requests') fun key => by
        rw [Needs.mem_ofRequests, Needs.mem_ofRequests, h]]
    obtain ⟨r, hr, -⟩ := computes_texts table target (.ofRequests requests')
    rw [textsFor, hneeds, (hr _ hm).1, textsFor,
      (hr _ (settled_memoryAfter table target history')).1]
  · rw [textsFor, exists_texts_iff hm]
    exact forall_congr' fun key => by rw [Needs.mem_ofRequests]
  · obtain ⟨entries, hkeys, hsorted, hentries⟩ := (maintains_texts _ _ hm).2 list hlist
    have hdistinct : (entries.map Entry.key).Nodup := hkeys.nodup_iff.2 hnodup
    have hnames : list.map Go.declaredName = entries.map (fun e => name e.family e.id) := by
      rw [← List.forall₂_eq_eq_eq, List.forall₂_map_left_iff, List.forall₂_map_right_iff]
      exact hentries.flip.imp fun line e he => (Entry.Writes.defines he).declaredName_eq
    refine ⟨entries, fun key => hkeys.mem_iff.trans Needs.mem_ofRequests, ?_, hentries, hnames, ?_⟩
    · exact (hsorted.and (List.pairwise_map.1 hdistinct)).imp fun ⟨hle, hne⟩ => hle.before hne
    · rw [hnames, List.Nodup, List.pairwise_map]
      refine (List.pairwise_map.1 hdistinct).imp fun hne heq => hne ?_
      obtain ⟨hfamily, hid⟩ := name_inj heq
      exact Prod.ext hfamily hid

/-- A function without results, a pointer to it that has the same Go text, and a struct that
contains itself. -/
def tiedTable : TypeTable :=
  TypeTable.empty.internEach [.function [] [] false, .pointer ⟨14⟩, .struct [⟨16⟩]]

/-- Two stores for the same Go text are asked for in another order, one of them twice, and after
types were looked up. -/
theorem tiedTable_texts :
    textsFor tiedTable ⟨8, false⟩ [.signature ⟨16⟩, .signature ⟨15⟩]
        [(.store, ⟨15⟩), (.copy, ⟨14⟩), (.store, ⟨14⟩), (.store, ⟨15⟩)] =
      textsFor tiedTable ⟨8, false⟩ [] [(.copy, ⟨14⟩), (.store, ⟨14⟩), (.store, ⟨15⟩)] ∧
    ∃ list, textsFor tiedTable ⟨8, false⟩ [.signature ⟨16⟩, .signature ⟨15⟩]
      [(.store, ⟨15⟩), (.copy, ⟨14⟩), (.store, ⟨14⟩), (.store, ⟨15⟩)] = .ok list := by
  have hsame (key : Family × TypeId) :
      key ∈ [(.store, ⟨15⟩), (.copy, ⟨14⟩), (.store, ⟨14⟩), (.store, ⟨15⟩)] ↔
      key ∈ [(.copy, ⟨14⟩), (.store, ⟨14⟩), (Family.store, (⟨15⟩ : TypeId))] := by
    simp only [List.mem_cons, List.not_mem_nil, or_false]
    tauto
  obtain ⟨heq, hok, -⟩ :=
    texts_determined_by_needs tiedTable ⟨8, false⟩ [.signature ⟨16⟩, .signature ⟨15⟩] [] _ _ hsame
  refine ⟨heq, hok.2 fun key hkey => ?_⟩
  have hfunction : ((TypeText.signature tiedTable ⟨8, false⟩ ⟨14⟩).perform .empty).1 =
      .ok "func()" := rfl
  have hpointer : ((TypeText.signature tiedTable ⟨8, false⟩ ⟨15⟩).perform .empty).1 =
      .ok "func()" := rfl
  have hid : key.2 = ⟨14⟩ ∨ key.2 = ⟨15⟩ := by
    revert key
    decide
  rcases hid with hid | hid <;> rw [hid]
  · exact (TypeText.signature_eq_ok_iff.1 hfunction).imp fun t ht => ht.1
  · exact (TypeText.signature_eq_ok_iff.1 hpointer).imp fun t ht => ht.1

end Routine

end StackToGo
