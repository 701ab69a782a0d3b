import StackToGo.Proofs.TypeText.Expansion

/-!
# Go types with and without memory

What `TypeText.goType` answers is what `TypeText.expansion` finds without any memory, whatever has
been asked for before and whether it failed or not (`TypeText.computes_goType`). Its recursion is
also cut here at any depth, with what happens below the cut and what the size of a type that
contains itself might be left open: neither is ever asked for, so the recursion ends by itself.
Then the types that are given a Go type are known exactly, and the order of requests does not
matter.
-/

namespace StackToGo

namespace TypeText

open StackToGo.Action

section

variable {table : TypeTable} {target : Target} {id : TypeId} {opened : List TypeId}

/-- Answers from memory, or else by an expansion during which the type is open. -/
def remembering (id : TypeId) (expansion : Action TypeText Go.Ty) : Action TypeText Go.Ty := do
  match (← get).types.lookup id with
  | some t => return t
  | none =>
    if id ∈ (← get).opened then throw (.unsupported .unknown (.recursiveType id))
    modify fun m => { m with opened := id :: m.opened }
    let t ← expansion.andAfter fun m => { m with opened := m.opened.erase id }
    modify fun m => { m with types := (id, t) :: m.types }
    return t

/-- The Go type of a type, expanded down to `depth` types deep, with `rest` for what lies deeper
and `size` for the sizes of unions. -/
def goTypeAbove (table : TypeTable) (size : TypeId → Action TypeText Nat)
    (rest : TypeId → Action TypeText Go.Ty) :
    Nat → TypeId → Action TypeText Go.Ty
  | 0, id => rest id
  | depth + 1, id => remembering id (expandWith table size (goTypeAbove table size rest depth) id)

/-- The limited Go type is the one with an error for what lies deeper. -/
theorem goTypeWithin_eq_goTypeAbove (depth : Nat) :
    goTypeWithin table target depth =
      goTypeAbove table (sizeOf table target)
        (fun id => throw (.unsupported .unknown (.recursiveType id))) depth := by
  induction depth with
  | zero => rfl
  | succ depth ih =>
    funext id
    rw [goTypeAbove, ← ih, ← expand_eq_expandWith]
    rfl

/-- A type that is open and not remembered is refused. -/
theorem computes_remembering_of_mem {expansion : Action TypeText Go.Ty} (hid : id ∈ opened)
    (hexpands : ∀ t, ¬Expands table target id t) :
    Computes (Remembers table target opened) (remembering id expansion)
      (throw (.unsupported .unknown (.recursiveType id))) := by
  intro m hm
  unfold remembering
  rw [perform_bind, perform_get]
  dsimp only
  split
  case h_1 t ht => exact absurd (hm.types id t ht) (hexpands t)
  case h_2 =>
    rw [perform_bind, perform_get]
    dsimp only
    rw [if_pos (hm.opened ▸ hid)]
    exact ⟨rfl, hm⟩

/-- Memory does not change what an expansion ends with. -/
theorem computes_remembering {expansion : Action TypeText Go.Ty} {r : Except Error Go.Ty}
    (hid : id ∉ opened) (hexpansion : Computes (Remembers table target (id :: opened)) expansion r)
    (hr : ∀ t, r = .ok t ↔ Expands table target id t) :
    Computes (Remembers table target opened) (remembering id expansion) r := by
  intro m hm
  unfold remembering
  rw [perform_bind, perform_get]
  dsimp only
  split
  case h_1 t ht => exact ⟨((hr t).2 (hm.types id t ht)).symm, hm⟩
  case h_2 =>
    have hopen : Remembers table target (id :: opened) { m with opened := id :: m.opened } :=
      ⟨hm.types, hm.sizes, congrArg (id :: ·) hm.opened⟩
    obtain ⟨hresult, hclosed⟩ := hexpansion _ hopen
    have hafter : Remembers table target opened
        { (expansion.perform { m with opened := id :: m.opened }).2 with
          opened := (expansion.perform { m with opened := id :: m.opened }).2.opened.erase id } :=
      ⟨hclosed.types, hclosed.sizes, by simp [hclosed.opened]⟩
    rw [perform_bind, perform_get]
    dsimp only
    rw [if_neg (hm.opened ▸ hid)]
    simp only [perform_bind, perform_modify, perform_andAfter, hresult]
    cases r with
    | error e => exact ⟨rfl, hafter⟩
    | ok t => exact ⟨rfl, hafter.addType ((hr t).1 rfl)⟩

/-- The members of a union have been expanded before its size is asked for, so that it does not
contain itself. -/
theorem loopFree_of_members {members : List TypeId} {ts : List Go.Ty} {depth : Nat}
    (hget : table.get id = .ok (.union members))
    (h : members.mapM (expansion table target depth opened) = .ok ts) :
    LoopFree table.Embeds id := by
  have hacc : ∀ x ∈ members, Acc (fun a b => table.Mentions b a) x := by
    have hts := mapM_eq_ok_iff.1 h
    clear h hget
    induction hts with
    | nil => exact fun x hx => by cases hx
    | cons ht _ ih => exact List.forall_mem_cons.2 ⟨(expands_of_expansion ht).acc, ih⟩
  exact (loopFree_of_acc (acc_of_get hget hacc)).mono fun _ _ h => h.mentions

/-- With or without memory, and wherever the recursion is cut below the length of the table, the
answer is the same. -/
theorem computes_goTypeAbove {size : TypeId → Action TypeText Nat}
    {rest : TypeId → Action TypeText Go.Ty}
    (hsize : ∀ u, LoopFree table.Embeds u → size u = sizeOf table target u) {depth depth' : Nat}
    (htrail : Trail table.Mentions table.size opened id)
    (hdepth : table.size < depth + opened.length) (hdepth' : table.size < depth' + opened.length) :
    Computes (Remembers table target opened) (goTypeAbove table size rest depth id)
      (expansion table target depth' opened id) := by
  have hlength := htrail.length_le
  induction depth generalizing depth' opened id with
  | zero => omega
  | succ depth ih =>
    have hanswer : ∀ t, expansion table target depth' opened id = .ok t ↔
        Expands table target id t :=
      fun _ => expansion_eq_ok_iff htrail hdepth'
    obtain ⟨depth', rfl⟩ : ∃ k, depth' = k + 1 := ⟨depth' - 1, by omega⟩
    rw [goTypeAbove]
    by_cases hid : id ∈ opened
    · rw [expansion, if_pos hid]
      exact computes_remembering_of_mem hid fun t ht => htrail.not_mem (loopFree_of_acc ht.acc) hid
    · refine computes_remembering hid ?_ hanswer
      rw [expansion, if_neg hid]
      refine computes_expandWith (fun x hx => ?_) fun members ts hget hts => ?_
      · have hnext := htrail.cons hid hx.lt_size hx
        refine ih hnext ?_ ?_ hnext.length_le
        · rw [List.length_cons]
          omega
        · rw [List.length_cons]
          omega
      · rw [hsize id (loopFree_of_members hget hts)]
        exact computes_sizeOf _ _

/-- Go types are computed as if nothing was remembered. -/
theorem computes_goType (id : TypeId) :
    Computes (Settled table target) (goType table target id)
      (expansion table target (table.size + 1) [] id) := by
  rw [goType, goTypeWithin_eq_goTypeAbove]
  exact computes_goTypeAbove (fun _ _ => rfl) trail_nil (by simp) (by simp)

/-- The Go text of a type. -/
def signature (table : TypeTable) (target : Target) (id : TypeId) : Action TypeText String := do
  return (← goType table target id).text

/-- Texts of types are computed as if nothing was remembered. -/
theorem computes_signature (id : TypeId) :
    Computes (Settled table target) (signature table target id)
      (do return (← expansion table target (table.size + 1) [] id).text) :=
  computes_bind (computes_goType id) fun t _ => computes_pure t.text

/-- On a fresh memory the Go text of a type is that of its expansion. -/
theorem signature_eq_ok_iff {text : String} :
    ((signature table target id).perform .empty).1 = .ok text ↔
    ∃ t, Expands table target id t ∧ t.text = text := by
  rw [(computes_signature id .empty settled_empty).1, bind_eq_ok_iff]
  refine exists_congr fun t => and_congr (expansion_eq_ok_iff trail_nil (by simp)) ?_
  exact Iff.of_eq (Except.ok.injEq _ _)

/-- On a fresh memory, expanding a type always ends, and ends with a Go text just for the types of
the table that are representable. Here `rest` stands for whatever might happen deeper than the
table is long, and `size` sizes unions as it should only where a type does not contain itself. As
neither shows in the answer, the recursion never gets so deep and never asks for the size of a type
that contains itself; and for all others finding the size ends as well. -/
theorem signature_ends_and_ok_iff (hclosed : table.Closed) (target : Target) (id : TypeId) :
    (∀ (size : TypeId → Action TypeText Nat) (rest : TypeId → Action TypeText Go.Ty) (depth : Nat),
      (∀ u, LoopFree table.Embeds u → size u = sizeOf table target u) → table.size < depth →
        ((goTypeAbove table size rest depth id).perform .empty).1 =
          ((goType table target id).perform .empty).1) ∧
    (∀ (u : TypeId) (rest : TypeId → Extent) (depth : Nat), LoopFree table.Embeds u →
      table.size < depth →
      table.extentAbove target rest depth u = table.extent target u) ∧
    ((∃ text, ((signature table target id).perform .empty).1 = .ok text) ↔
      id.val < table.size ∧ Representable table target id) := by
  refine ⟨fun size rest depth hsize hdepth => ?_, fun u rest depth hu hdepth => ?_, ?_⟩
  · have habove : Computes (Settled table target) (goTypeAbove table size rest depth id)
        (expansion table target (table.size + 1) [] id) :=
      computes_goTypeAbove hsize trail_nil (by simpa using hdepth) (by simp)
    rw [(habove .empty settled_empty).1, (computes_goType id .empty settled_empty).1]
  · exact TypeTable.extentAbove_eq_extent hu rest hdepth
  · constructor
    · rintro ⟨text, htext⟩
      obtain ⟨t, ht, -⟩ := signature_eq_ok_iff.1 htext
      exact ⟨ht.lt_size, ht.representable⟩
    · rintro ⟨hid, hrepresentable⟩
      obtain ⟨t, ht⟩ := hrepresentable.exists_expands hclosed hid
      exact ⟨t.text, signature_eq_ok_iff.2 ⟨t, ht, rfl⟩⟩

/-- A struct with a pointer to a later union, and a struct with a pointer back to it. -/
def forwardTable : TypeTable :=
  TypeTable.empty.internEach [.struct [⟨4⟩, ⟨15⟩], .pointer ⟨16⟩, .union [⟨4⟩, ⟨9⟩],
    .struct [⟨18⟩], .pointer ⟨17⟩]

/-- The first struct is representable, and the last type is not. -/
theorem forwardTable_representable :
    forwardTable.Closed ∧ Representable forwardTable ⟨8, false⟩ ⟨14⟩ ∧
      ¬Representable forwardTable ⟨8, false⟩ ⟨17⟩ := by
  have hclosed : forwardTable.Closed := by decide
  refine ⟨hclosed, ((signature_ends_and_ok_iff hclosed ⟨8, false⟩ ⟨14⟩).2.2.1 ⟨_, rfl⟩).2,
    fun h => ?_⟩
  obtain ⟨text, htext⟩ := (signature_ends_and_ok_iff hclosed ⟨8, false⟩ ⟨17⟩).2.2.2 ⟨by decide, h⟩
  cases htext

/-! ## Any order of requests -/

/-- What may be asked about a type. -/
inductive Request where
  | signature (id : TypeId)
  | size (id : TypeId)
  deriving DecidableEq, Repr

inductive Answer where
  | text (text : String)
  | size (size : Nat)
  deriving DecidableEq, Repr

/-- Answers a request, from memory or not. -/
def Request.answer (table : TypeTable) (target : Target) : Request → Action TypeText Answer
  | .signature id => do return .text (← TypeText.signature table target id)
  | .size id => do return .size (← sizeOf table target id)

/-- Answers requests one after another, and gives each answer with the memory after it. A request
that fails does not keep the next one from being answered. -/
def serve (table : TypeTable) (target : Target) :
    List Request → TypeText → List (Except Error Answer × TypeText)
  | [], _ => []
  | request :: rest, m =>
    let outcome := (request.answer table target).perform m
    outcome :: serve table target rest outcome.2

/-- Every request is answered as if nothing was remembered. -/
theorem computes_answer (table : TypeTable) (target : Target) (request : Request) :
    ∃ r, Computes (Settled table target) (request.answer table target) r := by
  cases request with
  | signature id =>
    exact ⟨_, computes_bind (computes_signature id) fun text _ => computes_pure (Answer.text text)⟩
  | size id =>
    exact ⟨_, computes_bind (computes_sizeOf [] id) fun size _ => computes_pure (Answer.size size)⟩

/-- A settled memory stays settled, and answers as a fresh one does. -/
theorem Settled.serve {m : TypeText} (hm : Settled table target m) (requests : List Request) :
    (serve table target requests m).map Prod.fst =
        requests.map (fun request => ((request.answer table target).perform .empty).1) ∧
      ∀ outcome ∈ TypeText.serve table target requests m, Settled table target outcome.2 := by
  induction requests generalizing m with
  | nil => exact ⟨rfl, fun outcome h => by cases h⟩
  | cons request rest ih =>
    obtain ⟨r, hr⟩ := computes_answer table target request
    obtain ⟨hanswer, hsettled⟩ := hr m hm
    obtain ⟨hanswers, hafter⟩ := ih hsettled
    refine ⟨?_, List.forall_mem_cons.2 ⟨hsettled, hafter⟩⟩
    rw [List.map_cons, ← hanswers, (hr .empty settled_empty).1, ← hanswer]
    rfl

/-- Whatever has been asked for before, and whether it failed or not, every request is answered as
on a fresh memory, and no type stays open. -/
theorem answers_independent_of_history (table : TypeTable) (target : Target)
    (requests : List Request) :
    (serve table target requests .empty).map Prod.fst =
        requests.map (fun request => ((request.answer table target).perform .empty).1) ∧
      ∀ outcome ∈ serve table target requests .empty, outcome.2.opened = [] := by
  obtain ⟨hanswers, hafter⟩ := settled_empty.serve requests
  exact ⟨hanswers, fun outcome h => (hafter outcome h).opened⟩

end

end TypeText

end StackToGo
