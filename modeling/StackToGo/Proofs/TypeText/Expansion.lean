import StackToGo.Proofs.Layout.Extents
import StackToGo.Proofs.TypeText

/-!
# Which types have a Go type

`TypeText.expansion` expands a type without remembering anything: it only knows the types that are
being expanded. It succeeds just where `TypeText.Expands` says so (`TypeText.expansion_eq_ok_iff`),
and that in turn is so for the types that are `TypeText.Representable`: no type that is met leads
back to itself, no function has several results, and every union has a size.
-/

namespace StackToGo

open Relation

/-- All of a list have results if each of them has one. -/
theorem mapM_eq_ok_iff {ε α β : Type} {f : α → Except ε β} {list : List α} {results : List β} :
    list.mapM f = .ok results ↔ List.Forall₂ (fun a b => f a = .ok b) list results := by
  induction list generalizing results with
  | nil =>
    rw [List.mapM_nil, List.forall₂_nil_left_iff]
    exact ⟨fun h => by cases h; rfl, fun h => by rw [h]; rfl⟩
  | cons a list ih =>
    rw [List.mapM_cons]
    constructor
    · intro h
      cases hb : f a with
      | error e => rw [hb] at h; cases h
      | ok b =>
        cases hbs : list.mapM f with
        | error e => rw [hb, hbs] at h; cases h
        | ok bs =>
          rw [hb, hbs] at h
          cases h
          exact .cons hb (ih.1 hbs)
    · rintro (_ | ⟨hb, hbs⟩)
      rw [hb, ih.2 hbs]
      rfl

/-- A list fails with the failure of one of it. -/
theorem exists_of_mapM_eq_error {ε α β : Type} {f : α → Except ε β} {list : List α} {e : ε}
    (h : list.mapM f = .error e) : ∃ a ∈ list, f a = .error e := by
  induction list with
  | nil => cases h
  | cons a list ih =>
    rw [List.mapM_cons, bind_eq_error_iff] at h
    rcases h with h | ⟨b, -, h⟩
    · exact ⟨a, List.mem_cons_self, h⟩
    · rcases bind_eq_error_iff.1 h with h | ⟨bs, -, h⟩
      · obtain ⟨a', ha', he⟩ := ih h
        exact ⟨a', List.mem_cons_of_mem _ ha', he⟩
      · cases h

/-- Where each of a list is related to something, there is a related list. -/
theorem exists_forall₂ {α β : Type} {R : α → β → Prop} {list : List α}
    (h : ∀ a ∈ list, ∃ b, R a b) : ∃ bs, List.Forall₂ R list bs := by
  induction list with
  | nil => exact ⟨[], .nil⟩
  | cons a list ih =>
    obtain ⟨⟨b, hb⟩, hlist⟩ := List.forall_mem_cons.1 h
    obtain ⟨bs, hbs⟩ := ih hlist
    exact ⟨b :: bs, .cons hb hbs⟩

/-- Each of a list is related to one of a related list. -/
theorem exists_mem_of_forall₂ {α β : Type} {R : α → β → Prop} {l : List α} {l' : List β}
    (h : List.Forall₂ R l l') {a : α} (ha : a ∈ l) : ∃ b ∈ l', R a b := by
  induction h with
  | nil => cases ha
  | cons hab _ ih =>
    rcases List.mem_cons.1 ha with rfl | ha
    · exact ⟨_, List.mem_cons_self, hab⟩
    · obtain ⟨b, hb, hR⟩ := ih ha
      exact ⟨b, List.mem_cons_of_mem _ hb, hR⟩

namespace Action

section

variable {σ α β : Type} {I : σ → Prop}

/-- On a state with the invariant the action ends with the given result, and keeps the
invariant. -/
def Computes (I : σ → Prop) (m : Action σ α) (r : Except Error α) : Prop :=
  ∀ s, I s → (m.perform s).1 = r ∧ I (m.perform s).2

/-- A result without an action is computed as it is. -/
theorem computes_pure (a : α) : Computes I (pure a : Action σ α) (pure a) := fun _ hs => ⟨rfl, hs⟩

/-- A result from outside of the action is computed as it is. -/
theorem computes_lift (r : Except Error α) : Computes I (liftM r : Action σ α) (liftM r) := by
  intro s hs
  rw [perform_liftExcept]
  exact ⟨rfl, hs⟩

/-- An action and what follows it compute what both do in a row. -/
theorem computes_bind {m : Action σ α} {k : α → Action σ β} {r : Except Error α}
    {k' : α → Except Error β} (hm : Computes I m r)
    (hk : ∀ a, r = .ok a → Computes I (k a) (k' a)) : Computes I (m >>= k) (r >>= k') := by
  intro s hs
  obtain ⟨hr, hs₁⟩ := hm s hs
  rw [perform_bind]
  generalize m.perform s = p at hr hs₁
  obtain ⟨p, s₁⟩ := p
  subst hr
  cases p with
  | error e => exact ⟨rfl, hs₁⟩
  | ok a => exact hk a rfl s₁ hs₁

/-- Actions on all of a list compute the results for all of it. -/
theorem computes_mapM {m : α → Action σ β} {f : α → Except Error β} {list : List α}
    (h : ∀ a ∈ list, Computes I (m a) (f a)) : Computes I (list.mapM m) (list.mapM f) := by
  induction list with
  | nil => exact computes_pure []
  | cons a list ih =>
    obtain ⟨ha, hlist⟩ := List.forall_mem_cons.1 h
    rw [List.mapM_cons, List.mapM_cons]
    exact computes_bind ha fun b _ => computes_bind (ih hlist) fun bs _ => computes_pure _

end

end Action

namespace TypeText

open StackToGo.Action

/-- Expands the type `id`, given how to size a union and how to expand the types that are referred
to. -/
def expandWith {m : Type → Type} [Monad m] [MonadLiftT (Except Error) m] (table : TypeTable)
    (size : TypeId → m Nat) (inner : TypeId → m Go.Ty) (id : TypeId) : m Go.Ty := do
  match ← table.get id with
  | .scalar s => return .scalar s
  | .pointer pointee =>
    if TypeTable.isVoidPointer id then return .uintptr
    else
      let t ← inner pointee
      if (← table.kind pointee) = .function then return t else return .pointer t
  | .array item items => return .array items (← inner item)
  | .struct fields => return .struct (← fields.mapM inner)
  | .union members =>
    let ts ← members.mapM inner
    return .union ts (← size id)
  | .function arguments results variadic =>
    let params ← arguments.mapM inner
    match results with
    | [] => return .func params variadic none
    | [result] => return .func params variadic (some (← inner result))
    | _ =>
      liftM (throw (.unsupported .unknown (.manyResults id results.length)) : Except Error Go.Ty)

section

variable {table : TypeTable} {target : Target} {id : TypeId} {t : Go.Ty}

/-- The expansion is the general one with the memory for the sizes. -/
theorem expand_eq_expandWith (inner : TypeId → Action TypeText Go.Ty) :
    expand table target inner id = expandWith table (sizeOf table target) inner id := rfl

/-- What an expansion ends with depends only on what the inner expansions end with, and on the size
of a union whose members have been expanded. -/
theorem computes_expandWith {I : TypeText → Prop} {size : TypeId → Action TypeText Nat}
    {size' : TypeId → Except Error Nat} {inner : TypeId → Action TypeText Go.Ty}
    {inner' : TypeId → Except Error Go.Ty}
    (hinner : ∀ x, table.Mentions id x → Computes I (inner x) (inner' x))
    (hsize : ∀ members ts, table.get id = .ok (.union members) → members.mapM inner' = .ok ts →
      Computes I (size id) (size' id)) :
    Computes I (expandWith table size inner id) (expandWith table size' inner' id) := by
  unfold expandWith
  refine computes_bind (computes_lift _) fun ty hty => ?_
  have hmentioned : ∀ x ∈ ty.mentioned id, Computes I (inner x) (inner' x) :=
    fun x hx => hinner x ⟨ty, hty, hx⟩
  cases ty with
  | scalar s => exact computes_pure _
  | pointer pointee =>
    dsimp only
    split
    case isTrue => exact computes_pure _
    case isFalse hvoid =>
      refine computes_bind (hmentioned pointee (by simp [Ty.mentioned, hvoid])) fun t _ => ?_
      refine computes_bind (computes_lift _) fun k _ => ?_
      split
      · exact computes_pure _
      · exact computes_pure _
  | array item items =>
    exact computes_bind (hmentioned item (by simp [Ty.mentioned, Ty.references])) fun t _ =>
      computes_pure _
  | struct fields => exact computes_bind (computes_mapM hmentioned) fun ts _ => computes_pure _
  | union members =>
    refine computes_bind (computes_mapM hmentioned) fun ts hts => ?_
    exact computes_bind (hsize members ts hty hts) fun _ _ => computes_pure _
  | function arguments results variadic =>
    have harguments : ∀ x ∈ arguments, Computes I (inner x) (inner' x) :=
      fun x hx => hmentioned x (List.mem_append_left _ hx)
    refine computes_bind (computes_mapM harguments) fun ts _ => ?_
    rcases results with _ | ⟨result, _ | ⟨second, more⟩⟩
    · exact computes_pure _
    · exact computes_bind (hmentioned result (List.mem_append_right _ (List.mem_singleton_self _)))
        fun t _ => computes_pure _
    · exact computes_lift _

/-- Sizes are computed as if nothing was remembered. -/
theorem computes_sizeOf (opened : List TypeId) (id : TypeId) :
    Computes (Remembers table target opened) (sizeOf table target id)
      (table.sizeOf target id) := by
  intro m hm
  unfold sizeOf
  rw [perform_bind, perform_get]
  dsimp only
  split
  case h_1 size hsize => exact ⟨(hm.sizes id size hsize).symm, hm⟩
  case h_2 =>
    rw [perform_bind, perform_liftExcept]
    cases hsize : table.sizeOf target id with
    | error e => exact ⟨rfl, hm⟩
    | ok size => exact ⟨rfl, hm.addSize hsize⟩

/-! ## Expansion without memory -/

/-- Expands the type `id` while the types `opened` are being expanded, looking `depth` types
deep. -/
def expansion (table : TypeTable) (target : Target) :
    Nat → List TypeId → TypeId → Except Error Go.Ty
  | 0, _, id => throw (.unsupported .unknown (.recursiveType id))
  | depth + 1, opened, id =>
    if id ∈ opened then throw (.unsupported .unknown (.recursiveType id))
    else expandWith table (table.sizeOf target) (expansion table target depth (id :: opened)) id

/-- The inner expansions make up an expansion. The actions with memory are known to do so, and
these do the same. -/
theorem expands_of_expandWith {inner : TypeId → Except Error Go.Ty}
    (hinner : ∀ x u, inner x = .ok u → Expands table target x u)
    (h : expandWith table (table.sizeOf target) inner id = .ok t) : Expands table target id t := by
  have hmaintains :
      Maintains (Settled table target) (expand table target (fun x => liftM (inner x)) id)
      (Expands table target id) :=
    maintains_expand (fun x => (maintains_lift _).weaken fun u hu => hinner x u hu) id
  have hcomputes :
      Computes (Settled table target) (expand table target (fun x => liftM (inner x)) id)
      (expandWith table (table.sizeOf target) inner id) :=
    computes_expandWith (fun x _ => computes_lift _) fun _ _ _ _ => computes_sizeOf _ _
  exact (hmaintains .empty settled_empty).2 t ((hcomputes .empty settled_empty).1.trans h)

/-- What is expanded without memory is right. -/
theorem expands_of_expansion {depth : Nat} {opened : List TypeId}
    (h : expansion table target depth opened id = .ok t) :
    Expands table target id t := by
  induction depth generalizing opened id t with
  | zero => cases h
  | succ depth ih =>
    rw [expansion] at h
    split at h
    · cases h
    · exact expands_of_expandWith (fun x u hu => ih hu) h

/-- Ways end from a type if they end from what it mentions. -/
theorem acc_of_get {ty : Ty} (hty : table.get id = .ok ty)
    (hmentioned : ∀ x ∈ ty.mentioned id, Acc (fun a b => table.Mentions b a) x) :
    Acc (fun a b => table.Mentions b a) id := by
  exact .intro id fun x hx => hmentioned x ((TypeTable.mentions_iff hty).1 hx)

/-- A type with an expansion leads back to nothing: the expansion is finite. -/
theorem Expands.acc (h : Expands table target id t) : Acc (fun a b => table.Mentions b a) id := by
  -- The second motive is about the types of a list, each with its expansion.
  refine @Expands.rec table target (fun id _ _ => Acc (fun a b => table.Mentions b a) id)
    (fun ids _ _ => ∀ x ∈ ids, Acc (fun a b => table.Mentions b a) x)
    ?scalar ?voidPointer ?functionPointer ?pointer ?array ?struct ?union ?procedure ?function
    ?nil ?cons id t h
  case scalar => exact fun h => acc_of_get h (by simp [Ty.mentioned, Ty.references])
  case voidPointer => exact fun h hvoid => acc_of_get h (by simp [Ty.mentioned, hvoid])
  case functionPointer =>
    exact fun h hvoid _ _ ih => acc_of_get h (by simpa [Ty.mentioned, hvoid] using ih)
  case pointer =>
    exact fun h hvoid _ _ _ ih => acc_of_get h (by simpa [Ty.mentioned, hvoid] using ih)
  case array => exact fun h _ ih => acc_of_get h (by simpa [Ty.mentioned, Ty.references] using ih)
  case struct => exact fun h _ ih => acc_of_get h ih
  case union => exact fun h _ _ ih => acc_of_get h ih
  case procedure =>
    exact fun h _ ih => acc_of_get h (by simpa [Ty.mentioned, Ty.references] using ih)
  case function =>
    intro id result arguments variadic ts t h _ _ harguments hresult
    refine acc_of_get h fun x hx => ?_
    rcases List.mem_append.1 hx with hx | hx
    · exact harguments x hx
    · rw [List.mem_singleton.1 hx]
      exact hresult
  case nil => exact fun x hx => by cases hx
  case cons => exact fun _ _ ha hlist => List.forall_mem_cons.2 ⟨ha, hlist⟩

/-- An expansion is made of inner expansions. -/
theorem expandWith_of_expands {inner : TypeId → Except Error Go.Ty} (h : Expands table target id t)
    (hinner : ∀ x u, table.Mentions id x → Expands table target x u → inner x = .ok u) :
    expandWith table (table.sizeOf target) inner id = .ok t := by
  have hlist : ∀ {ids ts}, List.Forall₂ (Expands table target) ids ts →
      (∀ x ∈ ids, table.Mentions id x) →
      ids.mapM inner = .ok ts := by
    intro ids ts hts hids
    refine mapM_eq_ok_iff.2 ?_
    induction hts with
    | nil => exact .nil
    | cons hu _ ih =>
      obtain ⟨hx, hids⟩ := List.forall_mem_cons.1 hids
      exact .cons (hinner _ _ hx hu) (ih hids)
  cases h with
  | scalar h => simp [expandWith, h, bind, Except.bind, pure, Except.pure]
  | voidPointer h hvoid => simp [expandWith, h, hvoid, bind, Except.bind, pure, Except.pure]
  | functionPointer h hvoid hkind ht =>
    have hpointee := hinner _ _ ⟨_, h, by simp [Ty.mentioned, hvoid]⟩ ht
    simp [expandWith, h, hvoid, hpointee, hkind, bind, Except.bind, pure, Except.pure]
  | pointer h hvoid hkind hk ht =>
    have hpointee := hinner _ _ ⟨_, h, by simp [Ty.mentioned, hvoid]⟩ ht
    simp [expandWith, h, hvoid, hpointee, hkind, hk, bind, Except.bind, pure, Except.pure]
  | array h ht =>
    have hitem := hinner _ _ ⟨_, h, by simp [Ty.mentioned, Ty.references]⟩ ht
    simp [expandWith, h, hitem, bind, Except.bind, pure, Except.pure]
  | struct h hts =>
    have hfields := hlist hts fun x hx => ⟨_, h, hx⟩
    simp [expandWith, h, hfields, bind, Except.bind, pure, Except.pure]
  | union h hts hsize =>
    have hmembers := hlist hts fun x hx => ⟨_, h, hx⟩
    simp [expandWith, h, hmembers, hsize, bind, Except.bind, pure, Except.pure]
  | procedure h hts =>
    have harguments := hlist hts fun x hx => ⟨_, h, List.mem_append_left _ hx⟩
    simp [expandWith, h, harguments, bind, Except.bind, pure, Except.pure]
  | function h hts ht =>
    have harguments := hlist hts fun x hx => ⟨_, h, List.mem_append_left _ hx⟩
    have hresult := hinner _ _ ⟨_, h, List.mem_append_right _ (List.mem_singleton_self _)⟩ ht
    simp [expandWith, h, harguments, hresult, bind, Except.bind, pure, Except.pure]

/-- Where the trail of opened types leaves room, an expansion is found. -/
theorem expansion_of_expands {depth : Nat} {opened : List TypeId} (h : Expands table target id t)
    (htrail : Trail table.Mentions table.size opened id)
    (hdepth : table.size < depth + opened.length) :
    expansion table target depth opened id = .ok t := by
  have hlength := htrail.length_le
  induction depth generalizing opened id t with
  | zero => omega
  | succ depth ih =>
    have hid : id ∉ opened := htrail.not_mem (loopFree_of_acc h.acc)
    rw [expansion, if_neg hid]
    refine expandWith_of_expands h fun x u hx hu => ?_
    have hnext := htrail.cons hid hx.lt_size hx
    refine ih hu hnext ?_ hnext.length_le
    rw [List.length_cons]
    omega

/-- Without memory a type expands just to what is right for it. -/
theorem expansion_eq_ok_iff {depth : Nat} {opened : List TypeId}
    (htrail : Trail table.Mentions table.size opened id)
    (hdepth : table.size < depth + opened.length) :
    expansion table target depth opened id = .ok t ↔ Expands table target id t :=
  ⟨expands_of_expansion, fun h => expansion_of_expands h htrail hdepth⟩

/-! ## The types that have a Go type -/

/-- Nothing that the Go text of a type is made of stands in the way of writing it. -/
structure Representable (table : TypeTable) (target : Target) (id : TypeId) : Prop where
  loopFree : LoopFree table.Mentions id
  results : ∀ x, ReflTransGen table.Mentions id x → ∀ arguments results variadic,
    table.get x = .ok (.function arguments results variadic) → results.length ≤ 1
  sizes : ∀ x, ReflTransGen table.Mentions id x → ∀ members, table.get x = .ok (.union members) →
    ∃ size, table.sizeOf target x = .ok size

/-- What a representable type mentions is representable. -/
theorem Representable.step {other : TypeId} (h : Representable table target id)
    (hstep : table.Mentions id other) :
    Representable table target other where
  loopFree := h.loopFree.step hstep
  results := fun x hx => h.results x (.head hstep hx)
  sizes := fun x hx => h.sizes x (.head hstep hx)

/-- What is mentioned by a type with an expansion has one too. -/
theorem Expands.exists_of_mentions {other : TypeId} (h : Expands table target id t)
    (hstep : table.Mentions id other) : ∃ u, Expands table target other u := by
  have hlist : ∀ {ids ts}, List.Forall₂ (Expands table target) ids ts → other ∈ ids →
      ∃ u, Expands table target other u := by
    intro ids ts hts hmem
    induction hts with
    | nil => cases hmem
    | cons hu _ ih =>
      rcases List.mem_cons.1 hmem with rfl | hmem
      · exact ⟨_, hu⟩
      · exact ih hmem
  cases h with
  | scalar h => simp [TypeTable.mentions_iff h, Ty.mentioned, Ty.references] at hstep
  | voidPointer h hvoid => simp [TypeTable.mentions_iff h, Ty.mentioned, hvoid] at hstep
  | functionPointer h hvoid _ ht =>
    obtain rfl : other = _ := by simpa [TypeTable.mentions_iff h, Ty.mentioned, hvoid] using hstep
    exact ⟨_, ht⟩
  | pointer h hvoid _ _ ht =>
    obtain rfl : other = _ := by simpa [TypeTable.mentions_iff h, Ty.mentioned, hvoid] using hstep
    exact ⟨_, ht⟩
  | array h ht =>
    obtain rfl : other = _ :=
      by simpa [TypeTable.mentions_iff h, Ty.mentioned, Ty.references] using hstep
    exact ⟨_, ht⟩
  | struct h hts => exact hlist hts ((TypeTable.mentions_iff h).1 hstep)
  | union h hts => exact hlist hts ((TypeTable.mentions_iff h).1 hstep)
  | procedure h hts =>
    exact hlist hts (by simpa [TypeTable.mentions_iff h, Ty.mentioned, Ty.references] using hstep)
  | function h hts ht =>
    rcases List.mem_append.1 ((TypeTable.mentions_iff h).1 hstep) with hmem | hmem
    · exact hlist hts hmem
    · rw [List.mem_singleton.1 hmem]
      exact ⟨_, ht⟩

/-- A type that expands is within the table. -/
theorem Expands.lt_size (h : Expands table target id t) : id.val < table.size := by
  cases h <;> exact TypeTable.lt_size_of_get ‹table.get id = _›

/-- A type that expands is representable. -/
theorem Expands.representable (h : Expands table target id t) : Representable table target id := by
  have hreached : ∀ x, ReflTransGen table.Mentions id x → ∃ u, Expands table target x u := by
    intro x hx
    induction hx with
    | refl => exact ⟨t, h⟩
    | tail _ hstep ih =>
      obtain ⟨u, hu⟩ := ih
      exact hu.exists_of_mentions hstep
  refine ⟨loopFree_of_acc h.acc, fun x hx arguments results variadic hget => ?_,
    fun x hx members hget => ?_⟩
  · obtain ⟨u, hu⟩ := hreached x hx
    cases hu <;> grind
  · obtain ⟨u, hu⟩ := hreached x hx
    cases hu <;> grind

/-- In a closed table that is all it takes. -/
theorem Representable.exists_expands (hclosed : table.Closed) (hid : id.val < table.size)
    (h : Representable table target id) : ∃ t, Expands table target id t := by
  have hacc := h.loopFree.acc fun _ _ hstep => hstep.lt_size
  induction hacc with
  | intro id _ ih =>
    have hmentioned : ∀ x, table.Mentions id x → ∃ t, Expands table target x t :=
      fun x hx => ih x hx (hclosed.mentions hx) (h.step hx)
    obtain ⟨ty, hty⟩ := TypeTable.exists_get hid
    simp only [TypeTable.mentions_iff hty] at hmentioned
    cases ty with
    | scalar s => exact ⟨_, .scalar hty⟩
    | pointer pointee =>
      by_cases hvoid : TypeTable.isVoidPointer id
      · exact ⟨_, .voidPointer hty hvoid⟩
      · have hpointee : pointee ∈ (Ty.pointer pointee).mentioned id :=
          by simp [Ty.mentioned, hvoid]
        obtain ⟨t, ht⟩ := hmentioned pointee hpointee
        obtain ⟨ty, hpointee⟩ := TypeTable.exists_get (hclosed.mentions ⟨_, hty, hpointee⟩)
        have hkind : table.kind pointee = .ok ty.kind := by rw [TypeTable.kind, hpointee]; rfl
        by_cases hfunction : ty.kind = .function
        · exact ⟨_, .functionPointer hty hvoid (hfunction ▸ hkind) ht⟩
        · exact ⟨_, .pointer hty hvoid hkind hfunction ht⟩
    | array item items =>
      obtain ⟨t, ht⟩ := hmentioned item (by simp [Ty.mentioned, Ty.references])
      exact ⟨_, .array hty ht⟩
    | struct fields =>
      obtain ⟨ts, hts⟩ := exists_forall₂ hmentioned
      exact ⟨_, .struct hty hts⟩
    | union members =>
      obtain ⟨ts, hts⟩ := exists_forall₂ hmentioned
      obtain ⟨size, hsize⟩ := h.sizes id .refl members hty
      exact ⟨_, .union hty hts hsize⟩
    | function arguments results variadic =>
      obtain ⟨ts, hts⟩ := exists_forall₂ fun x hx => hmentioned x (List.mem_append_left results hx)
      have hresults := h.results id .refl arguments results variadic hty
      rcases results with _ | ⟨result, _ | ⟨second, more⟩⟩
      · exact ⟨_, .procedure hty hts⟩
      · obtain ⟨t, ht⟩ := hmentioned result (List.mem_append_right _ (List.mem_singleton_self _))
        exact ⟨_, .function hty hts ht⟩
      · exact absurd hresults (by simp)

end

end TypeText

end StackToGo
