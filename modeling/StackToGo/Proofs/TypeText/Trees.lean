import StackToGo.Proofs.Go.TypeSpelling
import StackToGo.Proofs.TypeText.Memory

/-!
# The Go text of a type and its tree

Written out in full, with every reference followed, a type is a tree (`TypeTree`). The pointer to
nothing in particular is a leaf, and a pointer to a function is the function. The Go type of a type
is a function of its tree, since sizes are (`TypeTree.goType`), and it tells the tree
(`Go.Ty.tree`). As no two Go types share their text, two types of a table share theirs just if they
share their tree.
-/

namespace StackToGo

/-- A type with everything that it refers to. -/
inductive TypeTree where
  | scalar (s : Scalar)
  /-- The pointer to nothing in particular. -/
  | voidPointer
  | pointer (pointee : TypeTree)
  | array (item : TypeTree) (items : Nat)
  | struct (fields : List TypeTree)
  | union (members : List TypeTree)
  | function (arguments results : List TypeTree) (variadic : Bool)

/-- The tree of a type. -/
inductive Unfolds (table : TypeTable) : TypeId → TypeTree → Prop
  | scalar {id : TypeId} {s : Scalar} (h : table.get id = .ok (.scalar s)) :
      Unfolds table id (.scalar s)
  | voidPointer {id pointee : TypeId} (h : table.get id = .ok (.pointer pointee))
      (hvoid : TypeTable.isVoidPointer id) :
      Unfolds table id .voidPointer
  /-- A pointer to a function is the function itself. -/
  | functionPointer {id pointee : TypeId} {tree : TypeTree}
      (h : table.get id = .ok (.pointer pointee)) (hvoid : ¬TypeTable.isVoidPointer id)
      (hkind : table.kind pointee = .ok .function) (htree : Unfolds table pointee tree) :
      Unfolds table id tree
  | pointer {id pointee : TypeId} {k : Kind} {tree : TypeTree}
      (h : table.get id = .ok (.pointer pointee)) (hvoid : ¬TypeTable.isVoidPointer id)
      (hkind : table.kind pointee = .ok k) (hk : k ≠ .function)
      (htree : Unfolds table pointee tree) :
      Unfolds table id (.pointer tree)
  | array {id item : TypeId} {items : Nat} {tree : TypeTree}
      (h : table.get id = .ok (.array item items)) (htree : Unfolds table item tree) :
      Unfolds table id (.array tree items)
  | struct {id : TypeId} {fields : List TypeId} {trees : List TypeTree}
      (h : table.get id = .ok (.struct fields))
      (htrees : List.Forall₂ (Unfolds table) fields trees) :
      Unfolds table id (.struct trees)
  | union {id : TypeId} {members : List TypeId} {trees : List TypeTree}
      (h : table.get id = .ok (.union members))
      (htrees : List.Forall₂ (Unfolds table) members trees) :
      Unfolds table id (.union trees)
  | function {id : TypeId} {arguments results : List TypeId} {variadic : Bool}
      {trees trees' : List TypeTree}
      (h : table.get id = .ok (.function arguments results variadic))
      (harguments : List.Forall₂ (Unfolds table) arguments trees)
      (hresults : List.Forall₂ (Unfolds table) results trees') :
      Unfolds table id (.function trees trees' variadic)

/-! ## From trees to Go types and back -/

namespace TypeTree

mutual
/-- The extent of a type with the given tree. -/
def extent (target : Target) : TypeTree → Extent
  | .scalar s => ⟨.ok s.size, .ok s.align⟩
  | .voidPointer | .pointer _ | .function .. => ⟨.ok target.pointerSize, .ok target.pointerSize⟩
  | .array item items => .array ⟨0⟩ items (extent target item)
  | .struct fields => .struct (extents target fields)
  | .union members => .union (extents target members)

def extents (target : Target) : List TypeTree → List Extent
  | [] => []
  | tree :: rest => extent target tree :: extents target rest
end

mutual
/-- The Go type of a type with the given tree, if there is one. -/
def goType (target : Target) : TypeTree → Go.Ty
  | .scalar s => .scalar s
  | .voidPointer => .uintptr
  | .pointer pointee => .pointer (goType target pointee)
  | .array item items => .array items (goType target item)
  | .struct fields => .struct (goTypes target fields)
  | .union members =>
    .union (goTypes target members) ((extent target (.union members)).size.toOption.getD 0)
  | .function arguments results variadic =>
    .func (goTypes target arguments) variadic (goTypes target results).head?

def goTypes (target : Target) : List TypeTree → List Go.Ty
  | [] => []
  | tree :: rest => goType target tree :: goTypes target rest
end

/-- The extents of trees are that of each of them. -/
theorem extents_eq_map (target : Target) (trees : List TypeTree) :
    extents target trees = trees.map (extent target) := by
  induction trees with
  | nil => rfl
  | cons tree trees ih => rw [extents, ih, List.map_cons]

end TypeTree

namespace Go.Ty

mutual
/-- The tree of the types that have a Go type. -/
def tree : Ty → TypeTree
  | .scalar s => .scalar s
  | .uintptr => .voidPointer
  | .pointer pointee => .pointer (tree pointee)
  | .array items item => .array (tree item) items
  | .struct fields => .struct (trees fields)
  | .union members _ => .union (trees members)
  | .func params variadic result => .function (trees params) (optionTrees result) variadic
  | .bytes size => .array (.scalar .uint8) size

def trees : List Ty → List TypeTree
  | [] => []
  | t :: rest => tree t :: trees rest

def optionTrees : Option Ty → List TypeTree
  | none => []
  | some t => [tree t]
end

/-- The trees of Go types are that of each of them. -/
theorem trees_eq_map (ts : List Ty) : trees ts = ts.map tree := by
  induction ts with
  | nil => rfl
  | cons t ts ih => rw [trees, ih, List.map_cons]

end Go.Ty

/-! ## Trees and extents -/

namespace Extent

/-- What can be told of the first extent can be told of the second as well. -/
structure Refines (e e' : Extent) : Prop where
  size : ∀ n, e.size = .ok n → e'.size = .ok n
  align : ∀ n, e.align = .ok n → e'.align = .ok n

/-- An extent refines itself. -/
theorem Refines.refl (e : Extent) : Refines e e := ⟨fun _ h => h, fun _ h => h⟩

/-- An array of what can be told can be told. -/
theorem Refines.array {e e' : Extent} (h : Refines e e') (id id' : TypeId) (items : Nat) :
    Refines (.array id items e) (.array id' items e') := by
  refine ⟨fun n hn => ?_, h.align⟩
  rw [size_array_eq_ok_iff] at hn ⊢
  obtain ⟨m, hm, hfits⟩ := hn
  exact ⟨m, h.size m hm, hfits⟩

/-- Fields that can be told are placed in the same way. -/
theorem placeFields_of_refines {es es' : List Extent} (h : List.Forall₂ Refines es es')
    {offset align stop strictest : Nat} {offsets : List Nat}
    (hplaced : placeFields offset align es = .ok (stop, strictest, offsets)) :
    placeFields offset align es' = .ok (stop, strictest, offsets) := by
  induction h generalizing offset align offsets with
  | nil => exact hplaced
  | cons he _ ih =>
    rw [placeFields_cons_eq_ok_iff] at hplaced ⊢
    obtain ⟨a, n, rest, ha, hn, hrest, hoffsets⟩ := hplaced
    exact ⟨a, n, rest, he.align a ha, he.size n hn, ih hrest, hoffsets⟩

/-- A struct of what can be told can be told. -/
theorem Refines.struct {es es' : List Extent} (h : List.Forall₂ Refines es es') :
    Refines (.struct es) (.struct es') := by
  have hlayout : ∀ layout, StructLayout.ofExtents es = .ok layout →
      StructLayout.ofExtents es' = .ok layout := by
    intro layout hlayout
    rw [ofExtents_eq_ok_iff] at hlayout ⊢
    obtain ⟨stop, hplaced, hsize⟩ := hlayout
    exact ⟨stop, placeFields_of_refines h hplaced, hsize⟩
  constructor
  · intro n hn
    rw [size_struct_eq_ok_iff] at hn ⊢
    obtain ⟨layout, hes, hsize⟩ := hn
    exact ⟨layout, hlayout layout hes, hsize⟩
  · intro n hn
    rw [align_struct_eq_ok_iff] at hn ⊢
    obtain ⟨layout, hes, halign⟩ := hn
    exact ⟨layout, hlayout layout hes, halign⟩

/-- The greatest of what can be told is the same. -/
theorem greatest_of_refines {measure : Extent → Except Error Nat}
    (hmeasure : ∀ e e', Refines e e' → ∀ n, measure e = .ok n → measure e' = .ok n)
    {es es' : List Extent} (h : List.Forall₂ Refines es es') {start n : Nat}
    (hn : greatest start (es.map measure) = .ok n) :
    greatest start (es'.map measure) = .ok n := by
  induction h generalizing start with
  | nil => exact hn
  | cons he _ ih =>
    rw [List.map_cons, greatest_cons_eq_ok_iff] at hn ⊢
    obtain ⟨m, hm, hrest⟩ := hn
    exact ⟨m, hmeasure _ _ he m hm, ih hrest⟩

/-- A union of what can be told can be told. -/
theorem Refines.union {es es' : List Extent} (h : List.Forall₂ Refines es es') :
    Refines (.union es) (.union es') := by
  have halign : ∀ n, (Extent.union es).align = .ok n → (Extent.union es').align = .ok n :=
    fun n hn => greatest_of_refines (fun _ _ he => he.align) h hn
  refine ⟨fun n hn => ?_, halign⟩
  rw [size_union_eq_ok_iff] at hn ⊢
  obtain ⟨m, a, hm, ha, hn⟩ := hn
  exact ⟨m, a, greatest_of_refines (fun _ _ he => he.size) h hm, halign a ha, hn⟩

end Extent

section

variable {α β γ : Type} {R S : α → β → Prop} {T : α → γ → Prop} {list : List α}
  {bs : List β} {cs : List γ}

/-- What follows from one relation for each of a list follows for the list. -/
theorem forall₂_of_mem (h : ∀ a ∈ list, ∀ b, R a b → S a b) (hlist : List.Forall₂ R list bs) :
    List.Forall₂ S list bs := by
  induction hlist with
  | nil => exact .nil
  | cons hab _ ih =>
    obtain ⟨ha, hrest⟩ := List.forall_mem_cons.1 h
    exact .cons (ha _ hab) (ih hrest)

/-- A list that is related to another through a function is its image. -/
theorem eq_map_of_forall₂ {f : β → γ} (h : ∀ a ∈ list, ∀ b c, R a b → T a c → c = f b)
    (hbs : List.Forall₂ R list bs) (hcs : List.Forall₂ T list cs) : cs = bs.map f := by
  induction hbs generalizing cs with
  | nil => rw [List.forall₂_nil_left_iff.1 hcs, List.map_nil]
  | cons hab _ ih =>
    obtain ⟨ha, hrest⟩ := List.forall_mem_cons.1 h
    cases hcs with
    | cons hac hcs => rw [List.map_cons, ← ha _ _ hab hac, ← ih hrest hcs]

end

section

variable {table : TypeTable} {target : Target} {id : TypeId} {tree : TypeTree} {t : Go.Ty}

/-- The tree of a function is one of a function. -/
theorem Unfolds.exists_function (h : Unfolds table id tree)
    (hkind : table.kind id = .ok .function) :
    ∃ arguments results variadic, tree = .function arguments results variadic := by
  have hget : ∀ ty, table.get id = .ok ty → ty.kind = .function := by
    intro ty hty
    rw [TypeTable.kind, hty] at hkind
    exact Except.ok.inj hkind
  cases h with
  | function h _ _ => exact ⟨_, _, _, rfl⟩
  | _ => cases hget _ ‹_›

/-- What can be told of the extent of a type can be told from its tree. -/
theorem Unfolds.refines (hid : LoopFree table.Embeds id) (h : Unfolds table id tree) :
    (table.extent target id).Refines (tree.extent target) := by
  have hacc := hid.acc fun _ _ hstep => hstep.lt_size
  induction hacc generalizing tree with
  | intro id _ ih =>
    rw [TypeTable.extent_eq hid, TypeTable.extentOver]
    have hparts : ∀ {ids trees}, (∀ x ∈ ids, table.Embeds id x) →
        List.Forall₂ (Unfolds table) ids trees →
        List.Forall₂ Extent.Refines (ids.map (table.extent target))
          (trees.map (TypeTree.extent target)) := by
      intro ids trees hids htrees
      rw [List.forall₂_map_left_iff, List.forall₂_map_right_iff]
      exact forall₂_of_mem (fun x hx _ htree => ih x (hids x hx) (hid.step (hids x hx)) htree)
        htrees
    cases h with
    | scalar h => rw [h]; exact .refl _
    | voidPointer h hvoid => rw [h]; exact .refl _
    | functionPointer h hvoid hkind htree =>
      obtain ⟨arguments, results, variadic, rfl⟩ := htree.exists_function hkind
      rw [h]
      exact .refl _
    | pointer h hvoid hkind hk htree => rw [h]; exact .refl _
    | array h htree =>
      have hitem : table.Embeds id _ := ⟨_, h, List.mem_singleton_self _⟩
      rw [h]
      exact (ih _ hitem (hid.step hitem) htree).array id ⟨0⟩ _
    | struct h htrees =>
      rw [h, TypeTree.extent, TypeTree.extents_eq_map]
      exact .struct (hparts (fun x hx => ⟨_, h, hx⟩) htrees)
    | union h htrees =>
      rw [h, TypeTree.extent, TypeTree.extents_eq_map]
      exact .union (hparts (fun x hx => ⟨_, h, hx⟩) htrees)
    | function h harguments hresults => rw [h]; exact .refl _

/-! ## Trees and Go types -/

/-- A type that expands has the tree of its Go type. -/
theorem TypeText.Expands.unfolds (h : TypeText.Expands table target id t) :
    Unfolds table id t.tree := by
  have hacc := h.acc
  induction hacc generalizing t with
  | intro id _ ih =>
    have hlist : ∀ {ids ts}, (∀ x ∈ ids, table.Mentions id x) →
        List.Forall₂ (TypeText.Expands table target) ids ts →
        List.Forall₂ (Unfolds table) ids (Go.Ty.trees ts) := by
      intro ids ts hids hts
      rw [Go.Ty.trees_eq_map, List.forall₂_map_right_iff]
      exact forall₂_of_mem (fun x hx _ hu => ih x (hids x hx) hu) hts
    cases h with
    | scalar h => exact .scalar h
    | voidPointer h hvoid => exact .voidPointer h hvoid
    | functionPointer h hvoid hkind ht =>
      exact .functionPointer h hvoid hkind (ih _ ⟨_, h, by simp [Ty.mentioned, hvoid]⟩ ht)
    | pointer h hvoid hkind hk ht =>
      exact .pointer h hvoid hkind hk (ih _ ⟨_, h, by simp [Ty.mentioned, hvoid]⟩ ht)
    | array h ht => exact .array h (ih _ ⟨_, h, List.mem_singleton_self _⟩ ht)
    | struct h hts => exact .struct h (hlist (fun x hx => ⟨_, h, hx⟩) hts)
    | union h hts hsize => exact .union h (hlist (fun x hx => ⟨_, h, hx⟩) hts)
    | procedure h hts =>
      exact .function h (hlist (fun x hx => ⟨_, h, List.mem_append_left _ hx⟩) hts) .nil
    | function h hts ht =>
      have hresult := ih _ ⟨_, h, List.mem_append_right _ (List.mem_singleton_self _)⟩ ht
      exact .function h (hlist (fun x hx => ⟨_, h, List.mem_append_left _ hx⟩) hts)
        (.cons hresult .nil)

/-- What the tree of a type is made of. -/
theorem Unfolds.inversion {ty : Ty} (h : Unfolds table id tree) (hget : table.get id = .ok ty) :
    match ty with
    | .scalar s => tree = .scalar s
    | .pointer pointee =>
      (TypeTable.isVoidPointer id ∧ tree = .voidPointer) ∨
      (¬TypeTable.isVoidPointer id ∧ table.kind pointee = .ok .function ∧
        Unfolds table pointee tree) ∨
      (¬TypeTable.isVoidPointer id ∧ table.kind pointee ≠ .ok .function ∧
        ∃ inner, Unfolds table pointee inner ∧ tree = .pointer inner)
    | .array item items => ∃ inner, Unfolds table item inner ∧ tree = .array inner items
    | .struct fields => ∃ trees, List.Forall₂ (Unfolds table) fields trees ∧ tree = .struct trees
    | .union members => ∃ trees, List.Forall₂ (Unfolds table) members trees ∧ tree = .union trees
    | .function arguments results variadic =>
      ∃ trees trees', List.Forall₂ (Unfolds table) arguments trees ∧
        List.Forall₂ (Unfolds table) results trees' ∧
        tree = .function trees trees' variadic := by
  cases h with
  | scalar h => cases hget.symm.trans h; rfl
  | voidPointer h hvoid => cases hget.symm.trans h; exact .inl ⟨hvoid, rfl⟩
  | functionPointer h hvoid hkind htree =>
    cases hget.symm.trans h; exact .inr (.inl ⟨hvoid, hkind, htree⟩)
  | pointer h hvoid hkind hk htree =>
    cases hget.symm.trans h
    refine .inr (.inr ⟨hvoid, fun hfunction => hk ?_, _, htree, rfl⟩)
    exact Except.ok.inj (hkind.symm.trans hfunction)
  | array h htree => cases hget.symm.trans h; exact ⟨_, htree, rfl⟩
  | struct h htrees => cases hget.symm.trans h; exact ⟨_, htrees, rfl⟩
  | union h htrees => cases hget.symm.trans h; exact ⟨_, htrees, rfl⟩
  | function h harguments hresults =>
    cases hget.symm.trans h; exact ⟨_, _, harguments, hresults, rfl⟩

/-- A type with a Go type has no tree but that of its Go type. -/
theorem Unfolds.eq_tree (h : Unfolds table id tree) (ht : TypeText.Expands table target id t) :
    tree = t.tree := by
  have hacc := ht.acc
  induction hacc generalizing tree t with
  | intro id _ ih =>
    have hlist : ∀ {ids trees ts}, (∀ x ∈ ids, table.Mentions id x) →
        List.Forall₂ (Unfolds table) ids trees →
        List.Forall₂ (TypeText.Expands table target) ids ts → trees = Go.Ty.trees ts := by
      intro ids trees ts hids htrees hts
      rw [Go.Ty.trees_eq_map]
      exact eq_map_of_forall₂ (fun x hx _ _ hu htree => ih x (hids x hx) htree hu) hts htrees
    cases ht with
    | scalar hget => exact h.inversion hget
    | voidPointer hget hvoid =>
      obtain ⟨-, rfl⟩ | ⟨hnot, -⟩ | ⟨hnot, -⟩ := h.inversion hget
      · rfl
      · exact absurd hvoid hnot
      · exact absurd hvoid hnot
    | functionPointer hget hvoid hkind ht =>
      obtain ⟨hnot, -⟩ | ⟨-, -, htree⟩ | ⟨-, hnot, -⟩ := h.inversion hget
      · exact absurd hnot hvoid
      · exact ih _ ⟨_, hget, by simp [Ty.mentioned, hvoid]⟩ htree ht
      · exact absurd hkind hnot
    | pointer hget hvoid hkind hk ht =>
      obtain ⟨hnot, -⟩ | ⟨-, hfunction, -⟩ | ⟨-, -, inner, htree, rfl⟩ := h.inversion hget
      · exact absurd hnot hvoid
      · exact absurd (Except.ok.inj (hkind.symm.trans hfunction)) hk
      · exact congrArg TypeTree.pointer (ih _ ⟨_, hget, by simp [Ty.mentioned, hvoid]⟩ htree ht)
    | array hget ht =>
      obtain ⟨inner, htree, rfl⟩ := h.inversion hget
      rw [ih _ ⟨_, hget, List.mem_singleton_self _⟩ htree ht, Go.Ty.tree]
    | struct hget hts =>
      obtain ⟨trees, htrees, rfl⟩ := h.inversion hget
      rw [hlist (fun x hx => ⟨_, hget, hx⟩) htrees hts, Go.Ty.tree]
    | union hget hts hsize =>
      obtain ⟨trees, htrees, rfl⟩ := h.inversion hget
      rw [hlist (fun x hx => ⟨_, hget, hx⟩) htrees hts, Go.Ty.tree]
    | procedure hget hts =>
      obtain ⟨trees, trees', harguments, hresults, rfl⟩ := h.inversion hget
      rw [List.forall₂_nil_left_iff.1 hresults,
        hlist (fun x hx => ⟨_, hget, List.mem_append_left _ hx⟩) harguments hts]
      rfl
    | function hget hts ht =>
      obtain ⟨trees, trees', harguments, hresults, rfl⟩ := h.inversion hget
      rw [hlist (fun x hx => ⟨_, hget, List.mem_append_left _ hx⟩) harguments hts,
        hlist (fun x hx => ⟨_, hget, List.mem_append_right _ hx⟩) hresults (.cons ht .nil)]
      rfl

/-- The Go type of a type depends on nothing but its tree. -/
theorem TypeText.Expands.goType_tree (h : TypeText.Expands table target id t) :
    t.tree.goType target = t := by
  have hacc := h.acc
  induction hacc generalizing t with
  | intro id hbelow ih =>
    have hlist : ∀ {ids ts}, (∀ x ∈ ids, table.Mentions id x) →
        List.Forall₂ (TypeText.Expands table target) ids ts →
        TypeTree.goTypes target (Go.Ty.trees ts) = ts := by
      intro ids ts hids hts
      induction hts with
      | nil => rfl
      | cons ht _ ihts =>
        obtain ⟨hid, hrest⟩ := List.forall_mem_cons.1 hids
        rw [Go.Ty.trees, TypeTree.goTypes, ih _ hid ht, ihts hrest]
    have hunfolds := h.unfolds
    cases h with
    | scalar h => rfl
    | voidPointer h hvoid => rfl
    | functionPointer h hvoid hkind ht => exact ih _ ⟨_, h, by simp [Ty.mentioned, hvoid]⟩ ht
    | pointer h hvoid hkind hk ht =>
      rw [Go.Ty.tree, TypeTree.goType, ih _ ⟨_, h, by simp [Ty.mentioned, hvoid]⟩ ht]
    | array h ht => rw [Go.Ty.tree, TypeTree.goType, ih _ ⟨_, h, List.mem_singleton_self _⟩ ht]
    | struct h hts => rw [Go.Ty.tree, TypeTree.goType, hlist (fun x hx => ⟨_, h, hx⟩) hts]
    | union h hts hsize =>
      have hfree : LoopFree table.Embeds id :=
        (loopFree_of_acc (.intro id hbelow)).mono fun _ _ hstep => hstep.mentions
      have hextent := (hunfolds.refines hfree).size _ hsize
      rw [Go.Ty.tree] at hextent ⊢
      rw [TypeTree.goType, hextent, hlist (fun x hx => ⟨_, h, hx⟩) hts]
      rfl
    | procedure h hts =>
      rw [Go.Ty.tree, TypeTree.goType, hlist (fun x hx => ⟨_, h, List.mem_append_left _ hx⟩) hts]
      rfl
    | function h hts ht =>
      have hresult := ih _ ⟨_, h, List.mem_append_right _ (List.mem_singleton_self _)⟩ ht
      rw [Go.Ty.tree, TypeTree.goType, hlist (fun x hx => ⟨_, h, List.mem_append_left _ hx⟩) hts,
        Go.Ty.optionTrees, TypeTree.goTypes, hresult]
      rfl

end

namespace TypeText

/-- Types that have a Go text have one tree each, and share their text just if they share their
tree. The text of a union has its size in it, which its tree gives because the layout of types is
fixed: a target chooses the size of pointers and the order of bytes, and nothing else. -/
theorem signature_eq_iff_tree_eq {table : TypeTable} {target : Target} {a b : TypeId}
    {s t : String} (ha : ((signature table target a).perform .empty).1 = .ok s)
    (hb : ((signature table target b).perform .empty).1 = .ok t) :
    (∃! tree, Unfolds table a tree) ∧ (∃! tree, Unfolds table b tree) ∧
      ∀ tree tree', Unfolds table a tree → Unfolds table b tree' → (s = t ↔ tree = tree') := by
  obtain ⟨u, hu, rfl⟩ := signature_eq_ok_iff.1 ha
  obtain ⟨v, hv, rfl⟩ := signature_eq_ok_iff.1 hb
  refine ⟨⟨u.tree, hu.unfolds, fun _ h => h.eq_tree hu⟩,
    ⟨v.tree, hv.unfolds, fun _ h => h.eq_tree hv⟩, ?_⟩
  intro tree tree' htree htree'
  rw [htree.eq_tree hu, htree'.eq_tree hv]
  constructor
  · intro htext
    rw [Go.Ty.text_injective htext]
  · intro htrees
    rw [← hu.goType_tree, ← hv.goType_tree, htrees]

/-- Two structs, of a function and of a pointer to it, and a struct of a pointer to the first. -/
def callbackTable : TypeTable :=
  TypeTable.empty.internEach [.function [⟨4⟩] [⟨4⟩] false, .pointer ⟨14⟩, .struct [⟨14⟩, ⟨13⟩],
    .struct [⟨15⟩, ⟨13⟩], .pointer ⟨16⟩, .struct [⟨18⟩]]

/-- The structs of a function and of a pointer to it have the same tree, and the third has
another. -/
theorem callbackTable_trees :
    (∃ tree, Unfolds callbackTable ⟨16⟩ tree ∧ Unfolds callbackTable ⟨17⟩ tree) ∧
      ¬∃ tree, Unfolds callbackTable ⟨16⟩ tree ∧ Unfolds callbackTable ⟨19⟩ tree := by
  have hdirect : ((signature callbackTable ⟨8, false⟩ ⟨16⟩).perform .empty).1 =
      .ok "struct\x7bX0 func(int32) int32; X1 uintptr\x7d" := by rfl
  have hpointer : ((signature callbackTable ⟨8, false⟩ ⟨17⟩).perform .empty).1 =
      .ok "struct\x7bX0 func(int32) int32; X1 uintptr\x7d" := by rfl
  have houter : ((signature callbackTable ⟨8, false⟩ ⟨19⟩).perform .empty).1 =
      .ok "struct\x7bX0 *struct\x7bX0 func(int32) int32; X1 uintptr\x7d\x7d" := by rfl
  obtain ⟨⟨tree, htree, -⟩, ⟨tree', htree', -⟩, hsame⟩ := signature_eq_iff_tree_eq hdirect hpointer
  have hdiffer := (signature_eq_iff_tree_eq hdirect houter).2.2
  refine ⟨⟨tree, htree, ?_⟩, ?_⟩
  · rw [(hsame tree tree' htree htree').1 rfl]
    exact htree'
  · rintro ⟨shared, hinner, hwhole⟩
    have htext := (hdiffer shared shared hinner hwhole).2 rfl
    revert htext
    decide

end TypeText

end StackToGo
