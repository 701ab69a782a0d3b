import StackToGo.Proofs.Emit.Labels

/-!
# Switches

The cases of a switch are wrapped to its type and written in ascending order. Wrapping may make
cases of different integers the same, and then the first one counts, before sorting as after it:
the sort is stable, so the cases for one integer keep their order (`filter_sortCases`).
`switch_keeps_dispatch`: for every integer, the written switch goes where the switch of the program
does.
-/

namespace StackToGo

/-! ## Integers that are written -/

namespace Go

/-- The number that decimal digits stand for. -/
def naturalOf? (digits : List Char) : Option Nat :=
  if digits ≠ [] ∧ digits.all Char.isDigit then some (Nat.ofDigitChars 10 digits 0) else none

/-- The integer that decimal digits stand for, with a minus sign before them or without. -/
def integerOf? (text : String) : Option Int :=
  match text.toList with
  | '-' :: digits => (naturalOf? digits).map fun n : Nat => -(n : Int)
  | digits => (naturalOf? digits).map fun n : Nat => (n : Int)

/-- The decimal digits of a natural number stand for it. -/
theorem naturalOf?_toDigits (n : Nat) : naturalOf? (Nat.toDigits 10 n) = some n := by
  have hdigits : (Nat.toDigits 10 n).all Char.isDigit := by
    rw [List.all_eq_true]
    exact fun c hc => Nat.isDigit_of_mem_toDigits (by decide) (by decide) hc
  rw [naturalOf?, if_pos ⟨Nat.toDigits_ne_nil, hdigits⟩, Nat.ofDigitChars_ten_toDigits]

/-- The text of an integer stands for it. -/
theorem integerOf?_toString (n : Int) : integerOf? (toString n) = some n := by
  rw [Int.toString_eq_repr, Int.repr_eq_if]
  split
  case isTrue hn =>
    have hlist : n.toNat.repr.toList = Nat.toDigits 10 n.toNat :=
      by simp [Nat.repr_eq_ofList_toDigits]
    have hminus : ∀ digits, Nat.toDigits 10 n.toNat ≠ '-' :: digits := by
      intro digits heq
      have hdigit : Char.isDigit '-' :=
        Nat.isDigit_of_mem_toDigits (by decide) (by decide) (heq ▸ List.mem_cons_self)
      exact absurd hdigit (by decide)
    unfold integerOf?
    rw [hlist]
    split
    · rename_i digits heq
      exact absurd heq (hminus digits)
    · rw [naturalOf?_toDigits, Option.map_some, Int.toNat_of_nonneg hn]
  case isFalse hn =>
    have hlist : ("-" ++ (-n).toNat.repr).toList = '-' :: Nat.toDigits 10 (-n).toNat := by
      simp [Nat.repr_eq_ofList_toDigits]
    unfold integerOf?
    rw [hlist]
    simp only [naturalOf?_toDigits, Option.map_some, Option.some.injEq]
    omega

/-- Where a switch goes for an integer: to the label of the first case with this integer, or to the
default. -/
def switchTarget (cases : List (Expr × String)) (default : String) (x : Int) : String :=
  ((cases.find? fun c => integerOf? c.1.text = some x).map (·.2)).getD default

end Go

namespace Flow

/-- Where a switch over integers of the given shape goes for one of them: to the label of the first
case whose integer is this one when it is wrapped to the shape, or to the default. -/
def switchTarget (shape : IntShape) (cases : List (Value × Label)) (default : Label) (x : Int) :
    Label :=
  ((cases.find? fun c => c.1.integer?.map shape.wrap = some x).map (·.2)).getD default

end Flow

namespace Emit

variable {env : Env} {s s' : State}

/-! ## The order of the cases -/

/-- The cases for one integer keep their order. -/
theorem filter_sortCases (cases : List (Int × Label)) (x : Int) :
    (sortCases cases).filter (·.1 = x) = cases.filter (·.1 = x) := by
  have hperm : (sortCases cases).Perm cases := List.mergeSort_perm ..
  have hsame : (cases.filter (·.1 = x)).Pairwise fun a b => a.1 ≤ b.1 := by
    refine List.pairwise_of_forall_mem_list fun a ha b hb => ?_
    have hax : a.1 = x := of_decide_eq_true (List.mem_filter.1 ha).2
    have hbx : b.1 = x := of_decide_eq_true (List.mem_filter.1 hb).2
    omega
  have hsub : (cases.filter (·.1 = x)).Sublist (sortCases cases) := by
    refine List.sublist_mergeSort ?_ ?_ (hsame.imp fun h => decide_eq_true h) List.filter_sublist
    · intro a b c hab hbc
      exact decide_eq_true (Int.le_trans (of_decide_eq_true hab) (of_decide_eq_true hbc))
    · intro a b
      simpa using Int.le_total a.1 b.1
  have hsub' := hsub.filter (·.1 = x)
  rw [List.filter_filter] at hsub'
  simp only [Bool.and_self] at hsub'
  exact (hsub'.eq_of_length (hperm.filter _).length_eq.symm).symm

/-- Sorting keeps the first case for each integer. -/
theorem find?_sortCases (cases : List (Int × Label)) (x : Int) :
    (sortCases cases).find? (·.1 = x) = cases.find? (·.1 = x) := by
  rw [← List.head?_filter, filter_sortCases, List.head?_filter]

/-- Sorted cases are in the order of their integers. -/
theorem pairwise_sortCases (cases : List (Int × Label)) :
    (sortCases cases).Pairwise fun a b => a.1 ≤ b.1 := by
  refine (List.pairwise_mergeSort ?_ ?_ cases).imp fun h => of_decide_eq_true h
  · intro a b c hab hbc
    exact decide_eq_true (Int.le_trans (of_decide_eq_true hab) (of_decide_eq_true hbc))
  · intro a b
    simpa using Int.le_total a.1 b.1

/-! ## Where a switch goes -/

/-- Cases that are written one by one lead to the labels that are written for their labels. -/
theorem spelled_switchTarget {cases : List (Int × Label)} {written : List (Go.Expr × String)}
    {default : Label} {text : String} (h : List.Forall₂ (WritesCase env) cases written)
    (hdefault : Spelled env default text) (x : Int) :
    Spelled env (((cases.find? (·.1 = x)).map (·.2)).getD default)
      (Go.switchTarget written text x) := by
  induction h with
  | nil => exact hdefault
  | @cons c w cases written hcase _ ih =>
    have hread : Go.integerOf? w.1.text = some c.1 := by
      rw [hcase.1]
      exact Go.integerOf?_toString c.1
    by_cases hx : c.1 = x
    · rw [Go.switchTarget, List.find?_cons_of_pos (by simpa using hx),
        List.find?_cons_of_pos (by simp [hread, hx])]
      exact hcase.2
    · rw [Go.switchTarget, List.find?_cons_of_neg (by simpa using hx),
        List.find?_cons_of_neg (by simp [hread, hx])]
      exact ih

/-- The keys of cases lead where the cases do. -/
theorem switchTarget_eq {shape : IntShape} {cases : List (Value × Label)}
    {keys : List (Int × Label)}
    (h : keys.map (fun c => (some c.1, c.2)) =
      cases.map fun c => (c.1.integer?.map shape.wrap, c.2))
    (default : Label) (x : Int) :
    Flow.switchTarget shape cases default x = ((keys.find? (·.1 = x)).map (·.2)).getD default := by
  have hfind := congrArg (fun list => (list.find? fun c => c.1 = some x).map Prod.snd) h
  simp only [List.find?_map, Option.map_map, Function.comp_def, Option.some.injEq] at hfind
  rw [Flow.switchTarget, ← hfind]

/-- For every switch over an integer type and every integer: the written switch goes to the text of
the label that the switch of the program goes to. Its cases are those of the program, with their
integers wrapped to the type, in ascending order. -/
theorem switch_keeps_dispatch (hs : Reached env s) {f : Frame} {v : Tree} {type : TypeId}
    {k : Kind} {shape : IntShape} (hkind : env.program.types.kind type = .ok k)
    (hshape : k.intShape? = some shape) {cases : List (Value × Label)} {default : Label}
    {exit : Go.Exit Go.Expr}
    (h : Yields env (nodeExit f (.switch v type cases default)) s exit s') :
    ∃ (scrutinee : Go.Expr) (written : List (Go.Expr × String)) (text : String)
      (sorted : List (Int × Label)),
      exit = .switch scrutinee written text ∧ Gives env (expr f .value v) scrutinee ∧
      (∀ x, Spelled env (Flow.switchTarget shape cases default x)
        (Go.switchTarget written text x)) ∧
      (sorted.map fun c => (some c.1, c.2)).Perm
        (cases.map fun c => (c.1.integer?.map shape.wrap, c.2)) ∧
      List.Forall₂ (fun c w => Go.integerOf? w.1.text = some c.1 ∧
        Spelled env c.2 w.2) sorted written ∧
      sorted.Pairwise (fun a b => a.1 ≤ b.1) ∧ ∀ c ∈ sorted, shape.Contains c.1 := by
  obtain ⟨k', keys, scrutinee, written, text, hk', hkeys, hscrutinee, hwritten, htext, rfl⟩ :=
    exists_writesCase_of_switch hs h
  obtain rfl : k = k' := Except.ok.inj (hkind.symm.trans hk')
  have hwrap (v : Value) : v.integer?.bind k.wrap? = v.integer?.map shape.wrap := by
    cases v.integer? with
    | none => rfl
    | some n => simp [Kind.wrap?, hshape]
  simp only [hwrap] at hkeys
  have hperm : (sortCases keys).Perm keys := List.mergeSort_perm ..
  refine ⟨scrutinee, written, text, sortCases keys, rfl, hscrutinee, ?_, ?_, ?_,
    pairwise_sortCases keys, ?_⟩
  · intro x
    rw [switchTarget_eq hkeys, ← find?_sortCases]
    exact spelled_switchTarget hwritten htext x
  · rw [← hkeys]
    exact hperm.map _
  · refine hwritten.imp fun c w hcase => ⟨?_, hcase.2⟩
    rw [hcase.1]
    exact Go.integerOf?_toString c.1
  · intro c hc
    have hmem : (some c.1, c.2) ∈ keys.map fun c => (some c.1, c.2) :=
      List.mem_map_of_mem (hperm.mem_iff.1 hc)
    rw [hkeys] at hmem
    obtain ⟨c', -, heq⟩ := List.mem_map.1 hmem
    obtain ⟨n, -, hn⟩ := Option.map_eq_some_iff.1 (Prod.mk.inj heq).1
    rw [← hn]
    exact shape.contains_wrap n

/-- A switch over bytes with three cases, of which the first and the last are for the same byte. -/
def byteCases : List (Value × Label) :=
  [(.int32 257, .number 1), (.int64 (-1), .number 2), (.int32 1, .number 3)]

/-- The scrutinee is a constant. -/
def byteSwitch : Flow.Exit :=
  .switch (.mk (.const32 1) (some TypeTable.uint8) .unknown []) TypeTable.uint8
    byteCases (.number 0)

/-- The switch over bytes is written. -/
theorem exists_yields_byteSwitch :
    ∃ exit s', Yields waiting (nodeExit ⟨0, waitingFunction, [], [], false, []⟩ byteSwitch)
      (.start waiting.target) exit s' := by
  have hkind :
      Yields waiting (kind TypeTable.uint8) (.start waiting.target) (.scalar .uint8)
        (.start waiting.target) := rfl
  have hkeys :
      Yields waiting (caseKeys (.scalar .uint8) .unknown byteCases) (.start waiting.target)
      [(1, .number 1), (255, .number 2), (1, .number 3)] (.start waiting.target) := rfl
  have hsorted : sortCases [(1, .number 1), (255, .number 2), (1, .number 3)] =
      [(1, .number 1), (1, .number 3), (255, .number 2)] := by
    simp [sortCases, List.mergeSort, List.MergeSort.Internal.splitInTwo]
  have hwritten (s : State) :
      Yields waiting (caseTargets [(1, .number 1), (1, .number 3), (255, .number 2)]) s
      [(.int 1, "_1"), (.int 1, "_3"), (.int 255, "_2")] s := rfl
  have hdefault (s : State) : Yields waiting (labelText (.number 0)) s "_0" s := rfl
  obtain ⟨scrutinee, s₁, hscrutinee⟩ :
      ∃ scrutinee s₁, Yields waiting (expr ⟨0, waitingFunction, [], [], false, []⟩ .value
    (.mk (.const32 1) (some TypeTable.uint8) .unknown [])) (.start waiting.target) scrutinee s₁ :=
      ⟨_, _, rfl⟩
  refine ⟨.switch scrutinee [(.int 1, "_1"), (.int 1, "_3"), (.int 255, "_2")] "_0", s₁,
    yields_bind.2 ⟨_, _, hkind, yields_bind.2 ⟨_, _, hkeys, yields_bind.2 ⟨_, _, hscrutinee, ?_⟩⟩⟩⟩
  rw [hsorted]
  exact yields_bind.2 ⟨_, _, hwritten _,
    yields_bind.2 ⟨_, _, hdefault _, yields_pure.2 ⟨rfl, rfl⟩⟩⟩

/-- Of the two cases for the byte 1 the first one counts. -/
theorem byteSwitch_dispatch : ∃ scrutinee written text s',
    Yields waiting (nodeExit ⟨0, waitingFunction, [], [], false, []⟩ byteSwitch)
      (.start waiting.target) (.switch scrutinee written text) s' ∧
    Spelled waiting (.number 1) (Go.switchTarget written text 1) ∧
    Spelled waiting (.number 2) (Go.switchTarget written text 255) ∧
    Spelled waiting (.number 0) (Go.switchTarget written text 7) := by
  obtain ⟨exit, s', hyields⟩ := exists_yields_byteSwitch
  obtain ⟨scrutinee, written, text, sorted, rfl, -, htarget, -⟩ :=
    switch_keeps_dispatch (.refl _) rfl rfl hyields
  exact ⟨scrutinee, written, text, s', hyields, htarget 1, htarget 255, htarget 7⟩

end Emit
end StackToGo
