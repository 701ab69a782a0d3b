import StackToGo.Proofs.Locals

/-!
# Which bodies have a table of locals

The table of locals is made in one go over the body. Here it is said by counting what it holds: a
body has a table exactly if none of its prefixes ends more blocks than it begins and its
declarations are numbered in order (`ofBody_isOk_iff`), and then the table holds these declarations
(`ofBody_entry`). A block is open where the instructions since its beginning are `Balanced`;
`scopeAfter_spec` says with this, and with counts of beginnings, to which block a local belongs.
-/

namespace StackToGo.Local

def isEnd (instruction : Instruction) : Bool :=
  match instruction.op with
  | .endScope => true
  | _ => false

/-- What an instruction declares, and where. -/
def declared? : Instruction → Option (Declaration × Position)
  | ⟨.declare declaration, position⟩ => some (declaration, position)
  | _ => none

/-- The declarations of a body, in order. -/
def declarations (body : List Instruction) : List (Declaration × Position) :=
  body.filterMap declared?

/-- No prefix ends more blocks than it begins. -/
def WellNested (body : List Instruction) : Prop :=
  ∀ n, (body.take n).countP isEnd ≤ (body.take n).countP isBegin

/-- The declarations are numbered 0, 1, 2 and so on. -/
def NumberedInOrder (body : List Instruction) : Prop :=
  (declarations body).map (·.1.index) = List.range (declarations body).length

/-- How many blocks are open after the given instructions. -/
def depth (front : List Instruction) : Nat := front.countP isBegin - front.countP isEnd

/-- Every block that begins here ends here, and no other one does. -/
def Balanced (inner : List Instruction) : Prop :=
  WellNested inner ∧ inner.countP isBegin = inner.countP isEnd

/-- The innermost of the blocks that are open after `front` begins after `outer`. -/
def InnermostOpen (front outer : List Instruction) : Prop :=
  ∃ opening inner, front = outer ++ opening :: inner ∧ isBegin opening ∧ Balanced inner

/-! ## Instructions -/

/-- An instruction begins a block, ends one, declares a local, or has nothing to do with the
table. -/
theorem instruction_cases (instruction : Instruction) :
    (∃ position, instruction = ⟨.beginScope, position⟩) ∨
      (∃ position, instruction = ⟨.endScope, position⟩) ∨
      (∃ declaration position, instruction = ⟨.declare declaration, position⟩) ∨
      (isBegin instruction = false ∧ isEnd instruction = false ∧ declared? instruction = none ∧
        (∀ opened place, openStep opened (instruction, place) = opened) ∧
        ∀ opened next locals rest, collect opened next locals (instruction :: rest) =
          collect opened next locals rest) := by
  obtain ⟨op, position⟩ := instruction
  cases op with
  | beginScope => exact .inl ⟨position, rfl⟩
  | endScope => exact .inr (.inl ⟨position, rfl⟩)
  | declare declaration => exact .inr (.inr (.inl ⟨declaration, position, rfl⟩))
  | _ => exact .inr (.inr (.inr ⟨rfl, rfl, rfl, fun _ _ => rfl, fun _ _ _ _ => rfl⟩))

/-- No instruction both begins and ends a block. -/
theorem isBegin_and_isEnd (instruction : Instruction) :
    (isBegin instruction && isEnd instruction) = false := by
  obtain ⟨op, position⟩ := instruction
  cases op <;> rfl

/-- The declarations of two bodies in a row. -/
theorem declarations_append (front back : List Instruction) :
    declarations (front ++ back) = declarations front ++ declarations back := List.filterMap_append

/-- An instruction that declares nothing leaves the declarations. -/
theorem declarations_cons_of_none {instruction : Instruction} (h : declared? instruction = none)
    (rest : List Instruction) : declarations (instruction :: rest) = declarations rest :=
  List.filterMap_cons_none h

/-! ## Success -/

/-- A bound on all prefixes of a list, for its first instruction and for the rest. -/
theorem forall_take_cons_iff {instruction : Instruction} {rest : List Instruction} {opened : Nat} :
    (∀ n, ((instruction :: rest).take n).countP isEnd ≤
      opened + ((instruction :: rest).take n).countP isBegin) ↔
      ∀ n, (rest.take n).countP isEnd + (if isEnd instruction then 1 else 0) ≤
        opened + ((rest.take n).countP isBegin + if isBegin instruction then 1 else 0) := by
  constructor
  · intro h n
    simpa only [List.take_succ_cons, List.countP_cons] using h (n + 1)
  · intro h n
    cases n with
    | zero => simp
    | succ n => simpa only [List.take_succ_cons, List.countP_cons] using h n

/-- Collecting succeeds exactly if no more blocks end than are open and begin, and the numbers of
the declarations go on where those of the table stop. -/
theorem collect_isOk_iff {opened : List Nat} {next : Nat} {locals : List Local}
    {body : List Instruction} :
    (∃ locals', collect opened next locals body = .ok locals') ↔
      (∀ n, (body.take n).countP isEnd ≤ opened.length + (body.take n).countP isBegin) ∧
        (declarations body).map (·.1.index) =
          List.range' locals.length (declarations body).length := by
  induction body generalizing opened next locals with
  | nil => simp [collect, declarations]
  | cons instruction rest ih =>
    rw [forall_take_cons_iff]
    rcases instruction_cases instruction with
      ⟨position, rfl⟩ | ⟨position, rfl⟩ | ⟨declaration, position, rfl⟩ |
        ⟨hbegin, hend, hnone, -, hcollect⟩
    · refine (@ih (next :: opened) (next + 1) locals).trans
        (and_congr_left fun _ => forall_congr' fun n => ?_)
      simp only [List.length_cons, isEnd, isBegin, Bool.false_eq_true, if_true, if_false]
      omega
    · cases opened with
      | nil =>
        refine iff_of_false ?_ ?_
        · rintro ⟨_, ⟨⟩⟩
        · rintro ⟨h, -⟩
          have hzero := h 0
          simp [isEnd, isBegin] at hzero
      | cons block outer =>
        refine (@ih outer next locals).trans (and_congr_left fun _ => forall_congr' fun n => ?_)
        simp only [List.length_cons, isEnd, isBegin, Bool.false_eq_true, if_true, if_false]
        omega
    · have hdeclarations : declarations (⟨.declare declaration, position⟩ :: rest) =
          (declaration, position) :: declarations rest := rfl
      rw [collect, hdeclarations, List.map_cons, List.length_cons, List.range'_succ,
        List.cons.injEq]
      simp only [isEnd, isBegin, Bool.false_eq_true, if_false, Nat.add_zero]
      by_cases hindex : declaration.index = locals.length
      · rw [if_pos hindex, ih, List.length_append]
        simp [hindex]
      · rw [if_neg hindex]
        simp [hindex]
    · rw [hcollect, ih, declarations_cons_of_none hnone, hbegin, hend]
      simp

/-- A body has a table of locals exactly if its blocks are nested and its declarations are numbered
in order. -/
theorem ofBody_isOk_iff (body : List Instruction) :
    (∃ locals, ofBody body = .ok locals) ↔ WellNested body ∧ NumberedInOrder body := by
  rw [NumberedInOrder, List.range_eq_range']
  refine collect_isOk_iff.trans (and_congr_left fun _ => forall_congr' fun n => ?_)
  rw [List.length_nil, Nat.zero_add]

/-! ## Entries -/

/-- What a local is declared by, and where. -/
def site (l : Local) : Declaration × Position := (l.declaration, l.position)

/-- The locals that are collected are those declared, where they are declared. -/
theorem collect_sites {opened : List Nat} {next : Nat} {locals locals' : List Local}
    {body : List Instruction} (h : collect opened next locals body = .ok locals') :
    locals'.map site = locals.map site ++ declarations body := by
  induction body generalizing opened next locals with
  | nil =>
    cases h
    exact (List.append_nil _).symm
  | cons instruction rest ih =>
    rcases instruction_cases instruction with
      ⟨position, rfl⟩ | ⟨position, rfl⟩ | ⟨declaration, position, rfl⟩ | ⟨-, -, hnone, -, hcollect⟩
    · exact ih h
    · cases opened with
      | nil => cases h
      | cons block outer => exact ih h
    · rw [collect] at h
      split at h
      case isTrue =>
        rw [ih h, List.map_append, List.append_assoc]
        rfl
      case isFalse => cases h
    · rw [hcollect] at h
      rw [ih h, declarations_cons_of_none hnone]

/-- The table holds the declarations of the body, in order. -/
theorem ofBody_sites {body : List Instruction} {locals : List Local}
    (h : ofBody body = .ok locals) :
    locals.map site = declarations body := collect_sites h

/-- Before the entry for a declaration come those for the declarations before it. The local belongs
to the block around its declaration. -/
theorem ofBody_entry {body front rest : List Instruction} {locals : List Local}
    {declaration : Declaration} {position : Position} (h : ofBody body = .ok locals)
    (hbody : body = front ++ ⟨.declare declaration, position⟩ :: rest) :
    locals[(declarations front).length]? =
      some ⟨declaration, position, scopeAfter body front⟩ := by
  have hsites :
      declarations body = declarations front ++ (declaration, position) :: declarations rest := by
    rw [hbody, declarations_append]
    rfl
  have hentry : (locals.map site)[(declarations front).length]? =
      some (declaration, position) := by
    rw [ofBody_sites h, hsites, List.getElem?_append_right (Nat.le_refl _), Nat.sub_self]
    rfl
  rw [List.getElem?_map, Option.map_eq_some_iff] at hentry
  obtain ⟨⟨_, _, scope⟩, hget, hsite⟩ := hentry
  cases hsite
  have hscope : scope = scopeAfter body front :=
    scope_eq_scopeAfter h (List.mem_of_getElem? hget) ⟨rest, hbody⟩
  rw [hget, hscope]

/-- The index of a declaration leads back to it. -/
theorem getLocal_site {body : List Instruction} {f : Frame} (h : ofBody body = .ok f.locals)
    {d : Declaration × Position} (hd : d ∈ declarations body) :
    (f.getLocal d.1.index).map site = .ok d := by
  rw [← ofBody_sites h] at hd
  obtain ⟨l, hl, rfl⟩ := List.mem_map.1 hd
  obtain ⟨i, hi⟩ := List.mem_iff_getElem?.1 hl
  have hindex : f.locals[l.site.1.index]? = some l := by
    rw [site, (tabulates_ofBody h).index_eq i l hi, hi]
  rw [Frame.getLocal, hindex]
  rfl

/-! ## Open blocks -/

/-- Well-nested bodies in a row are well nested. -/
theorem wellNested_append {front back : List Instruction} (hfront : WellNested front)
    (hback : WellNested back) : WellNested (front ++ back) := by
  intro n
  rw [List.take_append, List.countP_append, List.countP_append]
  exact Nat.add_le_add (hfront n) (hback _)

/-- The front of a well-nested body is well nested. -/
theorem WellNested.front {front back : List Instruction} (h : WellNested (front ++ back)) :
    WellNested front := by
  intro n
  have hprefix := h (min n front.length)
  rw [List.take_append_of_le_length (Nat.min_le_right _ _)] at hprefix
  rwa [List.take_eq_take_min]

/-- Balanced bodies in a row are balanced. -/
theorem balanced_append {front back : List Instruction} (hfront : Balanced front)
    (hback : Balanced back) : Balanced (front ++ back) :=
  ⟨wellNested_append hfront.1 hback.1, by rw [List.countP_append, List.countP_append,
    hfront.2, hback.2]⟩

/-- Without instructions no block begins or ends. -/
theorem balanced_nil : Balanced [] := ⟨fun n => by simp, rfl⟩

/-- An instruction that neither begins nor ends a block is balanced. -/
theorem balanced_singleton {instruction : Instruction} (hbegin : isBegin instruction = false)
    (hend : isEnd instruction = false) : Balanced [instruction] := by
  refine ⟨fun n => ?_, by simp [hbegin, hend]⟩
  cases n <;> simp [hend]

/-- A block with all that is in it. -/
theorem balanced_block {opening closing : Instruction} {inner : List Instruction}
    (hopening : isBegin opening) (hinner : Balanced inner) (hclosing : isEnd closing) :
    Balanced (opening :: inner ++ [closing]) := by
  have hopening' : isEnd opening = false := by simpa [hopening] using isBegin_and_isEnd opening
  have hclosing' : isBegin closing = false := by simpa [hclosing] using isBegin_and_isEnd closing
  refine ⟨?_, ?_⟩
  · rw [WellNested]
    have h := @forall_take_cons_iff opening (inner ++ [closing]) 0
    simp only [Nat.zero_add] at h
    refine h.2 fun n => ?_
    have hprefix := hinner.1 n
    have hlast : ([closing].take (n - inner.length)).countP isEnd ≤ 1 :=
      Nat.le_trans List.countP_le_length (List.length_take_le' ..)
    rw [List.take_append, List.countP_append, List.countP_append, hopening, hopening']
    simp only [Bool.false_eq_true, if_true, if_false]
    omega
  · have hcount := hinner.2
    simp [hopening, hopening', hclosing, hclosing', hcount]

/-- As many blocks are open as have begun and not ended. -/
theorem length_openBlocks {front : List Instruction} (h : WellNested front) :
    (openBlocks front).length = depth front := by
  have hcount : (openBlocks front).length + front.countP isEnd = front.countP isBegin := by
    induction front using List.reverseRecOn with
    | nil => rfl
    | append_singleton front instruction ih =>
      have hfront := ih h.front
      rw [openBlocks_concat, List.countP_append, List.countP_append, List.countP_singleton,
        List.countP_singleton]
      rcases instruction_cases instruction with
        ⟨position, rfl⟩ | ⟨position, rfl⟩ | ⟨declaration, position, rfl⟩ |
          ⟨hbegin, hend, -, hopen, -⟩
      · simp only [openStep, isEnd, isBegin, Bool.false_eq_true, if_true, if_false,
          List.length_cons]
        omega
      · -- There is a block to end, since no prefix ends more than it begins.
        have hall := h (front.length + 1)
        rw [List.take_of_length_le (by simp), List.countP_append, List.countP_append,
          List.countP_singleton, List.countP_singleton] at hall
        simp only [openStep, isEnd, isBegin, Bool.false_eq_true, if_true, if_false,
          List.length_tail] at hall ⊢
        omega
      · simpa [openStep, isEnd, isBegin] using hfront
      · simpa [hopen, hbegin, hend] using hfront
  rw [depth]
  omega

/-- By induction on the length: when a block ends, the block around it is the innermost one of what
comes before both. -/
theorem innermost_of_openBlocks {front : List Instruction} {place : Nat} {around : List Nat}
    (h : openBlocks front = place :: around) :
    ∃ outer, outer.length = place ∧ openBlocks outer = around ∧ InnermostOpen front outer := by
  induction hlength : front.length using Nat.strongRecOn generalizing front place around with
  | ind length ih =>
    rcases List.eq_nil_or_concat front with rfl | ⟨before, instruction, rfl⟩
    · cases h
    · rw [List.concat_eq_append] at h hlength ⊢
      rw [List.length_append, List.length_singleton] at hlength
      rw [openBlocks_concat] at h
      -- An instruction that leaves the blocks alone is one more in the innermost block.
      have hstay : isBegin instruction = false → isEnd instruction = false →
          openBlocks before = place :: around →
          ∃ outer, outer.length = place ∧ openBlocks outer = around ∧
          InnermostOpen (before ++ [instruction]) outer := by
        intro hbegin hend hbefore
        obtain ⟨outer, hplace, haround, opening, inner, rfl, hopening, hinner⟩ :=
          ih _ (by omega) hbefore rfl
        exact ⟨outer, hplace, haround, opening, inner ++ [instruction], by simp, hopening,
          balanced_append hinner (balanced_singleton hbegin hend)⟩
      rcases instruction_cases instruction with
        ⟨position, rfl⟩ | ⟨position, rfl⟩ | ⟨declaration, position, rfl⟩ |
          ⟨hbegin, hend, -, hopen, -⟩
      · obtain ⟨rfl, rfl⟩ := List.cons.inj h
        exact ⟨before, rfl, rfl, _, [], rfl, rfl, balanced_nil⟩
      · cases hbefore : openBlocks before with
        | nil =>
          rw [hbefore] at h
          cases h
        | cons ended blocks =>
          rw [hbefore] at h
          obtain rfl : blocks = place :: around := h
          obtain ⟨middle, -, hmiddle, opening, inner, rfl, hopening, hinner⟩ :=
            ih _ (by omega) hbefore rfl
          rw [List.length_append] at hlength
          obtain ⟨outer, hplace, haround, opening', inner', rfl, hopening', hinner'⟩ :=
            ih _ (by omega) hmiddle rfl
          refine ⟨outer, hplace, haround, opening',
            inner' ++ (opening :: inner ++ [⟨.endScope, position⟩]), by simp, hopening', ?_⟩
          exact balanced_append hinner' (balanced_block hopening hinner rfl)
      · exact hstay rfl rfl h
      · rw [hopen] at h
        exact hstay hbegin hend h

/-- A local belongs to no block if at most one is open where it is declared, and else to the
innermost one, which is named by the number of blocks that begin before it. -/
theorem scopeAfter_spec {body front rest : List Instruction} (hbody : body = front ++ rest)
    (h : WellNested body) :
    (scopeAfter body front = none ↔ depth front ≤ 1) ∧
      (1 < depth front → ∃ outer, InnermostOpen front outer ∧
        scopeAfter body front = some (outer.countP isBegin)) := by
  have hlength := length_openBlocks (hbody ▸ h).front
  unfold scopeAfter
  cases hopen : openBlocks front with
  | nil =>
    rw [hopen] at hlength
    simp [scopeOf, ← hlength]
  | cons block blocks =>
    rw [hopen] at hlength
    cases blocks with
    | nil => simp [scopeOf, ← hlength]
    | cons around blocks =>
      rw [List.length_cons, List.length_cons] at hlength
      refine ⟨iff_of_false (by rintro ⟨⟩) (by omega), fun _ => ?_⟩
      obtain ⟨outer, rfl, -, hinner⟩ := innermost_of_openBlocks hopen
      refine ⟨outer, hinner, ?_⟩
      obtain ⟨opening, inner, rfl, -, -⟩ := hinner
      rw [hbody, List.map_cons, List.map_cons, scopeOf, ordinal, List.append_assoc,
        List.take_left']
      rfl

end StackToGo.Local
