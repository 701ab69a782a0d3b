import StackToGo.Proofs.Blocks.Valid
import Mathlib.Data.List.Perm.Subperm

/-!
# Sending jumps on

A label of an empty block that only jumps on *leads* to where the jumps from it end, in a number of
hops. Jumps that go round in a circle lead nowhere. `LeadsIn` says this without a bound on the
hops; `destination_eq_some_iff` shows that the bound of `destination` loses nothing. From this
follow that the pass keeps blocks valid, that it keeps their behaviour, and that running it again
changes nothing.
-/

namespace StackToGo.Go

variable {σ ε : Type}

/-! ## Where labels lead -/

/-- `label` leads to `last` in exactly `k` hops, and no further. -/
def LeadsIn (hops : List (String × String)) : Nat → String → String → Prop
  | 0, label, last => hops.lookup label = none ∧ label = last
  | k + 1, label, last => ∃ next, hops.lookup label = some next ∧ LeadsIn hops k next last

section Leads

variable {hops : List (String × String)}

/-- The end of the hops is not a place to hop on from. -/
theorem LeadsIn.lookup_last {k : Nat} {label last : String} (h : LeadsIn hops k label last) :
    hops.lookup last = none := by
  induction k generalizing label with
  | zero => exact h.2 ▸ h.1
  | succ k ih => obtain ⟨next, -, h⟩ := h; exact ih h

/-- A label leads to one place only, in one number of hops. -/
theorem LeadsIn.unique {j k : Nat} {label last last' : String} (h : LeadsIn hops j label last)
    (h' : LeadsIn hops k label last') : j = k ∧ last = last' := by
  induction j generalizing k label with
  | zero =>
    cases k with
    | zero => exact ⟨rfl, h.2.symm.trans h'.2⟩
    | succ k => obtain ⟨next, hn, -⟩ := h'; rw [h.1] at hn; cases hn
  | succ j ih =>
    obtain ⟨next, hn, h⟩ := h
    cases k with
    | zero => rw [h'.1] at hn; cases hn
    | succ k =>
      obtain ⟨next', hn', h'⟩ := h'
      rw [hn] at hn'
      cases hn'
      obtain ⟨rfl, rfl⟩ := ih h h'
      exact ⟨rfl, rfl⟩

/-- The labels on the way are pairwise different, since each has another number of hops to go. -/
theorem LeadsIn.exists_trail {k : Nat} {label last : String} (h : LeadsIn hops k label last) :
    ∃ trail : List String, trail.length = k ∧ trail.Nodup ∧
      ∀ x ∈ trail, x ∈ hops.map (·.1) ∧ ∃ j ≤ k, LeadsIn hops j x last := by
  induction k generalizing label with
  | zero => exact ⟨[], rfl, .nil, by simp⟩
  | succ k ih =>
    have hl := h
    obtain ⟨next, hn, h⟩ := h
    obtain ⟨trail, hlen, hnd, hall⟩ := ih h
    refine ⟨label :: trail, by rw [List.length_cons, hlen],
      List.nodup_cons.2 ⟨fun hmem => ?_, hnd⟩, ?_⟩
    · obtain ⟨-, j, hj, hlead⟩ := hall label hmem
      have := (hlead.unique hl).1
      omega
    · intro x hx
      rcases List.mem_cons.1 hx with rfl | hx
      · refine ⟨?_, k + 1, le_rfl, hl⟩
        by_contra hnot
        have : hops.lookup x = none := by
          rw [List.lookup_eq_none_iff]
          intro p hp
          rw [bne_iff_ne]
          rintro rfl
          exact hnot (List.mem_map_of_mem hp)
        rw [this] at hn
        cases hn
      · obtain ⟨hk, j, hj, hlead⟩ := hall x hx
        exact ⟨hk, j, by omega, hlead⟩

/-- There are at most as many hops as there are places to hop on from. -/
theorem LeadsIn.le_length {k : Nat} {label last : String} (h : LeadsIn hops k label last) :
    k ≤ hops.length := by
  obtain ⟨trail, rfl, hnd, hall⟩ := h.exists_trail
  have hsub : trail ⊆ hops.map (·.1) := fun x hx => (hall x hx).1
  have := (List.subperm_of_subset hnd hsub).length_le
  rwa [List.length_map] at this

/-- What following hops finds is where a label leads within the bound. -/
theorem follow_eq_some_iff {steps : Nat} {label last : String} :
    follow hops steps label = some last ↔ ∃ k ≤ steps, LeadsIn hops k label last := by
  induction steps generalizing label with
  | zero =>
    rw [follow]
    constructor
    · intro h
      split at h
      · next hn => exact ⟨0, le_rfl, Option.isNone_iff_eq_none.1 hn, Option.some.inj h⟩
      · cases h
    · rintro ⟨k, hk, h⟩
      obtain rfl : k = 0 := by omega
      rw [if_pos (by rw [h.1]; rfl), h.2]
  | succ steps ih =>
    rw [follow]
    cases hn : hops.lookup label with
    | none =>
      constructor
      · intro h
        exact ⟨0, Nat.zero_le _, hn, Option.some.inj h⟩
      · rintro ⟨k, -, h⟩
        cases k with
        | zero => exact congrArg some h.2
        | succ k => obtain ⟨next, hn', -⟩ := h; rw [hn] at hn'; cases hn'
    | some next =>
      dsimp only
      rw [ih]
      constructor
      · rintro ⟨k, hk, h⟩
        exact ⟨k + 1, by omega, next, hn, h⟩
      · rintro ⟨k, hk, h⟩
        cases k with
        | zero => rw [h.1] at hn; cases hn
        | succ k =>
          obtain ⟨next', hn', h⟩ := h
          rw [hn] at hn'
          cases hn'
          exact ⟨k, by omega, h⟩

/-- A jump is sent to where its label leads, if it leads anywhere else. -/
theorem destination_eq_some_iff {label last : String} :
    destination hops label = some last ↔ ∃ k, LeadsIn hops (k + 1) label last := by
  rw [destination]
  constructor
  · intro h
    split at h
    · next hs =>
      obtain ⟨k, -, h⟩ := follow_eq_some_iff.1 h
      cases k with
      | zero => rw [h.1] at hs; cases hs
      | succ k => exact ⟨k, h⟩
    · cases h
  · rintro ⟨k, h⟩
    obtain ⟨next, hn, -⟩ := id h
    rw [if_pos (by rw [hn]; rfl)]
    exact follow_eq_some_iff.2 ⟨k + 1, h.le_length, h⟩

/-- Where a jump to the label goes after the pass. -/
def route (hops : List (String × String)) (label : String) : String :=
  (destination hops label).getD label

/-- The label of a jump after the pass is one that its old label leads to, or the old label
itself. -/
theorem route_cases (hops : List (String × String)) (label : String) :
    (∃ k, LeadsIn hops (k + 1) label (route hops label)) ∨
      destination hops label = none ∧ route hops label = label := by
  rw [route]
  cases h : destination hops label with
  | none => exact .inr ⟨rfl, rfl⟩
  | some last => exact .inl (destination_eq_some_iff.1 h)

end Leads

/-! ## Hops of blocks -/

/-- The block with its jumps sent on. -/
def Block.threaded (hops : List (String × String)) (b : Block σ ε) : Block σ ε :=
  { b with exit := b.exit.mapTargets (route hops) }

/-- Threading sends the jumps of every block on. -/
theorem threadJumps_blocks (blocks : List (Block σ ε)) :
    (threadJumps blocks).1 = blocks.map (Block.threaded (forwards blocks)) := by
  simp only [threadJumps, List.map_map]
  rfl

/-- Labels keep their places. -/
theorem enter_threadJumps (blocks : List (Block σ ε)) (label : String) :
    enter (threadJumps blocks).1 label =
      (enter blocks label).map (Block.threaded (forwards blocks)) := by
  rw [threadJumps_blocks]
  exact enter_map (f := Block.threaded (forwards blocks)) (fun _ => Iff.rfl) blocks

/-- The blocks that only jump on are the empty ones with a label and a jump to another one. -/
theorem Block.forward?_eq_some_iff {b : Block σ ε} {label target : String} :
    b.forward? = some (label, target) ↔ b = ⟨some label, [], .jump target⟩ ∧ label ≠ target := by
  obtain ⟨bl, ss, exit⟩ := b
  constructor
  · intro h
    unfold Block.forward? at h
    split at h
    · split at h
      · cases h
      · next hne =>
        simp only [Option.some.injEq, Prod.mk.injEq] at h
        obtain ⟨rfl, rfl⟩ := h
        simp_all
    · cases h
  · rintro ⟨hb, hne⟩
    rw [hb]
    exact if_neg hne

/-- Only labels of blocks are hopped on from. -/
theorem mem_blockLabels_of_lookup {blocks : List (Block σ ε)} {label target : String}
    (h : (forwards blocks).lookup label = some target) : label ∈ blockLabels blocks := by
  have hmem : (label, target) ∈ forwards blocks := by
    obtain ⟨front, back, hsplit, -⟩ := List.lookup_eq_some_iff.1 h
    rw [hsplit]
    simp
  obtain ⟨b, hb, hf⟩ := List.mem_filterMap.1 hmem
  obtain ⟨rfl, -⟩ := Block.forward?_eq_some_iff.1 hf
  exact mem_blockLabels.2 ⟨_, hb, rfl⟩

/-- A block adds no hop from a label that is not its own. -/
theorem lookup_forwards_cons_ne {b : Block σ ε} {label : String} (hb : b.label ≠ some label)
    (rest : List (Block σ ε)) :
    (forwards (b :: rest)).lookup label = (forwards rest).lookup label := by
  cases hf : b.forward? with
  | none => rw [forwards, List.filterMap_cons_none hf, forwards]
  | some hop =>
    obtain ⟨l, t⟩ := hop
    obtain ⟨rfl, -⟩ := Block.forward?_eq_some_iff.1 hf
    have hl : (label == l) = false := by
      rw [beq_eq_false_iff_ne]
      rintro rfl
      exact hb rfl
    rw [forwards, List.filterMap_cons_some hf, List.lookup_cons, hl]
    rfl

/-- The hop from the label of the first block, if no other block has that label, is the one that
this block makes. -/
theorem lookup_forwards_cons_self {b : Block σ ε} {label target : String}
    (hb : b.label = some label) {rest : List (Block σ ε)} (hrest : label ∉ blockLabels rest) :
    (forwards (b :: rest)).lookup label = some target ↔ b.forward? = some (label, target) := by
  cases hf : b.forward? with
  | none =>
    rw [forwards, List.filterMap_cons_none hf]
    exact ⟨fun h => absurd (mem_blockLabels_of_lookup h) hrest, fun h => by cases h⟩
  | some hop =>
    obtain ⟨l, t⟩ := hop
    rw [forwards, List.filterMap_cons_some hf]
    obtain ⟨rfl, -⟩ := Block.forward?_eq_some_iff.1 hf
    obtain rfl : l = label := Option.some.inj hb
    simp

/-- Blocks whose labels are unique hop on from a label exactly if the block there is empty and only
jumps on, to another label. -/
theorem lookup_forwards_eq_some_iff {blocks : List (Block σ ε)} (hnd : (blockLabels blocks).Nodup)
    {label target : String} :
    (forwards blocks).lookup label = some target ↔
      label ≠ target ∧ ∃ later, enter blocks label = ⟨some label, [], .jump target⟩ :: later := by
  induction blocks with
  | nil => simp [forwards, enter]
  | cons b rest ih =>
    by_cases hb : b.label = some label
    · rw [blockLabels, List.filterMap_cons_some hb, List.nodup_cons] at hnd
      rw [enter_cons_self hb, lookup_forwards_cons_self hb hnd.1, Block.forward?_eq_some_iff]
      constructor
      · rintro ⟨rfl, hne⟩
        exact ⟨hne, rest, rfl⟩
      · rintro ⟨hne, later, heq⟩
        exact ⟨(List.cons.inj heq).1, hne⟩
    · rw [enter_cons_ne hb, lookup_forwards_cons_ne hb]
      exact ih (hnd.sublist ((List.sublist_cons_self b rest).filterMap _))

/-! ## Validity -/

section Valid

variable {blocks : List (Block σ ε)}

/-- A label that is led to is the label of a block, if every exit names labels of blocks. -/
theorem Valid.mem_blockLabels_of_leadsIn (h : Valid blocks) {k : Nat} {label last : String}
    (hlead : LeadsIn (forwards blocks) k label last) (hl : label ∈ blockLabels blocks) :
    last ∈ blockLabels blocks := by
  induction k generalizing label with
  | zero => exact hlead.2 ▸ hl
  | succ k ih =>
    obtain ⟨next, hn, hlead⟩ := hlead
    refine ih hlead (h.defined next ?_)
    obtain ⟨-, later, heq⟩ := (lookup_forwards_eq_some_iff h.nodup).1 hn
    have hmem : (⟨some label, [], .jump next⟩ : Block σ ε) ∈ blocks :=
      (enter_suffix blocks label).subset (heq ▸ List.mem_cons_self)
    exact mem_exitTargets.2 ⟨_, hmem, by simp [Exit.targets]⟩

/-- A jump to a label of a valid function is sent on to a label of it. -/
theorem Valid.route_mem (h : Valid blocks) {label : String} (hl : label ∈ blockLabels blocks) :
    route (forwards blocks) label ∈ blockLabels blocks := by
  rcases route_cases (forwards blocks) label with ⟨k, hlead⟩ | ⟨-, heq⟩
  · exact h.mem_blockLabels_of_leadsIn hlead hl
  · exact heq.symm ▸ hl

/-- The targets of an exit are mapped one by one. -/
theorem Exit.targets_mapTargets (f : String → String) (exit : Exit ε) :
    (exit.mapTargets f).targets = exit.targets.map f := by
  cases exit <;> simp [mapTargets, targets]

/-- Exits with other targets fall through as before. -/
theorem Exit.fallsThrough_mapTargets (f : String → String) (exit : Exit ε) :
    (exit.mapTargets f).fallsThrough = exit.fallsThrough := by
  cases exit <;> rfl

/-- The targets of threaded blocks are those of the blocks, sent on. -/
theorem exitTargets_map_threaded (hops : List (String × String)) (blocks : List (Block σ ε)) :
    exitTargets (blocks.map (Block.threaded hops)) = (exitTargets blocks).map (route hops) := by
  simp only [exitTargets, List.flatMap_map, List.map_flatMap, Block.threaded,
    Exit.targets_mapTargets]

/-- Threading leaves the labels. -/
theorem blockLabels_map_threaded (hops : List (String × String)) (blocks : List (Block σ ε)) :
    blockLabels (blocks.map (Block.threaded hops)) = blockLabels blocks :=
  blockLabels_eq_of_map (by rw [List.map_map]; rfl)

/-- Sending jumps on leaves blocks valid. -/
theorem Valid.threadJumps (h : Valid blocks) : Valid (threadJumps blocks).1 := by
  rw [threadJumps_blocks]
  refine ⟨?_, fun t ht => ?_, fun b hb => ?_⟩
  · rw [blockLabels_map_threaded]
    exact h.nodup
  · rw [exitTargets_map_threaded, List.mem_map] at ht
    obtain ⟨t', ht', rfl⟩ := ht
    rw [blockLabels_map_threaded]
    exact h.route_mem (h.defined t' ht')
  · rw [List.getLast?_map, Option.mem_map] at hb
    obtain ⟨c, hc, rfl⟩ := hb
    exact (Exit.fallsThrough_mapTargets _ _).trans (h.closed c hc)

end Valid

/-! ## Behaviour -/

/-- From one place to another by `n` empty blocks that jump on. -/
def Hops (program : List (Block σ ε)) : Nat → List (Block σ ε) → List (Block σ ε) → Prop
  | 0, ahead, ahead' => ahead = ahead'
  | n + 1, ahead, ahead' => ∃ label target later,
      ahead = ⟨label, [], .jump target⟩ :: later ∧ Hops program n (enter program target) ahead'

/-- The place of a label and the place it leads to are joined by hops. -/
theorem hops_of_leadsIn {blocks : List (Block σ ε)} (hnd : (blockLabels blocks).Nodup) {k : Nat}
    {label last : String} (h : LeadsIn (forwards blocks) k label last) :
    Hops blocks k (enter blocks label) (enter blocks last) := by
  induction k generalizing label with
  | zero => exact h.2 ▸ rfl
  | succ k ih =>
    obtain ⟨next, hn, h⟩ := h
    obtain ⟨-, later, heq⟩ := (lookup_forwards_eq_some_iff hnd).1 hn
    exact ⟨some label, next, later, heq, ih h⟩

/-- The place that a jump is sent on to is reached by empty blocks that jump on. -/
theorem exists_hops_route {blocks : List (Block σ ε)} (hnd : (blockLabels blocks).Nodup)
    (label : String) :
    ∃ k, Hops blocks k (enter blocks label) (enter blocks (route (forwards blocks) label)) := by
  rcases route_cases (forwards blocks) label with ⟨k, hlead⟩ | ⟨-, heq⟩
  · exact ⟨k + 1, hops_of_leadsIn hnd hlead⟩
  · exact ⟨0, by rw [heq]; rfl⟩

/-- The machines before and after the pass: the first may have some hops to go that the second has
skipped. -/
theorem threadJumps_simulation {blocks : List (Block σ ε)} (hnd : (blockLabels blocks).Nodup) :
    PassSimulation blocks (threadJumps blocks).1 fun n ahead ahead' =>
      ∃ c, Hops blocks n ahead c ∧ ahead' = c.map (Block.threaded (forwards blocks)) := by
  constructor
  case start => exact ⟨0, blocks, rfl, threadJumps_blocks blocks⟩
  case nil =>
    rintro n ahead' ⟨c, hc, rfl⟩
    cases n with
    | zero => cases hc; rfl
    | succ n => obtain ⟨_, _, _, h, -⟩ := hc; cases h
  case statement =>
    rintro n label s rest exit later ahead' ⟨c, hc, rfl⟩
    cases n with
    | zero => cases hc; exact ⟨0, label, rest, _, _, rfl, _, rfl, rfl⟩
    | succ n => obtain ⟨_, _, _, h, -⟩ := hc; cases h
  case exit =>
    rintro n label exit later ahead' ⟨c, hc, rfl⟩
    cases n with
    | succ n =>
      obtain ⟨_, target, _, h, hc⟩ := hc
      cases h
      exact .inr ⟨some target, fun _ _ => rfl, n, Nat.lt_succ_self n, c, hc, rfl⟩
    | zero =>
      cases hc
      refine .inl ⟨label, exit.mapTargets (route (forwards blocks)), _, rfl,
        fun oracle history => ?_⟩
      rw [Exit.leave_mapTargets]
      cases hleave : exit.leave oracle history with
      | none => cases exit <;> first | rfl | cases hleave
      | some place =>
        obtain ⟨target, after⟩ := place
        refine ⟨target.map (route (forwards blocks)), rfl, ?_⟩
        cases target with
        | none => exact ⟨0, later, rfl, rfl⟩
        | some t =>
          obtain ⟨k, hk⟩ := exists_hops_route hnd t
          exact ⟨k, _, hk, enter_threadJumps _ _⟩

/-- Sending jumps on keeps the behaviour. -/
theorem threadJumps_equivalent {blocks : List (Block σ ε)} (h : Valid blocks) :
    Equivalent blocks (threadJumps blocks).1 :=
  (threadJumps_simulation h.nodup).equivalent

/-! ## Running the pass again -/

/-- After the pass, the hop from a label is the old one sent on. -/
theorem lookup_forwards_threadJumps {blocks : List (Block σ ε)} (hnd : (blockLabels blocks).Nodup)
    (label : String) :
    (forwards (threadJumps blocks).1).lookup label =
      ((forwards blocks).lookup label).map (route (forwards blocks)) := by
  have hnd' : (blockLabels (threadJumps blocks).1).Nodup := by
    rw [threadJumps_blocks, blockLabels_map_threaded]
    exact hnd
  refine Option.ext fun target => ?_
  rw [lookup_forwards_eq_some_iff hnd', Option.map_eq_some_iff, enter_threadJumps]
  constructor
  · rintro ⟨hne, later, heq⟩
    obtain ⟨b, rest, hb, hbt, -⟩ := List.map_eq_cons_iff.1 heq
    obtain ⟨bl, ss, exit⟩ := b
    simp only [Block.threaded, Block.mk.injEq] at hbt
    obtain ⟨rfl, rfl, hexit⟩ := hbt
    cases exit with
    | jump t =>
      simp only [Exit.mapTargets, Exit.jump.injEq] at hexit
      refine ⟨t, ?_, hexit⟩
      -- A block that jumps to itself is sent nowhere, so the block jumped to another label before.
      rw [lookup_forwards_eq_some_iff hnd]
      refine ⟨?_, rest, hb⟩
      rintro rfl
      rcases route_cases (forwards blocks) label with ⟨k, next, hn, -⟩ | ⟨-, hr⟩
      · obtain ⟨hne', later', heq'⟩ := (lookup_forwards_eq_some_iff hnd).1 hn
        rw [hb] at heq'
        simp only [List.cons.injEq, Block.mk.injEq, Exit.jump.injEq, true_and] at heq'
        exact hne' heq'.1
      · exact hne (hr.symm.trans hexit)
    | fallThrough | branch | switch | ret | abort => cases hexit
  · rintro ⟨t, ht, rfl⟩
    obtain ⟨hne, later, heq⟩ := (lookup_forwards_eq_some_iff hnd).1 ht
    refine ⟨?_, later.map (Block.threaded (forwards blocks)), by rw [heq]; rfl⟩
    intro hlabel
    rcases route_cases (forwards blocks) t with ⟨k, hlead⟩ | ⟨-, hr⟩
    · have := hlead.lookup_last
      rw [← hlabel, ht] at this
      cases this
    · exact hne (hlabel.trans hr)

/-- A label that leads on after the pass has led on before. -/
theorem exists_leadsIn_of_threaded {blocks : List (Block σ ε)} (hnd : (blockLabels blocks).Nodup)
    {k : Nat} {label last : String} (h : LeadsIn (forwards (threadJumps blocks).1) k label last) :
    ∃ j, LeadsIn (forwards blocks) j label last := by
  induction k generalizing label with
  | zero =>
    refine ⟨0, ?_, h.2⟩
    have := h.1
    rwa [lookup_forwards_threadJumps hnd, Option.map_eq_none_iff] at this
  | succ k ih =>
    obtain ⟨next, hn, h⟩ := h
    rw [lookup_forwards_threadJumps hnd, Option.map_eq_some_iff] at hn
    obtain ⟨t, ht, rfl⟩ := hn
    obtain ⟨j, hj⟩ := ih h
    rcases route_cases (forwards blocks) t with ⟨i, hlead⟩ | ⟨-, hr⟩
    · refine ⟨i + 2, t, ht, ?_⟩
      -- The way from `t` ends where it was sent, so the rest of the way is empty.
      have hzero :
          LeadsIn (forwards blocks) 0 (route (forwards blocks) t) (route (forwards blocks) t) :=
        ⟨hlead.lookup_last, rfl⟩
      rw [← (hzero.unique hj).2]
      exact hlead
    · rw [hr] at hj
      exact ⟨j + 1, t, ht, hj⟩

/-- After the pass no jump can be sent on any further. -/
theorem destination_threaded_route {blocks : List (Block σ ε)} (hnd : (blockLabels blocks).Nodup)
    (label : String) :
    destination (forwards (threadJumps blocks).1) (route (forwards blocks) label) = none := by
  rw [Option.eq_none_iff_forall_ne_some]
  intro last hlast
  obtain ⟨k, hlead⟩ := destination_eq_some_iff.1 hlast
  obtain ⟨next, hn, -⟩ := id hlead
  rw [lookup_forwards_threadJumps hnd, Option.map_eq_some_iff] at hn
  obtain ⟨t, ht, -⟩ := hn
  rcases route_cases (forwards blocks) label with ⟨i, hend⟩ | ⟨hnone, hr⟩
  · rw [hend.lookup_last] at ht
    cases ht
  · obtain ⟨j, hj⟩ := exists_leadsIn_of_threaded hnd hlead
    rw [hr] at hj ht
    cases j with
    | zero => rw [hj.1] at ht; cases ht
    | succ j =>
      rw [destination_eq_some_iff.2 ⟨j, hj⟩] at hnone
      cases hnone

/-- The changes that the pass reports are the labels of exits that it sends on. -/
theorem threadJumps_changes (blocks : List (Block σ ε)) :
    (threadJumps blocks).2 = (exitTargets blocks).countP fun t =>
      (destination (forwards blocks) t).isSome := by
  rw [exitTargets, List.countP_flatMap, List.sum_eq_foldr, List.foldr_map]
  exact List.foldr_map

/-- The pass reports no change exactly if no exit names a label that leads on. -/
theorem threadJumps_changes_eq_zero_iff (blocks : List (Block σ ε)) :
    (threadJumps blocks).2 = 0 ↔ ∀ t ∈ exitTargets blocks,
    destination (forwards blocks) t = none := by
  rw [threadJumps_changes, List.countP_eq_zero]
  simp only [Option.not_isSome_iff_eq_none]

/-- Running the pass on its own result changes nothing. -/
theorem threadJumps_threadJumps {blocks : List (Block σ ε)} (hnd : (blockLabels blocks).Nodup) :
    (threadJumps (threadJumps blocks).1).2 = 0 := by
  rw [threadJumps_changes_eq_zero_iff]
  intro t ht
  rw [threadJumps_blocks, exitTargets_map_threaded, List.mem_map] at ht
  obtain ⟨t, -, rfl⟩ := ht
  exact destination_threaded_route hnd t

/-- An exit whose targets stay is left as it is. -/
theorem Exit.mapTargets_eq_self {f : String → String} {exit : Exit ε}
    (h : ∀ t ∈ exit.targets, f t = t) : exit.mapTargets f = exit := by
  cases exit with
  | fallThrough | ret | abort => rfl
  | jump t => rw [mapTargets, h t (by simp [targets])]
  | branch condition t => rw [mapTargets, h t (by simp [targets])]
  | switch scrutinee cases default =>
    have hcases : cases.map (fun c => (c.1, f c.2)) = cases := by
      conv_rhs => rw [← List.map_id cases]
      refine List.map_congr_left fun c hc => ?_
      rw [h c.2 (List.mem_append_left _ (List.mem_map_of_mem hc))]
      rfl
    rw [mapTargets, hcases, h default (by simp [targets])]

/-- A run of the pass that reports no change leaves all blocks as they are. -/
theorem threadJumps_eq_self {blocks : List (Block σ ε)} (h : (threadJumps blocks).2 = 0) :
    (threadJumps blocks).1 = blocks := by
  rw [threadJumps_changes_eq_zero_iff] at h
  rw [threadJumps_blocks]
  conv_rhs => rw [← List.map_id blocks]
  refine List.map_congr_left fun b hb => ?_
  have hexit : b.exit.mapTargets (route (forwards blocks)) = b.exit := by
    refine Exit.mapTargets_eq_self fun t ht => ?_
    rw [route, h t (mem_exitTargets.2 ⟨b, hb, ht⟩)]
    rfl
  rw [Block.threaded, hexit]
  rfl

end StackToGo.Go
