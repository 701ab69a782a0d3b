import StackToGo.Proofs.Blocks.NormalForm

/-!
# Sending jumps on, one label after the other

Jumps can also be sent on with the help of two tables. The first has an entry for each block that
only jumps on: its label, and where it jumps to. The second has an entry for each of these labels
that leads somewhere: the label, and where it leads in the end. Then every exit is gone through
once for each entry of the second table, and the label of the entry is replaced. The entries of a
table come in no particular order, and what one entry has put into an exit is seen by the entries
after it.

`threading_independent_of_order`: the order does not matter. The end of a chain of jumps is not the
start of another one, so what an entry puts into an exit stays there, and all entries together do
what `threadJumps` does at once. Which labels are replaced, and by what, is said of the blocks
alone.
-/

namespace StackToGo.Go

open Relation

variable {σ ε : Type}

/-! ## Chains of jumps -/

/-- An empty block takes jumps to the label on to another label. One that jumps to itself does not:
a chain ends there. -/
def LinksTo (blocks : List (Block σ ε)) (label next : String) : Prop :=
  HopsOn blocks label next ∧ label ≠ next

/-- The jumps from the label come back to a label that they have left. -/
def GoesRound (blocks : List (Block σ ε)) (label : String) : Prop :=
  ∃ l, ReflTransGen (LinksTo blocks) label l ∧ TransGen (LinksTo blocks) l l

/-- A chain of empty blocks that jump on begins at the label, and does not go round in a circle. -/
def StartsChain (blocks : List (Block σ ε)) (label : String) : Prop :=
  (∃ next, LinksTo blocks label next) ∧ ¬ GoesRound blocks label

/-- The chain that begins at the label goes as far as `last`, and no further. -/
def EndsChain (blocks : List (Block σ ε)) (label last : String) : Prop :=
  TransGen (LinksTo blocks) label last ∧ ∀ next, ¬ LinksTo blocks last next

/-- A label that is sent on is sent elsewhere. -/
theorem destination_isSome_eq (hops : List (String × String)) (label : String) :
    (destination hops label).isSome = (route hops label != label) := by
  rcases route_cases hops label with ⟨k, hlead⟩ | ⟨hnone, hself⟩
  · have hne : route hops label ≠ label := by
      intro heq
      obtain ⟨next, hnext, -⟩ := id hlead
      rw [← heq, hlead.lookup_last] at hnext
      cases hnext
    rw [destination_eq_some_iff.2 ⟨k, hlead⟩, bne_iff_ne.2 hne]
    rfl
  · rw [hnone, hself, bne_self_eq_false]
    rfl

section Chains

variable {blocks : List (Block σ ε)} (hunique : (blockLabels blocks).Nodup)
include hunique

/-- The table of hops has the links between labels. -/
theorem lookup_forwards_eq_some_iff_linksTo {label next : String} :
    (forwards blocks).lookup label = some next ↔ LinksTo blocks label next :=
  ⟨fun h => ⟨hopsOn_of_lookup_forwards hunique h, ((lookup_forwards_eq_some_iff hunique).1 h).1⟩,
    fun h => lookup_forwards_of_hopsOn hunique h.1 h.2⟩

/-- The table has no hop just for labels without a link. -/
theorem lookup_forwards_eq_none_iff {label : String} :
    (forwards blocks).lookup label = none ↔ ∀ next, ¬ LinksTo blocks label next := by
  simp only [Option.eq_none_iff_forall_ne_some, ne_eq, lookup_forwards_eq_some_iff_linksTo hunique]

/-- Links lead to where the hops lead that the pass follows. -/
theorem exists_leadsIn_iff {label last : String} :
    (∃ k, LeadsIn (forwards blocks) (k + 1) label last) ↔ EndsChain blocks label last := by
  constructor
  · rintro ⟨k, h⟩
    refine ⟨?_, (lookup_forwards_eq_none_iff hunique).1 h.lookup_last⟩
    induction k generalizing label with
    | zero =>
      obtain ⟨next, hnext, -, rfl⟩ := h
      exact .single ((lookup_forwards_eq_some_iff_linksTo hunique).1 hnext)
    | succ k ih =>
      obtain ⟨next, hnext, h⟩ := h
      exact .head ((lookup_forwards_eq_some_iff_linksTo hunique).1 hnext) (ih h)
  · rintro ⟨hlinks, hlast⟩
    induction hlinks using TransGen.head_induction_on with
    | single hlink =>
      exact ⟨0, last, (lookup_forwards_eq_some_iff_linksTo hunique).2 hlink,
        (lookup_forwards_eq_none_iff hunique).2 hlast, rfl⟩
    | head hlink _ ih =>
      obtain ⟨k, h⟩ := ih
      exact ⟨k + 1, _, (lookup_forwards_eq_some_iff_linksTo hunique).2 hlink, h⟩

/-- A destination is the end of the chain that begins at the label. -/
theorem destination_eq_some_iff_endsChain {label last : String} :
    destination (forwards blocks) label = some last ↔ EndsChain blocks label last := by
  rw [destination_eq_some_iff, exists_leadsIn_iff hunique]

/-- Along links there are fewer and fewer hops to go. -/
theorem exists_leadsIn_lt {label l last : String} {k : Nat}
    (hlinks : TransGen (LinksTo blocks) label l) (h : LeadsIn (forwards blocks) k label last) :
    ∃ j < k, LeadsIn (forwards blocks) j l last := by
  have hstep : ∀ {l next j}, LinksTo blocks l next → LeadsIn (forwards blocks) j l last →
      ∃ i < j, LeadsIn (forwards blocks) i next last := by
    intro l next j hlink hlead
    have hlookup := (lookup_forwards_eq_some_iff_linksTo hunique).2 hlink
    cases j with
    | zero => rw [hlead.1] at hlookup; cases hlookup
    | succ j =>
      obtain ⟨next', hnext, hlead⟩ := hlead
      rw [hlookup] at hnext
      cases hnext
      exact ⟨j, Nat.lt_succ_self j, hlead⟩
  induction hlinks with
  | single hlink => exact hstep hlink h
  | tail _ hlink ih =>
    obtain ⟨j, hj, hlead⟩ := ih
    obtain ⟨i, hi, hlead⟩ := hstep hlink hlead
    exact ⟨i, hi.trans hj, hlead⟩

/-- A chain that ends does not go round in a circle: a label on the circle would have fewer hops to
go than itself. -/
theorem EndsChain.not_goesRound {label last : String} (h : EndsChain blocks label last) :
    ¬ GoesRound blocks label := by
  rintro ⟨l, hreach, hround⟩
  obtain ⟨k, hlead⟩ := (exists_leadsIn_iff hunique).2 h
  obtain ⟨j, hl⟩ : ∃ j, LeadsIn (forwards blocks) j l last := by
    rcases reflTransGen_iff_eq_or_transGen.1 hreach with rfl | hlinks
    · exact ⟨k + 1, hlead⟩
    · obtain ⟨j, -, hl⟩ := exists_leadsIn_lt hunique hlinks hlead
      exact ⟨j, hl⟩
  obtain ⟨i, hi, hl'⟩ := exists_leadsIn_lt hunique hround hl
  have := (hl.unique hl').1
  omega

/-- The chains that do not go round in a circle are those that end. -/
theorem startsChain_iff {label : String} :
    StartsChain blocks label ↔ ∃ last, EndsChain blocks label last := by
  constructor
  · rintro ⟨⟨next, hlink⟩, hround⟩
    by_contra hnone
    rw [not_exists] at hnone
    refine hround (exists_return (fun _ _ h => mem_blockLabels_of_hopsOn h.1)
      fun last hreach => ?_)
    by_contra hlast
    rcases reflTransGen_iff_eq_or_transGen.1 hreach with rfl | hlinks
    · exact hlast ⟨next, hlink⟩
    · exact hnone last ⟨hlinks, not_exists.1 hlast⟩
  · rintro ⟨last, h⟩
    obtain ⟨next, hlink, -⟩ := TransGen.head'_iff.1 h.1
    exact ⟨⟨next, hlink⟩, h.not_goesRound hunique⟩

/-- The pass sends jumps to a label to the end of the chain that begins there, and no others. -/
theorem route_spec (label : String) :
    (StartsChain blocks label → ∀ last, EndsChain blocks label last ↔
      last = route (forwards blocks) label) ∧
      (¬ StartsChain blocks label → route (forwards blocks) label = label) := by
  rw [startsChain_iff hunique, route]
  simp only [← destination_eq_some_iff_endsChain hunique]
  cases destination (forwards blocks) label with
  | none => simp
  | some last => simp [eq_comm]

end Chains

/-! ## Tables -/

/-- Replaces the labels of an exit, one entry of a table after the other. Gives the new exit, and
how many labels were replaced. -/
def Exit.retargetEach : List (String × String) → Exit ε → Exit ε × Nat
  | [], e => (e, 0)
  | (old, new) :: rest, e =>
    let first := e.retarget old new
    let later := retargetEach rest first.1
    (later.1, first.2 + later.2)

/-- Where the labels of a table of hops lead, for those that lead somewhere. -/
def destinations (hops : List (String × String)) : List (String × String) :=
  hops.filterMap fun hop => (destination hops hop.1).map (hop.1, ·)

/-- Replaces the labels of all exits, one entry of a table after the other. -/
def threadEach (ends : List (String × String)) (blocks : List (Block σ ε)) : Changed σ ε :=
  let moved := blocks.map fun b => (b, b.exit.retargetEach ends)
  (moved.map fun m => { m.1 with exit := m.2.1 }, moved.foldr (·.2.2 + ·) 0)

section Tables

variable {entries entries' hops hops' ends : List (String × String)}

/-- A table without two entries for one label holds what is found in it. -/
theorem lookup_eq_some_iff_mem (hkeys : (entries.map (·.1)).Nodup) {label target : String} :
    entries.lookup label = some target ↔ (label, target) ∈ entries := by
  induction entries with
  | nil => simp
  | cons entry rest ih =>
    obtain ⟨old, new⟩ := entry
    obtain ⟨hnew, hkeys⟩ := List.nodup_cons.1 hkeys
    rw [List.lookup_cons, List.mem_cons, Prod.mk.injEq]
    by_cases heq : label = old
    · subst heq
      have hrest : (label, target) ∉ rest := fun hmem => hnew (List.mem_map.2 ⟨_, hmem, rfl⟩)
      simp [hrest, eq_comm]
    · rw [beq_eq_false_iff_ne.2 heq]
      simp [heq, ih hkeys]

/-- In a table without repeated keys the order does not matter for a lookup. -/
theorem lookup_eq_of_perm (hperm : entries.Perm entries') (hkeys : (entries'.map (·.1)).Nodup)
    (label : String) : entries.lookup label = entries'.lookup label := by
  refine Option.ext fun target => ?_
  rw [lookup_eq_some_iff_mem ((hperm.map _).nodup_iff.2 hkeys), lookup_eq_some_iff_mem hkeys,
    hperm.mem_iff]

/-- Where a label leads depends on what is found in the table of hops only. -/
theorem LeadsIn.congr (h : ∀ l, hops.lookup l = hops'.lookup l) {k : Nat} {label last : String}
    (hlead : LeadsIn hops k label last) : LeadsIn hops' k label last := by
  induction k generalizing label with
  | zero => exact ⟨(h label).symm.trans hlead.1, hlead.2⟩
  | succ k ih =>
    obtain ⟨next, hnext, hlead⟩ := hlead
    exact ⟨next, (h label).symm.trans hnext, ih hlead⟩

/-- Tables with the same hops have the same destinations. -/
theorem destination_congr (h : ∀ l, hops.lookup l = hops'.lookup l) (label : String) :
    destination hops label = destination hops' label := by
  refine Option.ext fun last => ?_
  rw [destination_eq_some_iff, destination_eq_some_iff]
  exact exists_congr fun k => ⟨.congr h, .congr fun l => (h l).symm⟩

/-- The labels that lead somewhere, and where. -/
theorem mem_destinations {label last : String} :
    (label, last) ∈ destinations hops ↔ destination hops label = some last := by
  rw [destinations, List.mem_filterMap]
  constructor
  · rintro ⟨⟨l, next⟩, -, hmap⟩
    obtain ⟨_, hdest, heq⟩ := Option.map_eq_some_iff.1 hmap
    cases heq
    exact hdest
  · intro h
    obtain ⟨k, next, hnext, -⟩ := destination_eq_some_iff.1 h
    obtain ⟨front, back, hsplit, -⟩ := List.lookup_eq_some_iff.1 hnext
    exact ⟨(label, next), by simp [hsplit], by rw [h]; rfl⟩

/-- No label leads to two destinations. -/
theorem nodup_keys_destinations (hkeys : (hops.map (·.1)).Nodup) :
    ((destinations hops).map (·.1)).Nodup := by
  rw [List.Nodup, List.pairwise_map] at hkeys ⊢
  refine hkeys.filterMap _ fun hop hop' hne e he e' he' => ?_
  obtain ⟨_, -, rfl⟩ := Option.map_eq_some_iff.1 he
  obtain ⟨_, -, rfl⟩ := Option.map_eq_some_iff.1 he'
  exact hne

/-- No label is replaced by one that would be replaced itself. -/
theorem end_not_mem_keys {e : String × String} (he : e ∈ destinations hops) :
    e.2 ∉ (destinations hops).map (·.1) := by
  intro hmem
  obtain ⟨⟨_, last⟩, he', rfl⟩ := List.mem_map.1 hmem
  obtain ⟨k, hlead⟩ := destination_eq_some_iff.1 (mem_destinations.1 he)
  obtain ⟨k', next, hnext, -⟩ := destination_eq_some_iff.1 (mem_destinations.1 he')
  rw [hlead.lookup_last] at hnext
  cases hnext

/-- The labels with hops are labels of blocks, in their order. -/
theorem forwards_keys_sublist (blocks : List (Block σ ε)) :
    ((forwards blocks).map (·.1)).Sublist (blockLabels blocks) := by
  induction blocks with
  | nil => exact .slnil
  | cons b rest ih =>
    cases hforward : b.forward? with
    | none =>
      rw [forwards, List.filterMap_cons_none hforward]
      exact ih.trans ((List.sublist_cons_self b rest).filterMap _)
    | some hop =>
      obtain ⟨rfl, -⟩ := Block.forward?_eq_some_iff.1 hforward
      rw [forwards, List.filterMap_cons_some hforward]
      exact ih.cons_cons _

end Tables

/-! ## One entry after the other -/

namespace Exit

/-- Replacing the targets twice is replacing them at once. -/
theorem mapTargets_mapTargets (f g : String → String) (e : Exit ε) :
    (e.mapTargets f).mapTargets g = e.mapTargets fun t => g (f t) := by
  cases e <;> simp [mapTargets]

/-- A label is sent by the first redirection or by the second, not by both. -/
theorem countP_redirected {first second : String → Option String}
    (h : ∀ t u, first t = some u → second u = none) (targets : List String) :
    targets.countP (fun t => ((first t).or (second t)).isSome) =
      targets.countP (fun t => (first t).isSome) +
        (targets.map fun t => (first t).getD t).countP fun t => (second t).isSome := by
  induction targets with
  | nil => rfl
  | cons t rest ih =>
    rw [List.map_cons, List.countP_cons, List.countP_cons, List.countP_cons, ih]
    cases hfirst : first t with
    | none =>
      rw [Option.none_or, Option.getD_none]
      cases (second t).isSome <;> simp +arith
    | some u =>
      rw [Option.some_or, Option.getD_some, h t u hfirst]
      simp +arith

/-- Two redirections one after the other are one, if the second leaves alone what the first has put
in. -/
theorem redirect_redirect {first second : String → Option String}
    (h : ∀ t u, first t = some u → second u = none) (e : Exit ε) :
    e.redirect (fun t => (first t).or (second t)) =
      (((e.redirect first).1.redirect second).1,
        (e.redirect first).2 + ((e.redirect first).1.redirect second).2) := by
  have hlabel : ∀ t, ((first t).or (second t)).getD t =
      (second ((first t).getD t)).getD ((first t).getD t) := by
    intro t
    cases hfirst : first t with
    | none => rfl
    | some u => simp [h t u hfirst]
  simp only [redirect, mapTargets_mapTargets, targets_mapTargets, hlabel, countP_redirected h]

/-- Where no label is replaced, the exit stays. -/
theorem redirect_none (e : Exit ε) : e.redirect (fun _ => none) = (e, 0) := by
  have hself : e.mapTargets (fun t => t) = e := mapTargets_eq_self fun _ _ => rfl
  simp [redirect, hself]

/-- By induction on the entries: what one of them puts in, the later ones leave alone. -/
theorem retargetEach_eq_redirect {entries : List (String × String)}
    (hends : ∀ entry ∈ entries, entry.2 ∉ entries.map (·.1)) (e : Exit ε) :
    e.retargetEach entries = e.redirect (entries.lookup ·) := by
  induction entries generalizing e with
  | nil => exact (redirect_none e).symm
  | cons entry rest ih =>
    obtain ⟨old, new⟩ := entry
    have hrest : ∀ entry ∈ rest, entry.2 ∉ rest.map (·.1) := fun entry hmem hkey =>
      hends entry (List.mem_cons_of_mem _ hmem) (List.mem_cons_of_mem _ hkey)
    have hnew : rest.lookup new = none := by
      rw [List.lookup_eq_none_iff]
      intro entry hmem
      rw [bne_iff_ne]
      rintro rfl
      exact hends _ List.mem_cons_self (List.mem_cons_of_mem _ (List.mem_map_of_mem hmem))
    have hstays : ∀ t u, (if t = old then some new else none) = some u → rest.lookup u = none := by
      intro t u htu
      split at htu
      · cases htu
        exact hnew
      · cases htu
    have hlookup : (fun t => ((old, new) :: rest).lookup t) =
        fun t => (if t = old then some new else none).or (rest.lookup t) := by
      funext t
      rw [List.lookup_cons]
      by_cases ht : t = old
      · simp [ht]
      · rw [if_neg ht, beq_eq_false_iff_ne.2 ht]
        rfl
    rw [hlookup, redirect_redirect hstays]
    simp only [retargetEach, ih hrest]
    rfl

end Exit

/-! ## All exits -/

/-- The entries of the two tables may come in any order. -/
theorem threadEach_eq_threadJumps {blocks : List (Block σ ε)}
    (hunique : (blockLabels blocks).Nodup) {hops ends : List (String × String)}
    (hhops : hops.Perm (forwards blocks)) (hends : ends.Perm (destinations hops)) :
    threadEach ends blocks = threadJumps blocks := by
  have hkeys : ((forwards blocks).map (·.1)).Nodup := (forwards_keys_sublist blocks).nodup hunique
  have hkeys' : ((destinations hops).map (·.1)).Nodup :=
    nodup_keys_destinations ((hhops.map _).nodup_iff.2 hkeys)
  have hlookup : ∀ label, ends.lookup label = destination (forwards blocks) label := by
    intro label
    rw [lookup_eq_of_perm hends hkeys', ← destination_congr (lookup_eq_of_perm hhops hkeys)]
    exact Option.ext fun last => (lookup_eq_some_iff_mem hkeys').trans mem_destinations
  have hstays : ∀ entry ∈ ends, entry.2 ∉ ends.map (·.1) := fun entry hmem hkey =>
    end_not_mem_keys (hends.mem_iff.1 hmem) ((hends.map _).mem_iff.1 hkey)
  have hexit : ∀ e : Exit ε, e.retargetEach ends = e.redirect (destination (forwards blocks)) := by
    intro e
    rw [Exit.retargetEach_eq_redirect hstays]
    exact congrArg e.redirect (funext hlookup)
  simp only [threadEach, threadJumps, hexit]

/-- In whatever order the entries of the two tables come, the blocks and the number of changes are
the same. A label of an exit at which a chain begins is replaced by the end of the chain, every
other label stays, and the number of changes is that of the labels that are replaced. -/
theorem threading_independent_of_order {blocks : List (Block σ ε)}
    (hunique : (blockLabels blocks).Nodup) {hops hops' ends ends' : List (String × String)}
    (hhops : hops.Perm (forwards blocks)) (hends : ends.Perm (destinations hops))
    (hhops' : hops'.Perm (forwards blocks)) (hends' : ends'.Perm (destinations hops')) :
    threadEach ends blocks = threadEach ends' blocks ∧
      threadEach ends blocks = threadJumps blocks ∧
      ∃ send : String → String,
        (∀ t, StartsChain blocks t → ∀ last, EndsChain blocks t last ↔ last = send t) ∧
        (∀ t, ¬ StartsChain blocks t → send t = t) ∧
        (threadEach ends blocks).1 =
          blocks.map (fun b => { b with exit := b.exit.mapTargets send }) ∧
        (threadEach ends blocks).2 = (exitTargets blocks).countP fun t => send t != t := by
  have heq := threadEach_eq_threadJumps hunique hhops hends
  have heq' := threadEach_eq_threadJumps hunique hhops' hends'
  refine ⟨heq.trans heq'.symm, heq, route (forwards blocks), fun t => (route_spec hunique t).1,
    fun t => (route_spec hunique t).2, ?_, ?_⟩
  · rw [heq]
    exact threadJumps_blocks blocks
  · rw [heq, threadJumps_changes]
    simp only [destination_isSome_eq]

/-- A tree of chains that ends at `_9`, a chain that runs into the circle of `_5` and `_6`, and one
that ends at a block that jumps to itself. -/
def branchingHops : List (Block String String) :=
  [⟨none, ["a()"], .switch "x" [("1", "_1"), ("2", "_4")] "_7"⟩,
    ⟨some "_1", [], .jump "_3"⟩, ⟨some "_2", [], .jump "_3"⟩, ⟨some "_3", [], .jump "_9"⟩,
    ⟨some "_4", [], .jump "_5"⟩, ⟨some "_5", [], .jump "_6"⟩, ⟨some "_6", [], .jump "_5"⟩,
    ⟨some "_7", [], .jump "_8"⟩, ⟨some "_8", [], .jump "_8"⟩,
    ⟨some "_9", ["b()"], .ret⟩]

/-- The chains of the blocks lead to their ends, and the labels of the circle nowhere. -/
theorem branchingHops_any_order :
    (blockLabels branchingHops).Nodup ∧
      forwards branchingHops = [("_1", "_3"), ("_2", "_3"), ("_3", "_9"), ("_4", "_5"),
        ("_5", "_6"), ("_6", "_5"), ("_7", "_8")] ∧
      destinations (forwards branchingHops) =
        [("_1", "_9"), ("_2", "_9"), ("_3", "_9"), ("_7", "_8")] ∧
      threadEach [("_1", "_9"), ("_2", "_9"), ("_3", "_9"), ("_7", "_8")] branchingHops =
        threadEach [("_7", "_8"), ("_3", "_9"), ("_2", "_9"), ("_1", "_9")] branchingHops ∧
      (threadEach [("_1", "_9"), ("_2", "_9"), ("_3", "_9"), ("_7", "_8")] branchingHops).2 =
        4 := by
  have hunique : (blockLabels branchingHops).Nodup := by decide
  have hends : destinations (forwards branchingHops) =
      [("_1", "_9"), ("_2", "_9"), ("_3", "_9"), ("_7", "_8")] := by
    decide
  have hends' : destinations (forwards branchingHops).reverse =
      [("_7", "_8"), ("_3", "_9"), ("_2", "_9"), ("_1", "_9")] := by
    decide
  obtain ⟨horder, -⟩ :=
    threading_independent_of_order hunique (.refl _) (.refl _) (List.reverse_perm _) (.refl _)
  rw [hends, hends'] at horder
  exact ⟨hunique, by decide, hends, horder, by decide⟩

end StackToGo.Go
