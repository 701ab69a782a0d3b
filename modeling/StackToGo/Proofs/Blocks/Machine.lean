import StackToGo.Go.Simplify
import StackToGo.Proofs.Simulation

/-!
# What blocks do

A list of blocks as a machine. Control begins at the first block. A statement shows as an event; so
does the condition of a branch and the scrutinee of a switch, and which way these go is decided by
an oracle that knows all events so far. What an observer can tell about a run is which histories it
gets to (`Emits`) and with which history and ending it stops (`Halts`). Two lists of blocks with
the same such histories for every oracle are `Equivalent`, and a ranked simulation between their
machines shows that they are.
-/

namespace StackToGo.Go

open StateTransition

variable {σ ε : Type}

/-! ## Events and oracles -/

/-- What a run shows to the outside. -/
inductive Event (σ ε : Type) where
  | statement (s : σ)
  /-- The condition of a branch, or the scrutinee of a switch, is computed. -/
  | test (e : ε)

/-- The events of a run so far, in order. -/
abbrev History (σ ε : Type) := List (Event σ ε)

/-- Decides branches and switches by what has happened up to the test, which is the last event. -/
structure Oracle (σ ε : Type) where
  /-- Is the branch taken? -/
  taken : History σ ε → Bool
  /-- The case of the switch, counted from 0. From the number of cases on it means the default. -/
  arm : History σ ε → Nat

/-- How a run ends. -/
inductive Ending where
  | returned | aborted
  deriving DecidableEq, Repr

/-! ## The machine -/

/-- The place of a run: what is left of the current block with the blocks after it, and what has
happened. -/
structure Control (σ ε : Type) where
  ahead : List (Block σ ε)
  history : History σ ε

/-- The blocks from the one with the given label on. -/
def enter (blocks : List (Block σ ε)) (target : String) : List (Block σ ε) :=
  blocks.dropWhile fun b => b.label ≠ some target

/-- The case of a switch that an oracle names. -/
def chosenTarget (cases : List (ε × String)) (default : String) (arm : Nat) : String :=
  (cases[arm]?.map (·.2)).getD default

/-- Where an exit leads after a history: to a label or, with none, to the next block. It also gives
the history after the exit. None if the run ends here. -/
def Exit.leave (oracle : Oracle σ ε) (history : History σ ε) :
    Exit ε → Option (Option String × History σ ε)
  | .fallThrough => some (none, history)
  | .jump target => some (some target, history)
  | .branch condition target =>
    let history := history ++ [.test condition]
    some (if oracle.taken history then some target else none, history)
  | .switch scrutinee cases default =>
    let history := history ++ [.test scrutinee]
    some (some (chosenTarget cases default (oracle.arm history)), history)
  | .ret => none
  | .abort => none

/-- The blocks that a label names, or the following ones if there is none. -/
def resume (program later : List (Block σ ε)) : Option String → List (Block σ ε)
  | none => later
  | some target => enter program target

/-- One step of a run of `program`. There is none after its end. -/
def Control.next (program : List (Block σ ε)) (oracle : Oracle σ ε) (c : Control σ ε) :
    Option (Control σ ε) :=
  match c.ahead with
  | [] => none
  | ⟨label, s :: rest, exit⟩ :: later =>
    some ⟨⟨label, rest, exit⟩ :: later, c.history ++ [.statement s]⟩
  | ⟨_, [], exit⟩ :: later =>
    (exit.leave oracle c.history).map fun place => ⟨resume program later place.1, place.2⟩

/-- How the run ends at a place, if it ends there. -/
def Control.ending (c : Control σ ε) : Option Ending :=
  match c.ahead with
  | ⟨_, [], .ret⟩ :: _ => some .returned
  | ⟨_, [], .abort⟩ :: _ => some .aborted
  | _ => none

/-- The place where a run begins. -/
def Control.start (program : List (Block σ ε)) : Control σ ε := ⟨program, []⟩

/-- The run gets to the given history. -/
def Emits (program : List (Block σ ε)) (oracle : Oracle σ ε) (history : History σ ε) : Prop :=
  ∃ c, Reaches (Control.next program oracle) (.start program) c ∧ c.history = history

/-- The run ends in the given way after the given history. -/
def Halts (program : List (Block σ ε)) (oracle : Oracle σ ε) (ending : Ending)
    (history : History σ ε) : Prop :=
  ∃ c, Reaches (Control.next program oracle) (.start program) c ∧ c.history = history ∧
    c.ending = some ending

/-- Whatever the oracle, runs of both get to the same histories, and end in the same way after the
same ones. -/
def Equivalent (program program' : List (Block σ ε)) : Prop :=
  ∀ oracle : Oracle σ ε,
    (∀ history, Emits program oracle history ↔ Emits program' oracle history) ∧
    ∀ ending history, Halts program oracle ending history ↔ Halts program' oracle ending history

namespace Equivalent

/-- A program is equivalent to itself. -/
theorem refl (program : List (Block σ ε)) : Equivalent program program :=
  fun _ => ⟨fun _ => .rfl, fun _ _ => .rfl⟩

/-- Equivalent programs are equivalent to the same programs. -/
theorem trans {p q r : List (Block σ ε)} (hpq : Equivalent p q) (hqr : Equivalent q r) :
    Equivalent p r :=
  fun oracle => ⟨fun h => ((hpq oracle).1 h).trans ((hqr oracle).1 h),
    fun e h => ((hpq oracle).2 e h).trans ((hqr oracle).2 e h)⟩

end Equivalent

/-! ## Steps and exits -/

/-- Where a run ends there is no further step. -/
theorem Control.next_eq_none_of_ending {program : List (Block σ ε)} {oracle : Oracle σ ε}
    {c : Control σ ε} {e : Ending} (h : c.ending = some e) : c.next program oracle = none := by
  obtain ⟨ahead, history⟩ := c
  match ahead with
  | [] => rfl
  | ⟨_, [], exit⟩ :: _ => cases exit <;> simp_all [Control.ending, Control.next, Exit.leave]
  | ⟨_, _ :: _, _⟩ :: _ => simp [Control.ending] at h

/-- An exit only leads to labels that it names. -/
theorem Exit.mem_targets_of_leave {oracle : Oracle σ ε} {history history' : History σ ε}
    {exit : Exit ε} {target : String}
    (h : exit.leave oracle history = some (some target, history')) : target ∈ exit.targets := by
  cases exit with
  | fallThrough | ret | abort => simp [leave] at h
  | jump t => simp_all [leave, targets]
  | branch condition t =>
    simp only [leave, Option.some.injEq, Prod.mk.injEq] at h
    obtain ⟨h, -⟩ := h
    split at h <;> simp_all [targets]
  | switch scrutinee cases default =>
    simp only [leave, chosenTarget, Option.some.injEq, Prod.mk.injEq] at h
    obtain ⟨h, -⟩ := h
    cases hc : cases[oracle.arm (history ++ [.test scrutinee])]? with
    | none => simp_all [targets]
    | some c =>
      have := List.mem_of_getElem? hc
      simp only [hc, Option.map_some, Option.getD_some] at h
      subst h
      exact List.mem_append_left _ (List.mem_map_of_mem this)

/-- An exit that leads to the next block is one that may fall through. -/
theorem Exit.fallsThrough_of_leave {oracle : Oracle σ ε} {history history' : History σ ε}
    {exit : Exit ε} (h : exit.leave oracle history = some (none, history')) :
    exit.fallsThrough = true := by
  cases exit <;> simp_all [leave, fallsThrough]

/-- Replacing the labels of an exit replaces the label that it leads to, and changes nothing
else. -/
theorem Exit.leave_mapTargets (f : String → String) (oracle : Oracle σ ε) (history : History σ ε)
    (exit : Exit ε) :
    (exit.mapTargets f).leave oracle history =
      (exit.leave oracle history).map fun place => (place.1.map f, place.2) := by
  cases exit with
  | fallThrough | jump | ret | abort => rfl
  | branch condition t =>
    simp only [mapTargets, leave, Option.map_some, Option.some.injEq, Prod.mk.injEq, and_true]
    split <;> rfl
  | switch scrutinee cases default =>
    simp only [mapTargets, leave, chosenTarget, Option.map_some, List.getElem?_map]
    cases cases[oracle.arm (history ++ [.test scrutinee])]? <;> rfl

/-! ## Equivalence by simulation -/

/-- Both exits end the run alike, or lead on with the same events to places that are related. -/
def ExitsMatch (R : List (Block σ ε) → List (Block σ ε) → Prop)
    (program program' : List (Block σ ε)) (exit exit' : Exit ε) (later later' : List (Block σ ε)) :
    Prop :=
  ∀ (oracle : Oracle σ ε) (history : History σ ε),
    match exit.leave oracle history with
    | none => exit' = exit
    | some (place, after) => ∃ place', exit'.leave oracle history = some (place', after) ∧
        R (resume program later place) (resume program' later' place')

/-- `R n` relates what is ahead in runs of two programs, at rank `n`. Statements and exits match
one by one, but the first program may leave blocks silently while the second stays, as long as the
rank falls. -/
structure PassSimulation (program program' : List (Block σ ε))
    (R : Nat → List (Block σ ε) → List (Block σ ε) → Prop) : Prop where
  start : ∃ n, R n program program'
  nil : ∀ {n ahead'}, R n [] ahead' → ahead' = []
  statement : ∀ {n label s rest exit later ahead'},
    R n (⟨label, s :: rest, exit⟩ :: later) ahead' →
    ∃ m label' rest' exit' later', ahead' = ⟨label', s :: rest', exit'⟩ :: later' ∧
      R m (⟨label, rest, exit⟩ :: later) (⟨label', rest', exit'⟩ :: later')
  exit : ∀ {n label exit later ahead'}, R n (⟨label, [], exit⟩ :: later) ahead' →
    (∃ label' exit' later', ahead' = ⟨label', [], exit'⟩ :: later' ∧
      ExitsMatch (fun c c' => ∃ m, R m c c') program program' exit exit' later later') ∨
    ∃ place, (∀ (oracle : Oracle σ ε) (history : History σ ε), exit.leave oracle history =
      some (place, history)) ∧
      ∃ m < n, R m (resume program later place) ahead'

namespace PassSimulation

variable {program program' : List (Block σ ε)}
  {R : Nat → List (Block σ ε) → List (Block σ ε) → Prop}

/-- The relation between places: related blocks ahead, after the same history. -/
def Related (R : Nat → List (Block σ ε) → List (Block σ ε) → Prop) (n : Nat) (s t : Control σ ε) :
    Prop :=
  R n s.ahead t.ahead ∧ s.history = t.history

/-- Every step of the first machine is matched, or lowers the rank. -/
theorem step (h : PassSimulation program program' R) {oracle : Oracle σ ε} {n : Nat}
    {s t s' : Control σ ε} (hst : Related R n s t) (hs : s.next program oracle = some s') :
    (∃ m t', t.next program' oracle = some t' ∧ Related R m s' t') ∨ ∃ m < n,
    Related R m s' t := by
  obtain ⟨ahead, history⟩ := s
  obtain ⟨ahead', history'⟩ := t
  obtain ⟨hR, hh⟩ := hst
  dsimp only at hR hh
  subst hh
  match ahead with
  | [] => simp [Control.next] at hs
  | ⟨label, st :: rest, exit⟩ :: later =>
    simp only [Control.next, Option.some.injEq] at hs
    subst hs
    obtain ⟨m, label', rest', exit', later', rfl, hR'⟩ := h.statement hR
    exact .inl ⟨m, _, rfl, hR', rfl⟩
  | ⟨label, [], exit⟩ :: later =>
    simp only [Control.next, Option.map_eq_some_iff] at hs
    obtain ⟨⟨place, after⟩, hleave, rfl⟩ := hs
    rcases h.exit hR with ⟨label', exit', later', rfl, hmatch⟩ | ⟨place', hsilent, m, hm, hR'⟩
    · have := hmatch oracle history
      rw [hleave] at this
      obtain ⟨place', hleave', m, hR'⟩ := this
      refine .inl ⟨m, ⟨resume program' later' place', after⟩, ?_, hR', rfl⟩
      simp only [Control.next, hleave', Option.map_some]
    · rw [hsilent oracle history] at hleave
      cases hleave
      exact .inr ⟨m, hm, hR', rfl⟩

/-- Where the first machine stops the second stops too, and both end alike. -/
theorem stop (h : PassSimulation program program' R) {oracle : Oracle σ ε} {n : Nat}
    {s t : Control σ ε} (hst : Related R n s t) (hs : s.next program oracle = none) :
    t.next program' oracle = none ∧ s.ending = t.ending := by
  obtain ⟨ahead, history⟩ := s
  obtain ⟨ahead', history'⟩ := t
  obtain ⟨hR, hh⟩ := hst
  dsimp only at hR hh
  subst hh
  match ahead with
  | [] => rw [h.nil hR]; exact ⟨rfl, rfl⟩
  | ⟨label, st :: rest, exit⟩ :: later => simp [Control.next] at hs
  | ⟨label, [], exit⟩ :: later =>
    simp only [Control.next, Option.map_eq_none_iff] at hs
    rcases h.exit hR with ⟨label', exit', later', rfl, hmatch⟩ | ⟨place, hsilent, -⟩
    · have := hmatch oracle history
      rw [hs] at this
      subst this
      refine ⟨by simp only [Control.next, hs, Option.map_none], ?_⟩
      cases exit' <;> rfl
    · rw [hsilent oracle history] at hs
      cases hs

/-- A simulation by blocks is one by the steps of a run, whatever the oracle. -/
theorem rankedSimulation (h : PassSimulation program program' R) (oracle : Oracle σ ε) :
    RankedSimulation (Control.next program oracle) (Control.next program' oracle) (Related R) :=
  ⟨h.step, fun hst hs => (h.stop hst hs).1⟩

/-- Programs whose machines are related in this way behave alike. -/
theorem equivalent (h : PassSimulation program program' R) : Equivalent program program' := by
  obtain ⟨n, hn⟩ := h.start
  have hstart : Related R n (.start program) (.start program') := ⟨hn, rfl⟩
  intro oracle
  have hsim := h.rankedSimulation oracle
  refine ⟨fun history => ⟨?_, ?_⟩, fun ending history => ⟨?_, ?_⟩⟩
  · rintro ⟨s, hs, rfl⟩
    obtain ⟨m, t, ht, hst⟩ := hsim.forward hstart hs
    exact ⟨t, ht, hst.2.symm⟩
  · rintro ⟨t, ht, rfl⟩
    obtain ⟨m, s, hs, hst⟩ := hsim.backward hstart ht
    exact ⟨s, hs, hst.2⟩
  · rintro ⟨s, hs, rfl, he⟩
    obtain ⟨m, t, ht, hst⟩ := hsim.forward hstart hs
    have hnone : s.next program oracle = none := Control.next_eq_none_of_ending he
    exact ⟨t, ht, hst.2.symm, (h.stop hst hnone).2 ▸ he⟩
  · rintro ⟨t, ht, rfl, he⟩
    obtain ⟨m, s, hs, hst⟩ := hsim.backward hstart ht
    obtain ⟨k, s', hs', hnone, hst'⟩ := hsim.settle hst (Control.next_eq_none_of_ending he)
    exact ⟨s', hs.trans hs', hst'.2, (h.stop hst' hnone).2.trans he⟩

end PassSimulation
end StackToGo.Go
