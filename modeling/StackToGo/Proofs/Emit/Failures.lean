import StackToGo.Proofs.Emit.Evolution
import StackToGo.Proofs.Routine.Order

/-!
# How generation fails

An error that arises while an object is written has the name of the object, and a bare error
inside. After the objects come the texts of the routines, and there nothing gives an error a name.
In a grounded state each routine was cleared when it was asked for, so only the routines that are
never checked can fail there (`failures_named_or_unchecked`).
-/

namespace StackToGo

/-- Clean-up fails only with a fault in the blocks of a function, which it names. -/
theorem Go.exists_of_simplifyItems_eq_error {σ ε : Type} {report : Report}
    {items : List (Item σ ε)} {e : Error} (h : simplifyItems report items = .error e) :
    ∃ function fault, e = .blocks (some function) fault := by
  fun_induction simplifyItems report items with
  | case1 => cases h
  | case2 report f rest fault hfault =>
    cases h
    exact ⟨f.name, fault, rfl⟩
  | case3 report f rest report' f' hf ih =>
    rcases bind_eq_error_iff.1 h with h | ⟨_, -, h⟩
    · exact ih h
    · cases h
  | case4 report item rest hitem ih =>
    rcases bind_eq_error_iff.1 h with h | ⟨_, -, h⟩
    · exact ih h
    · cases h

namespace Emit

open StackToGo.Action
open StackToGo.TypeText (Settled Expands)

section

variable {α β : Type} {env : Env} {s s' : State}

/-! ## Steps that fail -/

/-- The step fails on the state `s`. -/
def Fails (env : Env) (m : Emit α) (s : State) (e : Error) : Prop :=
  ((m env).perform s).1 = .error e

/-- A sequence fails in its first step, or in the second after a result of the first. -/
theorem fails_bind {m : Emit α} {k : α → Emit β} {e : Error} :
    Fails env (m >>= k) s e ↔ Fails env m s e ∨ ∃ a s₁, Yields env m s a s₁ ∧
    Fails env (k a) s₁ e := by
  show (perform (m env >>= fun a => k a env) s).1 = .error e ↔ _
  rw [perform_bind]
  unfold Fails Yields
  cases perform (m env) s with
  | mk r s₁ => cases r <;> simp

/-- A result from outside fails just if it is a failure. -/
theorem fails_lift {r : Except Error α} {e : Error} :
    Fails env (liftM r : Emit α) s e ↔ r = .error e := by
  cases r <;> exact Iff.rfl

/-! ## Grounded states -/

/-- The Go types so far are right, and all routines that were asked for were cleared. -/
structure Grounded (env : Env) (s : State) : Prop where
  settled : Settled env.program.types env.target s.typeText
  cleared : ∀ key ∈ s.needs.requests, Cleared env key.1 key.2

/-- Nothing is asked for at the start. -/
theorem grounded_start (env : Env) : Grounded env (.start env.target) where
  settled := TypeText.settled_empty
  cleared key hkey := by cases hkey

/-- Only Go types and routines matter. -/
theorem Grounded.of_eq (hs : Grounded env s) (htypeText : s'.typeText = s.typeText)
    (hneeds : s'.needs = s.needs) : Grounded env s' :=
  ⟨htypeText ▸ hs.settled, hneeds ▸ hs.cleared⟩

/-- From a grounded state the step leads to a grounded state, and if it fails its error is bare. -/
def Careful (env : Env) (m : Emit α) : Prop :=
  ∀ s, Grounded env s → Grounded env ((m env).perform s).2 ∧ FailsBare ((m env).perform s).1

/-- What follows from the result of the first step may be used by the second. -/
theorem careful_bind {m : Emit α} {k : α → Emit β} (hm : Careful env m)
    (hk : ∀ s a s', Grounded env s → Yields env m s a s' → Careful env (k a)) :
    Careful env (m >>= k) := by
  intro s hs
  show Grounded env (perform (m env >>= fun a => k a env) s).2 ∧
      FailsBare (perform (m env >>= fun a => k a env) s).1
  obtain ⟨hgrounded, hbare⟩ := hm s hs
  rw [perform_bind]
  cases hrun : perform (m env) s with
  | mk r s₁ =>
    rw [hrun] at hgrounded hbare
    cases r with
    | error e => exact ⟨hgrounded, failsBare_error.2 (hbare e rfl)⟩
    | ok a => exact hk s a s₁ hs hrun s₁ hgrounded

/-- Asking for a routine that was cleared is careful. -/
theorem careful_require {family : Routine.Family} {id : TypeId} (h : Cleared env family id) :
    Careful env (require family id) := by
  refine fun s hs => ⟨⟨hs.settled, fun key hkey => ?_⟩, failsBare_ok _⟩
  rcases Routine.Needs.mem_require.1 hkey with hkey | ⟨hfamily, hid⟩
  · exact hs.cleared key hkey
  · rwa [hfamily, hid]

/-- Looking up a package is careful. -/
theorem careful_package? (index : Nat) : Careful env (package? index) := by
  intro s hs
  obtain ⟨packages, asked, hframe⟩ := package?_frame env s index
  rw [hframe]
  refine ⟨hs.of_eq rfl rfl, ?_⟩
  rw [perform_package?]
  split <;> simp

/-- What is put together from small steps is careful, if what it may ask for is cleared. -/
theorem Composed.careful {may : Permit} {m : Emit α} (h : Composed may m)
    (hmay : ∀ family id, may family id → Cleared env family id) : Careful env m := by
  induction h with
  | pure a => exact fun s hs => ⟨hs, failsBare_ok a⟩
  | throw h => exact fun s hs => ⟨hs, failsBare_error.2 h⟩
  | @lift _ _ r h =>
    intro s hs
    cases r with
    | ok a => exact ⟨hs, failsBare_ok a⟩
    | error e => exact ⟨hs, h⟩
  | read => exact fun s hs => ⟨hs, failsBare_ok env⟩
  | get => exact fun s hs => ⟨hs, failsBare_ok s⟩
  | bind _ _ ihm ihk =>
    refine careful_bind (ihm hmay) fun s a s' hs hyields => ihk a fun family id hclears => ?_
    exact hclears.elim (hmay family id) fun hclears => hclears env s s' hs.settled hyields
  | goType id =>
    intro s hs
    obtain ⟨hresult, hsettled⟩ := TypeText.computes_goType id s.typeText hs.settled
    refine ⟨⟨hsettled, hs.cleared⟩, ?_⟩
    show FailsBare ((TypeText.goType env.program.types env.target id).perform s.typeText).1
    rw [hresult]
    exact TypeText.failsBare_expansion _ _ _ _ _
  | sizeOf id =>
    intro s hs
    obtain ⟨hresult, hsettled⟩ := TypeText.computes_sizeOf [] id s.typeText hs.settled
    refine ⟨⟨hsettled, hs.cleared⟩, ?_⟩
    show FailsBare ((TypeText.sizeOf env.program.types env.target id).perform s.typeText).1
    rw [hresult]
    exact TypeTable.failsBare_sizeOf _ _ _
  | identifier name exported scope =>
    exact fun s hs => ⟨hs.of_eq rfl rfl, Identifier.failsBare_identifier env.dict _ s.identifiers⟩
  | stringOffset id =>
    exact fun s hs => ⟨hs.of_eq rfl rfl, StringPool.failsBare_offset env.dict id s.strings⟩
  | require h => exact careful_require (h.elim (hmay _ _) fun h => h env)
  | package? index => exact careful_package? index
  | addItem item => exact fun s hs => ⟨hs.of_eq rfl rfl, failsBare_ok ()⟩
  | note e => exact fun s hs => ⟨hs.of_eq rfl rfl, failsBare_ok ()⟩
  | inCompound _ ih =>
    intro s hs
    obtain ⟨hgrounded, hbare⟩ :=
      ih hmay { s with compoundDepth := s.compoundDepth + 1 } (hs.of_eq rfl rfl)
    exact ⟨hgrounded.of_eq rfl rfl, hbare⟩

/-- What is composed without changing the depth of compound assignments is careful. -/
theorem careful_of_composed {m : Emit α} (h : Composed (fun _ _ => False) m) : Careful env m :=
  h.careful fun _ _ => False.elim

/-! ## Objects -/

/-- The error has the name of one of the objects, and a bare error inside. -/
def NamesObject (env : Env) (objects : List Object) (e : Error) : Prop :=
  ∃ o ∈ objects, ∃ source : Error, source.IsBare ∧
    e = .inObject (env.dict.displayName o.name) source

/-- An error that a careful step fails with is bare, and is then given the name. -/
theorem Careful.inObject {m : Emit α} (hm : Careful env m) (hs : Grounded env s) (name : String) :
    Grounded env (((m env).mapError (.inObject name)).perform s).2 ∧
      ∀ e, (((m env).mapError (.inObject name)).perform s).1 = .error e →
        ∃ source : Error, source.IsBare ∧ e = .inObject name source := by
  obtain ⟨hgrounded, hbare⟩ := hm s hs
  rw [perform_mapError]
  refine ⟨hgrounded, fun e he => ?_⟩
  cases hrun : (perform (m env) s).1 with
  | ok a =>
    rw [hrun] at he
    cases he
  | error source =>
    rw [hrun] at he hbare
    cases he
    exact ⟨source, hbare source rfl, rfl⟩

/-- The definition of an object is careful, and its errors have the name of the object. -/
theorem grounded_objectDefinition (hs : Grounded env s) (index : Nat) (o : Object) :
    Grounded env ((objectDefinition index o env).perform s).2 ∧
      ∀ e, Fails env (objectDefinition index o) s e →
        ∃ source : Error, source.IsBare ∧ e = .inObject (env.dict.displayName o.name) source := by
  have hnoted :
      Grounded env ((note (.object index (env.dict.displayName o.name)) env).perform s).2 :=
    hs.of_eq rfl rfl
  cases o with
  | function definition =>
    exact (careful_of_composed (composed_functionDefinition index definition)).inObject hnoted _
  | data definition =>
    exact (careful_of_composed (composed_dataDefinition definition)).inObject hnoted _

/-- Each object is written in a grounded state, so the first error has the name of its object. -/
theorem grounded_objectDefinitions (hs : Grounded env s) (index : Nat) (objects : List Object) :
    (∀ s', Yields env (objectDefinitions index objects) s () s' → Grounded env s') ∧
      ∀ e, Fails env (objectDefinitions index objects) s e → NamesObject env objects e := by
  induction objects generalizing index s with
  | nil => exact ⟨fun s' h => (yields_pure.1 h).2 ▸ hs, fun e he => by cases he⟩
  | cons o rest ih =>
    obtain ⟨hgrounded, herror⟩ := grounded_objectDefinition hs index o
    have hrest {s₁ : State} (h : Yields env (objectDefinition index o) s () s₁) :
        Grounded env s₁ := by
      rwa [h] at hgrounded
    refine ⟨fun s' h => ?_, fun e h => ?_⟩
    · obtain ⟨⟨⟩, s₁, hfirst, h⟩ := yields_bind.1 h
      exact (ih (hrest hfirst) (index + 1)).1 s' h
    · rcases fails_bind.1 h with h | ⟨⟨⟩, s₁, hfirst, h⟩
      · obtain ⟨source, hbare, he⟩ := herror e h
        exact ⟨o, List.mem_cons_self, source, hbare, he⟩
      · obtain ⟨o', ho', he⟩ := (ih (hrest hfirst) (index + 1)).2 e h
        exact ⟨o', List.mem_cons_of_mem o ho', he⟩

/-! ## Files -/

/-- All objects are written, and leave this state. -/
def Completes (env : Env) (s : State) : Prop :=
  Yields env (objectDefinitions 0 env.program.objects) (.start env.target) () s

/-- The state after all objects is grounded. -/
theorem Completes.grounded (h : Completes env s) : Grounded env s :=
  (grounded_objectDefinitions (grounded_start env) 0 env.program.objects).1 s h

/-- A file fails in its blocks, in one of its objects or, after all of these, in a routine. -/
theorem exists_of_fails_fileText {e : Error} (h : Fails env fileText (.start env.target) e) :
    (∃ function fault, e = .blocks (some function) fault) ∨ NamesObject env env.program.objects e ∨
      ∃ s, Completes env s ∧ Fails env routineTexts s e := by
  rcases fails_bind.1 h with h | ⟨items, s, -, h⟩
  · rcases fails_bind.1 h with h | ⟨_, s₀, hread, h⟩
    · cases h
    obtain ⟨rfl, rfl⟩ := yields_read.1 hread
    rcases fails_bind.1 h with h | ⟨⟨⟩, s, hobjects, h⟩
    · exact .inr (.inl ((grounded_objectDefinitions (grounded_start env) 0 _).2 e h))
    rcases fails_bind.1 h with h | ⟨routines, s₁, -, h⟩
    · exact .inr (.inr ⟨s, hobjects, h⟩)
    -- Behind the texts nothing fails.
    cases h
  · rcases fails_bind.1 h with h | ⟨cleaned, s₁, -, h⟩
    · exact .inl (Go.exists_of_simplifyItems_eq_error (fails_lift.1 h))
    · cases h

/-- The error that generation fails with is the answer, unless it ends the process. -/
theorem answer_of_fails {e : Error} (h : Fails env fileText (.start env.target) e) :
    (generate env).answer = if env.options.panicOnError then .panic e.message else .error e := by
  unfold generate
  rcases hrun : (fileText env).perform (.start env.target) with ⟨result, s⟩
  have hresult : result = .error e := by rwa [Fails, hrun] at h
  rw [hresult]

/-- An error that is answered is that of the file. -/
theorem fails_of_answer {e : Error} (h : (generate env).answer = .error e) :
    Fails env fileText (.start env.target) e := by
  cases hrun : ((fileText env).perform (.start env.target)).1 with
  | ok text =>
    rw [generate] at h
    rcases hs : (fileText env).perform (.start env.target) with ⟨result, s⟩
    rw [hs] at h hrun
    cases hrun
    cases h
  | error e' =>
    rw [answer_of_fails hrun] at h
    split at h
    · cases h
    · cases h
      exact hrun

/-- What fails behind the objects is an error of the file as it is. -/
theorem Completes.fails_fileText (hs : Completes env s) {e : Error}
    (h : Fails env routineTexts s e) : Fails env fileText (.start env.target) e := by
  refine fails_bind.2 (.inl (fails_bind.2 (.inr ⟨env, _, yields_read.2 ⟨rfl, rfl⟩, ?_⟩)))
  exact fails_bind.2 (.inr ⟨(), s, hs, fails_bind.2 (.inl h)⟩)

/-- If the texts of the routines fail, it is with the error of a type that was not checked. -/
theorem Grounded.fails_routineTexts (hs : Grounded env s) {e : Error}
    (h : Fails env routineTexts s e) :
    ∃ family id, (family, id) ∈ s.needs.requests ∧ Unchecked env family id ∧ e.IsBare ∧
      ((TypeText.goType env.program.types env.target id).perform .empty).1 = .error e := by
  obtain ⟨r, hr, herror⟩ := Routine.computes_texts env.program.types env.target s.needs
  have hfails : r = .error e := (hr s.typeText hs.settled).1.symm.trans h
  obtain ⟨⟨family, id⟩, hkey, he⟩ := herror e hfails
  refine ⟨family, id, hkey, ?_, TypeText.failsBare_expansion _ _ _ _ _ e he, ?_⟩
  · refine (hs.cleared _ hkey).resolve_right fun ⟨t, ht⟩ => ?_
    rw [(TypeText.expansion_eq_ok_iff trail_nil (by simp)).2 ht] at he
    cases he
  · rw [(TypeText.computes_goType id .empty TypeText.settled_empty).1, he]

/-- The routines are written just if all of their types have a Go type. -/
theorem Grounded.exists_routineTexts_iff (hs : Grounded env s) :
    (∃ list s', Yields env routineTexts s list s') ↔
      ∀ key ∈ s.needs.requests, ∃ t, Expands env.program.types env.target key.2 t := by
  rw [← Routine.exists_texts_iff hs.settled]
  exact exists_congr fun list => ⟨fun ⟨s', h⟩ => congrArg Prod.fst h, fun h => ⟨_, Prod.ext h rfl⟩⟩

end

/-- If generation fails, the error is a fault of the blocks of a function, or has the name of an
object and a bare error inside, or else all objects were written and the error is that of the Go
type of a routine that was not checked. After all objects, the texts of the routines can be written
if the types of these routines have Go types, and only then; all other routines that were asked for
are for types that have one. If the texts fail, generation ends with their error as it is. -/
theorem failures_named_or_unchecked (env : Env) :
    (∀ e, (generate env).answer = .error e →
      (∃ function fault, e = .blocks (some function) fault) ∨
      NamesObject env env.program.objects e ∨
      ∃ s family id, Completes env s ∧ (family, id) ∈ s.needs.requests ∧
        Unchecked env family id ∧ e.IsBare ∧
        ((TypeText.goType env.program.types env.target id).perform .empty).1 = .error e) ∧
    ∀ s, Completes env s →
      (∀ family id, (family, id) ∈ s.needs.requests → ¬Unchecked env family id →
        ∃ t, Expands env.program.types env.target id t) ∧
      ((∃ list s', Yields env routineTexts s list s') ↔
        ∀ family id, (family, id) ∈ s.needs.requests → Unchecked env family id →
          ∃ t, Expands env.program.types env.target id t) ∧
      ∀ e, Fails env routineTexts s e →
        (generate env).answer =
          if env.options.panicOnError then .panic e.message else .error e := by
  refine ⟨fun e he => ?_, fun s hs => ?_⟩
  · rcases exists_of_fails_fileText (fails_of_answer he) with hblocks | hnames | ⟨s, hs, hfails⟩
    · exact .inl hblocks
    · exact .inr (.inl hnames)
    · obtain ⟨family, id, hkey, hunchecked, hbare, herror⟩ := hs.grounded.fails_routineTexts hfails
      exact .inr (.inr ⟨s, family, id, hs, hkey, hunchecked, hbare, herror⟩)
  · have hgrounded := hs.grounded
    have hothers (family : Routine.Family) (id : TypeId) (hkey : (family, id) ∈ s.needs.requests)
        (hunchecked : ¬Unchecked env family id) : ∃ t, Expands env.program.types env.target id t :=
      (hgrounded.cleared _ hkey).resolve_left hunchecked
    refine ⟨hothers, ?_, fun e he => answer_of_fails (hs.fails_fileText he)⟩
    rw [hgrounded.exists_routineTexts_iff]
    constructor
    · exact fun h family id hkey _ => h (family, id) hkey
    · rintro h ⟨family, id⟩ hkey
      by_cases hunchecked : Unchecked env family id
      · exact h family id hkey hunchecked
      · exact hothers family id hkey hunchecked

/-- A struct with a pointer to itself is copied, through pointers that are null. -/
def selfCopy : Env where
  dict := .ofList [[0x66]]
  program := ⟨TypeTable.empty.internEach [.function [] [] false, .struct [⟨16⟩], .pointer ⟨15⟩],
    [.function
      { name := ⟨1⟩, linkage := .unexported, type := ⟨14⟩, position := .unknown, arguments := []
        body := [.beginScope, .null ⟨16⟩, .null ⟨16⟩, .copy ⟨15⟩, .drop ⟨16⟩, .ret, .endScope].map
          (⟨·, .unknown⟩) }]⟩
  target := ⟨8, false⟩
  options := {}
  qualifier := fun _ _ => ""

/-- All objects of the program are written, and yet its error names none of them. -/
theorem selfCopy_unnamed :
    (∃ s, Completes selfCopy s) ∧
      (generate selfCopy).answer = .error (.unsupported .unknown (.recursiveType ⟨15⟩)) := by
  obtain ⟨s, hs, hneeds⟩ : ∃ s, Completes selfCopy s ∧ s.needs.requests = [(.copy, ⟨15⟩)] :=
    ⟨_, rfl, rfl⟩
  refine ⟨⟨s, hs⟩, answer_of_fails (hs.fails_fileText ?_)⟩
  cases hresult : ((routineTexts selfCopy).perform s).1 with
  | ok list =>
    have htypes := hs.grounded.exists_routineTexts_iff.1 ⟨list, _, Prod.ext hresult rfl⟩
    obtain ⟨t, ht⟩ := htypes (.copy, ⟨15⟩) (by rw [hneeds]; exact List.mem_singleton_self _)
    cases TypeText.signature_eq_ok_iff.2 ⟨t, ht, rfl⟩
  | error e =>
    obtain ⟨family, id, hkey, -, -, he⟩ := hs.grounded.fails_routineTexts hresult
    rw [hneeds, List.mem_singleton] at hkey
    cases hkey
    cases he
    exact hresult

end Emit

end StackToGo
