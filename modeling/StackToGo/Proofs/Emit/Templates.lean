import StackToGo.Proofs.Emit.Determined
import StackToGo.Proofs.Emit.Scene

/-!
# Texts with holes

The text of a tree is put together from the texts of its operands, with fixed texts between them.
The fixed texts are a template with one hole per operand (`Template`).

`Spells` says of a family of steps that all of them write the operands that they are given, one
after the other, and put their texts into the holes of one template. The template may depend on
names, but not on what is put into the holes: it is the same for the whole family. There is one
rule per way to put steps together, so a template need not be written down.
-/

namespace StackToGo

/-! ## Templates -/

/-- A part of a text: fixed, or to be filled in. -/
inductive Piece where
  | text (t : String)
  | hole

/-- A text with holes. -/
abbrev Template := List Piece

namespace Template

def holes : Template → Nat
  | [] => 0
  | .text _ :: rest => holes rest
  | .hole :: rest => holes rest + 1

/-- The template with texts in its holes, from the left to the right. -/
def fill : Template → List String → String
  | [], _ => ""
  | .text t :: rest, texts => t ++ fill rest texts
  | .hole :: rest, [] => fill rest []
  | .hole :: rest, t :: texts => t ++ fill rest texts

variable {a b : Template} {texts more : List String} {t : String}

@[simp] theorem holes_nil : holes [] = 0 := rfl

@[simp] theorem holes_text : holes (.text t :: a) = holes a := rfl

@[simp] theorem holes_hole : holes (.hole :: a) = holes a + 1 := rfl

@[simp] theorem fill_nil : fill [] texts = "" := rfl

@[simp] theorem fill_text : fill (.text t :: a) texts = t ++ fill a texts := rfl

@[simp] theorem fill_hole : fill (.hole :: a) (t :: texts) = t ++ fill a texts := rfl

/-- Two templates in a row have the holes of both. -/
@[simp] theorem holes_append : holes (a ++ b) = holes a + holes b := by
  induction a with
  | nil => simp
  | cons piece a ih => cases piece <;> simp [ih, Nat.add_right_comm]

/-- Two templates in a row are filled from the left to the right. -/
theorem fill_append (h : holes a = texts.length) :
    fill (a ++ b) (texts ++ more) = fill a texts ++ fill b more := by
  induction a generalizing texts with
  | nil =>
    cases texts with
    | nil => simp
    | cons => cases h
  | cons piece a ih =>
    cases piece with
    | text t => simpa [String.append_assoc] using ih h
    | hole =>
      cases texts with
      | nil => cases h
      | cons first texts => simpa [String.append_assoc] using ih (Nat.succ.inj h)

/-- Fixed text behind a template. -/
theorem fill_concat (h : holes a = texts.length) :
    fill (a ++ [.text t]) texts = fill a texts ++ t := by
  have happend : fill (a ++ [.text t]) (texts ++ []) = fill a texts ++ fill [.text t] [] :=
    fill_append h
  simpa using happend

end Template

/-- The texts of a family have one template, which is filled with the texts `done`. -/
def Fills {C : Type} (text : C → String) (done : C → List String) : Prop :=
  ∃ template : Template, ∀ c, template.holes = (done c).length ∧ text c = template.fill (done c)

section

variable {C : Type} {text text' : C → String} {done done' : C → List String}

/-- A fixed text has no holes. -/
theorem fills_text (t : String) : Fills (fun _ : C => t) fun _ => [] :=
  ⟨[.text t], fun _ => ⟨rfl, by simp⟩⟩

/-- A text of its own is a hole. -/
theorem fills_hole (text : C → String) : Fills text fun c => [text c] :=
  ⟨[.hole], fun _ => ⟨rfl, by simp⟩⟩

/-- Two texts in a row have the holes of both. -/
theorem Fills.append (h : Fills text done) (h' : Fills text' done') :
    Fills (fun c => text c ++ text' c) fun c => done c ++ done' c := by
  obtain ⟨template, htemplate⟩ := h
  obtain ⟨template', htemplate'⟩ := h'
  refine ⟨template ++ template', fun c => ⟨by simp [(htemplate c).1, (htemplate' c).1], ?_⟩⟩
  rw [Template.fill_append (htemplate c).1, ← (htemplate c).2, ← (htemplate' c).2]

/-- The same texts have the same template. -/
theorem Fills.congr (h : Fills text' done) (heq : ∀ c, text c = text' c) : Fills text done :=
  (funext heq : text = text') ▸ h

/-- Fixed text before a text. -/
theorem Fills.behind (h : Fills text done) (t : String) : Fills (fun c => t ++ text c) done :=
  (fills_text t).append h

/-- Fixed text behind a text. -/
theorem Fills.before (h : Fills text done) (t : String) : Fills (fun c => text c ++ t) done := by
  have happend := h.append (fills_text t)
  simp only [List.append_nil] at happend
  exact happend

end

namespace Emit

open StackToGo.Go
open StackToGo.TypeText (Expands)

/-! ## Runs of steps one after the other -/

section

variable {env : Env} {ι α : Type} {m : ι → Emit α} {s s' s'' : State} {is : List ι} {as : List α}

/-- From the state `s` to `s'` the steps are run in order, with the given results. In between names
are kept. -/
inductive Runs (env : Env) (m : ι → Emit α) : State → List ι → List α → State → Prop
  | nil {s s' : State} (h : Keeps s s') : Runs env m s [] [] s'
  | cons {s s₁ s₂ s' : State} {i : ι} {is : List ι} {a : α} {as : List α} (hkeeps : Keeps s s₁)
      (hs₁ : Faithful env s₁) (h : Yields env (m i) s₁ a s₂) (hrest : Runs env m s₂ is as s') :
      Runs env m s (i :: is) (a :: as) s'

/-- The steps may start later, if names are kept until then. -/
theorem Runs.after (hkeeps : Keeps s s') (h : Runs env m s' is as s'') :
    Runs env m s is as s'' := by
  cases h with
  | nil h => exact .nil (hkeeps.trans h)
  | cons hkeeps' hs₁ h hrest => exact .cons (hkeeps.trans hkeeps') hs₁ h hrest

/-- Steady steps one after the other keep what was given out. -/
theorem Runs.keeps (hsteady : ∀ i, Steady (m i)) (h : Runs env m s is as s') : Keeps s s' := by
  induction h with
  | nil h => exact h
  | cons hkeeps _ h _ ih => exact (hkeeps.trans ((hsteady _).keeps h)).trans ih

end

/-- The codes of parts of a tree, written one after the other. -/
abbrev Codes (env : Env) (f : Frame) : State → List (Use × Tree) → List Expr → State → Prop :=
  Runs env fun part : Use × Tree => expr f part.1 part.2

/-- Codes that are written keep what was given out. -/
theorem Codes.keeps {env : Env} {f : Frame} {s s' : State} {parts : List (Use × Tree)}
    {codes : List Expr} (h : Codes env f s parts codes s') : Keeps s s' :=
  Runs.keeps (fun part : Use × Tree => steady_expr f part.1 part.2) h

/-! ## Families of steps with one template -/

/-- The steps of the family write the given parts, one after the other, and give a text with the
same template for all of them, if the names are those of the state `final`. The first holes are for
the texts `done`, the others for the parts. -/
def Spells (env : Env) (final : State) (f : Frame) {C α : Type} (text : α → String)
    (done : C → List String) (parts : C → List (Use × Tree)) (m : C → Emit α) : Prop :=
  ∃ template : Template, ∀ c s a s', Faithful env s → Keeps s' final → Yields env (m c) s a s' →
    ∃ codes, Codes env f s (parts c) codes s' ∧ template.holes = (done c).length + codes.length ∧
      text a = template.fill (done c ++ codes.map Expr.text)

section

variable {env : Env} {final : State} {f : Frame} {C α β : Type} {text : α → String}
  {done : C → List String} {parts : C → List (Use × Tree)}

/-- A result whose texts have a template. -/
theorem spells_pure {a : C → α} (h : Fills (fun c => text (a c)) done) :
    Spells env final f text done (fun _ => []) fun c => pure (a c) := by
  obtain ⟨template, htemplate⟩ := h
  refine ⟨template, fun c s b s' _ _ h => ?_⟩
  obtain ⟨rfl, rfl⟩ := yields_pure.1 h
  exact ⟨[], .nil (Keeps.refl s), (htemplate c).1, by simpa using (htemplate c).2⟩

/-- A failure because of what is not supported writes nothing. -/
theorem spells_unsupported (position : C → Position) (cause : C → Unsupported) :
    Spells env final f text done parts fun c => (unsupported (position c) (cause c) : Emit α) :=
  ⟨[], fun _ _ _ _ _ _ h => absurd h not_yields_unsupported⟩

/-- A failure because of a breach writes nothing. -/
theorem spells_breach (cause : Breach) :
    Spells env final f text done parts fun _ => (breach cause : Emit α) :=
  ⟨[], fun _ _ _ _ _ _ h => absurd h not_yields_breach⟩

/-- A branch writes what both of its sides write. -/
theorem spells_ite {p : Prop} {_ : Decidable p} {m m' : C → Emit α}
    (h : Spells env final f text done parts m) (h' : Spells env final f text done parts m') :
    Spells env final f text done parts fun c => if p then m c else m' c := by
  split
  · exact h
  · exact h'

/-- A condition that differs between the members of the family may only decide whether they
fail. -/
theorem spells_guard {p : C → Prop} {_ : ∀ c, Decidable (p c)} {m : C → Emit α}
    (position : C → Position) (cause : C → Unsupported)
    (h : Spells env final f text done parts m) :
    Spells env final f text done parts fun c =>
      if p c then unsupported (position c) (cause c) else m c := by
  obtain ⟨template, htemplate⟩ := h
  refine ⟨template, fun c s a s' hs hkeeps hyields => ?_⟩
  dsimp only at hyields
  split at hyields
  · exact absurd hyields not_yields_unsupported
  · exact htemplate c s a s' hs hkeeps hyields

/-- A step whose result is the same for all members of the family. -/
theorem spells_skip {m : C → Emit β} {k : C → β → Emit α} (hm : Determined env final m)
    (hk : ∀ b, Spells env final f text done parts fun c => k c b) :
    Spells env final f text done parts fun c => m c >>= k c := by
  by_cases hrun : ∃ c s b s', Faithful env s ∧ Keeps s' final ∧ Yields env (m c) s b s'
  · obtain ⟨c₀, s₀, b, s₀', hs₀, hkeeps₀, h₀⟩ := hrun
    obtain ⟨template, htemplate⟩ := hk b
    refine ⟨template, fun c s a s' hs hkeeps h => ?_⟩
    obtain ⟨b', s₁, hb, ha⟩ := yields_bind.1 h
    have hs₁ := hs.evolves ((hm.steady c).evolves hb)
    -- The rest keeps names, whatever the result is; so the result is the one that determines the
    -- template.
    have hkeeps₁ : Keeps s₁ final := by
      obtain ⟨_, hrest⟩ := hk b'
      obtain ⟨_, hcodes, -⟩ := hrest c s₁ a s' hs₁ hkeeps ha
      exact hcodes.keeps.trans hkeeps
    obtain rfl : b' = b := hm.unique hs hs₀ hkeeps₁ hkeeps₀ hb h₀
    obtain ⟨codes, hcodes, hholes, htext⟩ := htemplate c s₁ a s' hs₁ hkeeps ha
    exact ⟨codes, hcodes.after ((hm.steady c).keeps hb), hholes, htext⟩
  · refine ⟨[], fun c s a s' hs hkeeps h => ?_⟩
    obtain ⟨b, s₁, hb, ha⟩ := yields_bind.1 h
    obtain ⟨_, hrest⟩ := hk b
    obtain ⟨_, hcodes, -⟩ := hrest c s₁ a s' (hs.evolves ((hm.steady c).evolves hb)) hkeeps ha
    exact absurd ⟨c, s, b, s₁, hs, hcodes.keeps.trans hkeeps, hb⟩ hrun

/-- The types of the program may be read first. -/
theorem spells_types {k : C → TypeTable → Emit α}
    (hk : Spells env final f text done parts fun c => k c env.program.types) :
    Spells env final f text done parts fun c => types >>= k c := by
  obtain ⟨template, htemplate⟩ := hk
  refine ⟨template, fun c s a s' hs hkeeps h => ?_⟩
  obtain ⟨table, s₁, htable, ha⟩ := yields_bind.1 h
  obtain ⟨rfl, rfl⟩ := yields_types.1 htable
  exact htemplate c s a s' hs hkeeps ha

/-- A result from outside may come first. -/
theorem spells_lift {r : Except Error β} {k : C → β → Emit α}
    (hk : ∀ b, r = .ok b → Spells env final f text done parts fun c => k c b) :
    Spells env final f text done parts fun c => liftM r >>= k c := by
  cases r with
  | error e =>
    refine ⟨[], fun c s a s' hs hkeeps h => ?_⟩
    obtain ⟨b, s₁, hb, -⟩ := yields_bind.1 h
    cases (yields_lift.1 hb).1
  | ok b =>
    obtain ⟨template, htemplate⟩ := hk b rfl
    refine ⟨template, fun c s a s' hs hkeeps h => ?_⟩
    obtain ⟨b', s₁, hb, ha⟩ := yields_bind.1 h
    obtain ⟨hsame, rfl⟩ := yields_lift.1 hb
    cases hsame
    exact htemplate c s a s' hs hkeeps ha

/-- A step whose result may differ between the members of the family. -/
theorem spells_vary {m : C → Emit β} {k : C → β → Emit α} (hsteady : ∀ c, Steady (m c))
    (hk : Spells env final f text (fun p : C × β => done p.1) (fun p => parts p.1)
      fun p => k p.1 p.2) :
    Spells env final f text done parts fun c => m c >>= k c := by
  obtain ⟨template, htemplate⟩ := hk
  refine ⟨template, fun c s a s' hs hkeeps h => ?_⟩
  obtain ⟨b, s₁, hb, ha⟩ := yields_bind.1 h
  obtain ⟨codes, hcodes, hall⟩ :=
    htemplate (c, b) s₁ a s' (hs.evolves ((hsteady c).evolves hb)) hkeeps ha
  exact ⟨codes, hcodes.after ((hsteady c).keeps hb), hall⟩

/-- The next part is written. -/
theorem spells_part {t : C → Tree} {usage : Use} {k : C → Expr → Emit α}
    (hk : Spells env final f text (fun p : C × Expr => done p.1 ++ [p.2.text]) (fun p => parts p.1)
      fun p => k p.1 p.2) :
    Spells env final f text done (fun c => (usage, t c) :: parts c) fun c =>
      expr f usage (t c) >>= k c := by
  obtain ⟨template, htemplate⟩ := hk
  refine ⟨template, fun c s a s' hs hkeeps h => ?_⟩
  obtain ⟨x, s₁, hx, ha⟩ := yields_bind.1 h
  have hs₁ := hs.evolves ((steady_expr f usage (t c)).evolves hx)
  obtain ⟨codes, hcodes, hholes, htext⟩ := htemplate (c, x) s₁ a s' hs₁ hkeeps ha
  refine ⟨x :: codes, .cons (Keeps.refl s) hs hx hcodes, ?_, by simpa using htext⟩
  simpa [Nat.add_assoc, Nat.add_comm 1] using hholes

/-- What is given inside of a compound assignment is given one level deeper. -/
theorem yields_inCompound {s s' : State} {m : Emit α} {a : α}
    (h : Yields env (inCompound m) s a s') :
    ∃ s₁, Yields env m { s with compoundDepth := s.compoundDepth + 1 } a s₁ ∧
      { s₁ with compoundDepth := s₁.compoundDepth - 1 } = s' := by
  obtain ⟨s₁, hinner⟩ := Scene.exists_yields_of_inCompound h
  refine ⟨s₁, hinner, ?_⟩
  have hstate : ((inCompound m env).perform s).2 =
      { ((m env).perform { s with compoundDepth := s.compoundDepth + 1 }).2 with
        compoundDepth :=
          ((m env).perform { s with compoundDepth := s.compoundDepth + 1 }).2.compoundDepth -
            1 } := rfl
  rw [h, hinner] at hstate
  exact hstate.symm

/-- The next part is written inside a store that computes its address once. -/
theorem spells_inner {t : C → Tree} {usage : Use} {k : C → Expr → Emit α}
    (hk : Spells env final f text (fun p : C × Expr => done p.1 ++ [p.2.text]) (fun p => parts p.1)
      fun p => k p.1 p.2) :
    Spells env final f text done (fun c => (usage, t c) :: parts c) fun c =>
      inCompound (expr f usage (t c)) >>= k c := by
  obtain ⟨template, htemplate⟩ := hk
  refine ⟨template, fun c s a s' hs hkeeps h => ?_⟩
  obtain ⟨x, s₁, hx, ha⟩ := yields_bind.1 h
  have hs₁ := hs.evolves ((steady_inCompound (steady_expr f usage (t c))).evolves hx)
  obtain ⟨codes, hcodes, hholes, htext⟩ := htemplate (c, x) s₁ a s' hs₁ hkeeps ha
  obtain ⟨s₂, hinner, rfl⟩ := yields_inCompound hx
  have hopen : Keeps s { s with compoundDepth := s.compoundDepth + 1 } :=
    ⟨fun _ _ h => h, fun _ _ h => h⟩
  have hclose : Keeps s₂ { s₂ with compoundDepth := s₂.compoundDepth - 1 } :=
    ⟨fun _ _ h => h, fun _ _ h => h⟩
  refine ⟨x :: codes, .cons hopen (hs.atDepth _) hinner (hcodes.after hclose), ?_,
    by simpa using htext⟩
  simpa [Nat.add_assoc, Nat.add_comm 1] using hholes

/-- A part by itself. -/
theorem spells_single {t : C → Tree} {usage : Use} :
    Spells env final f Expr.text (fun _ => []) (fun c => [(usage, t c)]) fun c =>
      expr f usage (t c) :=
  ⟨[.hole], fun _ s x s' hs _ h => ⟨[x], .cons (Keeps.refl s) hs h (.nil (Keeps.refl s')),
    rfl, by simp⟩⟩

/-- A step that writes parts, and then what surrounds them. -/
theorem spells_between {m : C → Emit β} {inner : β → String} {k : C → β → α} {front : C → String}
    (closing : String) (hm : Spells env final f inner (fun _ => []) parts m)
    (hfront : Fills front done) (htext : ∀ c b, text (k c b) = front c ++ inner b ++ closing) :
    Spells env final f text done parts fun c => m c >>= fun b => pure (k c b) := by
  obtain ⟨template, htemplate⟩ := hm
  obtain ⟨opening, hopening⟩ := hfront
  refine ⟨opening ++ (template ++ [.text closing]), fun c s a s' hs hkeeps h => ?_⟩
  obtain ⟨b, s₁, hb, ha⟩ := yields_bind.1 h
  obtain ⟨rfl, rfl⟩ := yields_pure.1 ha
  obtain ⟨codes, hcodes, hholes, hinner⟩ := htemplate c s b s₁ hs hkeeps hb
  have hcount : template.holes = (codes.map Expr.text).length := by simpa using hholes
  refine ⟨codes, hcodes, by simpa [(hopening c).1] using hholes, ?_⟩
  rw [htext, (hopening c).2, Template.fill_append (hopening c).1, Template.fill_concat hcount,
    String.append_assoc]
  exact congrArg _ (congrArg (· ++ closing) hinner)

/-- The same for a family whose members are all in the other one. -/
theorem spells_cover {D : Type} {done' : D → List String} {parts' : D → List (Use × Tree)}
    {m : C → Emit α} {m' : D → Emit α} (h : Spells env final f text done' parts' m')
    (hcover : ∀ c, ∃ d, done' d = done c ∧ parts' d = parts c ∧ m' d = m c) :
    Spells env final f text done parts m := by
  obtain ⟨template, htemplate⟩ := h
  refine ⟨template, fun c => ?_⟩
  obtain ⟨d, hdone, hparts, hm⟩ := hcover c
  rw [← hdone, ← hparts, ← hm]
  exact htemplate d

/-- Equal steps write the same. -/
theorem spells_congr {m m' : C → Emit α} (heq : ∀ c, m c = m' c)
    (h : Spells env final f text done parts m') :
    Spells env final f text done parts m := (funext heq : m = m') ▸ h

/-- A step without parts. -/
theorem spells_of_determined {m : C → Emit Expr} (h : Determined env final m) :
    Spells env final f Expr.text (fun _ => []) (fun _ => []) m :=
  spells_congr (fun c => (bind_pure (m c)).symm)
    (spells_skip h fun x => spells_pure (fills_text x.text))

/-! ## Texts around texts -/

/-- Fixed texts are put around the text of an expression. -/
def Around (g : Expr → Expr) : Prop := ∃ front back, ∀ x, (g x).text = front ++ x.text ++ back

/-- Fixed texts around fixed texts are fixed texts. -/
theorem Around.comp {g h : Expr → Expr} (hg : Around g) (hh : Around h) :
    Around fun x => g (h x) := by
  obtain ⟨front, back, hg⟩ := hg
  obtain ⟨front', back', hh⟩ := hh
  exact ⟨front ++ front', back' ++ back, fun x => by simp only [hg, hh, String.append_assoc]⟩

/-- Nothing is put around an expression itself. -/
theorem around_id : Around fun x => x := ⟨"", "", fun x => by simp⟩

/-- Parentheses are put around an expression. -/
theorem around_paren : Around .paren := ⟨"(", ")", fun _ => rfl⟩

/-- The operator for the address is put before an expression. -/
theorem around_addressOf : Around .addressOf :=
  ⟨"&", "", fun x => (String.append_empty (s := "&" ++ x.text)).symm⟩

/-- The operator for what a pointer points to is put before an expression. -/
theorem around_deref : Around .deref :=
  ⟨"*", "", fun x => (String.append_empty (s := "*" ++ x.text)).symm⟩

/-- A minus sign is put before an expression. -/
theorem around_negate : Around .negate :=
  ⟨"-", "", fun x => (String.append_empty (s := "-" ++ x.text)).symm⟩

/-- The operator that takes the complement is put before an expression. -/
theorem around_complement : Around .complement :=
  ⟨"^", "", fun x => (String.append_empty (s := "^" ++ x.text)).symm⟩

/-- A field is put behind an expression. -/
theorem around_select (name : String) : Around (.select · name) :=
  ⟨"", "." ++ name, fun x => by rw [String.empty_append, ← String.append_assoc]; rfl⟩

/-- A conversion is put around an expression. -/
theorem around_convert (t : Go.Ty) : Around (.convert t) := ⟨t.text ++ "(", ")", fun _ => rfl⟩

/-- A call is put around its only argument. -/
theorem around_callName (name : String) : Around fun x => .callName name [x] :=
  ⟨name ++ "(", ")", fun _ => rfl⟩

/-- A conversion to an unsafe pointer is put around an expression. -/
theorem around_unsafePointer : Around .unsafePointer := ⟨"unsafe.Pointer(", ")", fun _ => rfl⟩

/-- The conversion to the bits of an address is put around an expression. -/
theorem around_addressBits : Around .addressBits :=
  (around_convert .uintptr).comp around_unsafePointer

/-- The conversion to another type with the same bits is put around an expression. -/
theorem around_reinterpret (t : Go.Ty) : Around (.reinterpret t) :=
  have hcast : Around (.cast t) := ⟨"(" ++ t.text ++ ")(", ")", fun _ => rfl⟩
  hcast.comp around_unsafePointer

/-- The conversion of a truth value to an integer is put around an expression. -/
theorem around_ofBool : Around .ofBool := around_callName "bool2int"

/-- The conversion to a complex number is put around the real part. -/
theorem around_realOnly : Around realOnly := by
  refine ⟨"complex(", ", 0)", fun x => ?_⟩
  show "complex" ++ "(" ++ (x.text ++ ", " ++ "0") ++ ")" = _
  simp [String.append_assoc]

/-- Fixed texts lead from a pointer to what it points to, or to the address of that. -/
theorem around_pointed (address : Bool) : Around (pointed address) := by
  cases address
  · exact around_paren.comp around_deref
  · exact around_id

/-- What has a template keeps it, if fixed texts are put around it. -/
theorem Around.fills {D : Type} {g : Expr → Expr} (hg : Around g) {x : D → Expr}
    {done : D → List String} (h : Fills (fun d => (x d).text) done) :
    Fills (fun d => (g (x d)).text) done := by
  obtain ⟨front, back, hg⟩ := hg
  simp only [hg]
  exact (h.behind front).before back

/-- A binary expression has the holes of its operands. -/
theorem fills_binary {D : Type} (op : Operator) {x y : D → Expr} {done done' : D → List String}
    (hx : Fills (fun d => (x d).text) done) (hy : Fills (fun d => (y d).text) done') :
    Fills (fun d => (Expr.binary op (x d) (y d)).text) fun d => done d ++ done' d :=
  (hx.before op.text).append hy

/-- A call with two arguments has the holes of both. -/
theorem fills_callName {D : Type} (name : String) {x y : D → Expr} {done done' : D → List String}
    (hx : Fills (fun d => (x d).text) done) (hy : Fills (fun d => (y d).text) done') :
    Fills (fun d => (Expr.callName name [x d, y d]).text) fun d => done d ++ done' d :=
  (((hx.before ", ").append hy).behind (name ++ "(")).before ")"

/-- The call of a function literal has the holes of its statements. -/
theorem fills_invoke {D : Type} (results : List Go.Ty) {first last : D → Stmt}
    {done done' : D → List String} (hfirst : Fills (fun d => (first d).text) done)
    (hlast : Fills (fun d => (last d).text) done') :
    Fills (fun d => (Expr.invoke results [first d] (last d)).text) fun d => done d ++ done' d :=
  (((hfirst.behind ("func()" ++ resultsText results ++ " \x7b ")).before "; ").append hlast).before
    " \x7d()"

/-- In faithful states the step puts fixed texts around the one that it is given. -/
def Surrounds (env : Env) (w : Expr → Emit Expr) : Prop :=
  ∃ front back, ∀ x, Delivers env (w x) fun y => y.text = front ++ x.text ++ back

/-- A result with fixed texts around the given one. -/
theorem surrounds_pure {g : Expr → Expr} (h : Around g) : Surrounds env fun x => pure (g x) := by
  obtain ⟨front, back, h⟩ := h
  exact ⟨front, back, fun x => delivers_pure (h x)⟩

/-- A failure puts nothing around. -/
theorem surrounds_unsupported (position : Position) (cause : Unsupported) :
    Surrounds env fun _ => unsupported position cause :=
  ⟨"", "", fun _ => delivers_unsupported _ _⟩

/-- A branch puts around what both of its sides do. -/
theorem surrounds_ite {p : Prop} {_ : Decidable p} {w w' : Expr → Emit Expr} (h : Surrounds env w)
    (h' : Surrounds env w') : Surrounds env fun x => if p then w x else w' x := by
  split
  · exact h
  · exact h'

/-- A step whose result is determined may come first. -/
theorem surrounds_skip {m : Emit β} {P : β → Prop} {k : Expr → β → Emit Expr}
    (hm : Delivers env m P) (hsteady : Steady m) (hunique : ∀ a b, P a → P b → a = b)
    (hk : ∀ b, Surrounds env fun x => k x b) : Surrounds env fun x => m >>= k x := by
  by_cases hany : ∃ b, P b
  · obtain ⟨b, hb⟩ := hany
    obtain ⟨front, back, hall⟩ := hk b
    refine ⟨front, back, fun x => delivers_bind hm hsteady fun b' hb' => ?_⟩
    rw [hunique b' b hb' hb]
    exact hall x
  · exact ⟨"", "", fun x => delivers_bind hm hsteady fun b hb => absurd ⟨b, hb⟩ hany⟩

/-- A result from outside may come first. -/
theorem surrounds_lift {r : Except Error β} {k : Expr → β → Emit Expr}
    (hk : ∀ b, Surrounds env fun x => k x b) : Surrounds env fun x => liftM r >>= k x :=
  surrounds_skip (delivers_lift r) (steady_lift r)
    (fun _ _ h h' => Except.ok.inj (h.symm.trans h')) hk

/-- The types of the program may be read first. -/
theorem surrounds_types {k : Expr → TypeTable → Emit Expr}
    (hk : ∀ table, Surrounds env fun x => k x table) :
    Surrounds env fun x => types >>= k x :=
  surrounds_skip delivers_types steady_types (fun _ _ h h' => h.symm.trans h') hk

/-- The Go type of a type may be asked for first. -/
theorem surrounds_goType {id : TypeId} {k : Expr → Go.Ty → Emit Expr}
    (hk : ∀ t, Surrounds env fun x => k x t) : Surrounds env fun x => goType id >>= k x :=
  surrounds_skip (delivers_goType id) (steady_goType id) (fun _ _ => expands_unique) hk

/-- The conversion to the address in a pointer puts fixed texts around it. -/
theorem surrounds_addressBits (type : TypeId) (position : Position) :
    Surrounds env fun x => addressBits type x position := by
  unfold addressBits
  refine surrounds_ite (surrounds_pure around_id)
    (surrounds_types fun table => surrounds_lift fun isFunction => ?_)
  exact surrounds_ite (surrounds_unsupported _ _) (surrounds_pure around_addressBits)

/-- Passing an argument puts fixed texts around it. -/
theorem surrounds_passArgument (param : Option TypeId) (variadic : Bool) (type : TypeId) :
    Surrounds env fun x => passArgument param variadic type x := by
  unfold passArgument
  have hsame : Surrounds env fun x => pure x := surrounds_pure around_id
  refine surrounds_types fun table => ?_
  cases param with
  | none =>
    refine surrounds_ite hsame (surrounds_lift fun isPointer => surrounds_ite hsame ?_)
    exact surrounds_lift fun isFunction =>
      surrounds_ite hsame (surrounds_pure around_unsafePointer)
  | some param =>
    refine surrounds_lift fun toData => surrounds_ite ?_ (surrounds_ite hsame ?_)
    · exact surrounds_goType fun t => surrounds_pure (around_reinterpret t)
    · exact surrounds_lift fun isData => surrounds_ite (surrounds_pure around_addressBits) hsame

/-- Converting a value puts fixed texts around it. -/
theorem surrounds_convertExpr (src dst : TypeId) (position : Position) :
    Surrounds env fun x => convertExpr src dst x position := by
  unfold convertExpr
  have hsame : Surrounds env fun x => pure x := surrounds_pure around_id
  refine surrounds_ite hsame (surrounds_types fun table => surrounds_lift fun sk =>
    surrounds_lift fun dk => ?_)
  refine surrounds_lift fun fromFunction => surrounds_goType fun t => ?_
  have hrefuse : Surrounds env fun _ =>
      (do unsupported position (.conversion (← goType src) t) : Emit Expr) :=
    surrounds_goType fun _ => surrounds_unsupported _ _
  have hconvert : Surrounds env fun x => pure (.convert t x) := surrounds_pure (around_convert t)
  dsimp only
  cases dk with
  | pointer =>
    refine surrounds_ite ?_ (surrounds_lift fun toFunction => surrounds_ite hrefuse ?_)
    · refine surrounds_ite hsame (surrounds_ite (surrounds_pure around_addressBits) ?_)
      exact surrounds_ite (surrounds_pure (around_convert _)) hrefuse
    · refine surrounds_ite (surrounds_pure (around_reinterpret t)) (surrounds_ite ?_ hrefuse)
      exact surrounds_pure ((around_reinterpret t).comp (around_convert _))
  | scalar s =>
    refine surrounds_ite hconvert
      (surrounds_ite (surrounds_pure ((around_convert t).comp around_addressBits)) ?_)
    refine surrounds_ite (surrounds_pure (around_realOnly.comp (around_convert _))) ?_
    refine surrounds_ite hconvert (surrounds_ite hconvert (surrounds_ite ?_ hrefuse))
    exact surrounds_pure ((around_convert t).comp (around_callName "real"))
  | _ => exact hrefuse

/-- Texts are put around the code of a part, and then the rest is written. -/
theorem spells_wrap {w : Expr → Emit Expr} {x : C → Expr} {k : C → Expr → Emit α}
    (hw : Surrounds env w) (hsteady : ∀ x, Steady (w x))
    (hk : ∀ front back, Spells env final f text
      (fun p : { p : C × Expr // p.2.text = front ++ (x p.1).text ++ back } => done p.1.1)
      (fun p => parts p.1.1) fun p => k p.1.1 p.1.2) :
    Spells env final f text done parts fun c => w (x c) >>= k c := by
  obtain ⟨front, back, hall⟩ := hw
  obtain ⟨template, htemplate⟩ := hk front back
  refine ⟨template, fun c s a s' hs hkeeps h => ?_⟩
  obtain ⟨y, s₁, hy, ha⟩ := yields_bind.1 h
  obtain ⟨codes, hcodes, hrest⟩ := htemplate ⟨(c, y), hall (x c) s y s₁ hs hy⟩ s₁ a s'
    (hs.evolves ((hsteady (x c)).evolves hy)) hkeeps ha
  exact ⟨codes, hcodes.after ((hsteady (x c)).keeps hy), hrest⟩

/-- Texts are put around the code of the last part. -/
theorem spells_wrapped {w : Expr → Emit Expr} {x : C → Expr} (hw : Surrounds env w)
    (hsteady : ∀ x, Steady (w x)) :
    Spells env final f Expr.text (fun c => [(x c).text]) (fun _ => []) fun c => w (x c) :=
  spells_congr (fun c => (bind_pure (w (x c))).symm) (spells_wrap hw hsteady fun front back =>
    spells_pure ((((fills_hole _).behind front).before back).congr fun p => p.2))

/-- A test of a part against zero is written, and then the rest. -/
theorem spells_test {t : C → Tree} {type : Option TypeId} {zero : Bool} {k : C → Expr → Emit α}
    (htype : ∀ c, (t c).type = type)
    (hk : ∀ tail : String, Spells env final f text
      (fun p : { p : C × Expr × Expr // p.2.2.text = p.2.1.text ++ tail } => done p.1.1 ++
        [p.1.2.1.text]) (fun p => parts p.1.1) fun p => k p.1.1 p.1.2.2) :
    Spells env final f text done (fun c => (.value, t c) :: parts c)
      fun c => truthOf (t c) (expr f .value (t c)) zero >>= k c := by
  simp only [truthOf, bind_assoc, pure_bind]
  refine spells_skip (determined_valueType htype) fun id =>
    spells_part (spells_skip (determined_zeroOf id _) fun z => ?_)
  let op : Operator := if zero then .eq else .neq
  have htail (x : Expr) : (Expr.binary op x z).text = x.text ++ (op.text ++ z.text) := by
    simp [Expr.text, String.append_assoc]
  exact spells_cover (hk (op.text ++ z.text)) fun p =>
    ⟨⟨(p.1, p.2, .binary op p.2 z), htail p.2⟩, rfl, rfl, rfl⟩

end

end Emit
end StackToGo
