import StackToGo.Go.Expr
import StackToGo.Proofs.Blocks.Code

/-!
# What the parts of a file declare

A part of a file declares one name, which stands in its first line behind the keyword. Clean-up
keeps first lines, so after it the same names are declared in the same way. The declaration of a
function also says of what types its parameters and its result are (`DeclaresFunction`).
-/

namespace StackToGo.Go

/-- The line that a part of a file begins with. -/
def Item.firstLine (item : Item Stmt Expr) : String := item.lines.headD ""

/-- The name that a declaration with the given first line declares: it goes from the first blank to
the next blank or parenthesis. -/
def declaredName (line : String) : String :=
  String.ofList ((line.toList.dropWhile (· ≠ ' ')).tail.takeWhile fun c => c ≠ ' ' && c ≠ '(')

/-- The first lines of the parts of a file that declare the name. -/
def declarations (name : String) (items : List (Item Stmt Expr)) : List String :=
  (items.map Item.firstLine).filter (declaredName · = name)

/-- The declared name stands between the first blank and the next blank or parenthesis. -/
theorem declaredName_eq {line keyword name : String} {mark : Char} {rest : List Char}
    (hline : line.toList = keyword.toList ++ ' ' :: (name.toList ++ mark :: rest))
    (hkeyword : ' ' ∉ keyword.toList) (hname : ' ' ∉ name.toList ∧ '(' ∉ name.toList)
    (hmark : mark = ' ' ∨ mark = '(') : declaredName line = name := by
  have hdrop : line.toList.dropWhile (· ≠ ' ') = ' ' :: (name.toList ++ mark :: rest) := by
    rw [hline, List.dropWhile_append_of_pos, List.dropWhile_cons_of_neg (by simp)]
    intro c hc
    exact decide_eq_true fun h => hkeyword (h ▸ hc)
  have htake : (name.toList ++ mark :: rest).takeWhile (fun c => c ≠ ' ' && c ≠ '(') =
      name.toList := by
    rw [List.takeWhile_append_of_pos, List.takeWhile_cons_of_neg, List.append_nil]
    · rcases hmark with rfl | rfl <;> simp
    · intro c hc
      have hblank : c ≠ ' ' := fun h => hname.1 (h ▸ hc)
      have hopen : c ≠ '(' := fun h => hname.2 (h ▸ hc)
      simp [hblank, hopen]
  rw [declaredName, hdrop, List.tail_cons, htake, String.ofList_toList]

/-! ## Functions -/

/-- The text lists parameters with the given names and types. A type stands behind its name, and
names in a row that have the same type may share it. -/
inductive ParameterText : List (String × String) → String → Prop
  | last (x t : String) : ParameterText [(x, t)] (x ++ " " ++ t)
  | typed (x t : String) {rest : List (String × String)} {text : String}
      (h : ParameterText rest text) :
      ParameterText ((x, t) :: rest) (x ++ " " ++ t ++ ", " ++ text)
  | shared (x : String) {y t : String} {rest : List (String × String)} {text : String}
      (h : ParameterText ((y, t) :: rest) text) :
      ParameterText ((x, t) :: (y, t) :: rest) (x ++ ", " ++ text)

/-- The text begins with the header of a function that has the given name, the parameters with the
given names and types, and a result of the given type. -/
def DeclaresFunction (text name : String) (parameters : List (String × String)) (result : String) :
    Prop :=
  ∃ list, ParameterText parameters list ∧
    ("func " ++ name ++ "(" ++ list ++ ") " ++ result ++ " \x7b").toList <+: text.toList

/-- The name of a function is the name that it declares. -/
theorem DeclaresFunction.declaredName_eq {text name result : String}
    {parameters : List (String × String)} (h : DeclaresFunction text name parameters result)
    (hname : ' ' ∉ name.toList ∧ '(' ∉ name.toList) :
    declaredName text = name := by
  obtain ⟨list, -, body, hbody⟩ := h
  obtain ⟨rest, hrest⟩ :
      ∃ rest, text.toList = "func".toList ++ ' ' :: (name.toList ++ '(' :: rest) := by
    rw [← hbody]
    simp only [String.toList_append, List.append_assoc]
    exact ⟨_, rfl⟩
  exact Go.declaredName_eq hrest (by decide) hname (.inr rfl)

/-! ## Files -/

section

variable {name : String} {items items' : List (Item Stmt Expr)}

/-- The declarations in parts in front and behind. -/
theorem declarations_append :
    declarations name (items ++ items') = declarations name items ++ declarations name items' := by
  simp [declarations]

/-- The declarations among texts are the texts that declare the name. -/
theorem declarations_text (texts : List String) :
    declarations name (texts.map .text) = texts.filter (declaredName · = name) := by
  have hlines : (texts.map .text : List (Item Stmt Expr)).map Item.firstLine = texts := by
    rw [List.map_map]
    exact List.map_id' texts
  rw [declarations, hlines]

/-- A name that no part declares has no declarations. -/
theorem declarations_eq_nil (h : ∀ item ∈ items, declaredName item.firstLine ≠ name) :
    declarations name items = [] := by
  rw [declarations, List.filter_map, List.map_eq_nil_iff, List.filter_eq_nil_iff]
  intro item hitem
  simpa using h item hitem

/-- Clean-up keeps the first line of a part. -/
theorem Cleaned.firstLine_eq {item item' : Item Stmt Expr} (h : Cleaned item item') :
    item'.firstLine = item.firstLine := by
  cases h <;> rfl

/-- Clean-up keeps the declarations of a name. -/
theorem declarations_of_cleaned (h : List.Forall₂ Cleaned items items') :
    declarations name items' = declarations name items := by
  have hlines : items'.map Item.firstLine = items.map Item.firstLine := by
    induction h with
    | nil => rfl
    | cons hfirst _ ih => rw [List.map_cons, List.map_cons, hfirst.firstLine_eq, ih]
  rw [declarations, hlines, declarations]

end

end StackToGo.Go
