import StackToGo.Go.Type
import StackToGo.Proofs.Identifier

/-!
# The text of a Go type tells the type

Texts of types are not free of prefixes: `func()` begins `func() int32`. What follows a type inside
another is `,`, `)`, `;` or `}` and never a blank, and that is enough to tell where a type ends
(`Go.Ty.spelledApart`): texts that agree up to what follows belong to the same type, so the text is
injective (`Go.Ty.text_injective`).
-/

namespace StackToGo.Go

/-! ## Lists between brackets -/

/-- Items spelled one after another, each behind a separator and a blank. The spelling may depend
on the place. -/
def following {α : Type} (separator : Char) (spell : Nat → α → List Char) :
    Nat → List α → List Char
  | _, [] => []
  | index, a :: rest =>
    separator :: ' ' :: (spell index a ++ following separator spell (index + 1) rest)

/-- Items spelled one after another, with a separator and a blank between them. -/
def joined {α : Type} (separator : Char) (spell : Nat → α → List Char) (index : Nat) :
    List α → List Char
  | [] => []
  | a :: rest => spell index a ++ following separator spell (index + 1) rest

/-- The spellings of items, from a place on. -/
def spelled {α : Type} (spell : Nat → α → List Char) : Nat → List α → List (List Char)
  | _, [] => []
  | index, a :: rest => spell index a :: spelled spell (index + 1) rest

/-- What follows does not begin with a blank. -/
def Stops (rest : List Char) : Prop := rest.head? ≠ some ' '

/-- A character that is no blank stops what is in front of it. -/
theorem stops_cons {c : Char} {rest : List Char} (h : c ≠ ' ') : Stops (c :: rest) := by
  simpa [Stops] using h

section

variable {α : Type} {separator close : Char} {spell : Nat → α → List Char}

/-- The items behind the first one follow it, each behind the separator. -/
theorem intercalate_cons_spelled (first : List Char) (index : Nat) (list : List α) :
    [separator, ' '].intercalate (first :: spelled spell index list) =
      first ++ following separator spell index list := by
  induction list generalizing first index with
  | nil => simp [spelled, following]
  | cons a list ih =>
    rw [spelled, List.intercalate_cons_cons, ih, following]
    simp

/-- Items with separators between them are joined. -/
theorem intercalate_spelled (index : Nat) (list : List α) :
    [separator, ' '].intercalate (spelled spell index list) =
      joined separator spell index list := by
  cases list with
  | nil => rfl
  | cons a list => exact intercalate_cons_spelled _ _ _

/-- A spelling that does not depend on the place. -/
theorem spelled_const (spell : α → List Char) (index : Nat) (list : List α) :
    spelled (fun _ => spell) index list = list.map spell := by
  induction list generalizing index with
  | nil => rfl
  | cons a list ih => rw [spelled, ih, List.map_cons]

/-- Items that follow begin with no blank. -/
theorem stops_following (hseparator : separator ≠ ' ') (hclose : close ≠ ' ') (index : Nat)
    (list : List α) (rest : List Char) :
    Stops (following separator spell index list ++ close :: rest) := by
  cases list with
  | nil => exact stops_cons hclose
  | cons a list => exact stops_cons hseparator

/-- What is spelled as `a` is, up to what follows, is `a`. -/
def SpelledApart (spell : Nat → α → List Char) (a : α) : Prop :=
  ∀ index b rest rest', Stops rest → Stops rest' → spell index a ++ rest = spell index b ++ rest' →
    a = b ∧ rest = rest'

/-- Items that follow are told from their spellings, up to the closing character. -/
theorem following_inj (hseparator : separator ≠ ' ') (hclose : close ≠ ' ')
    (hapart : separator ≠ close) {list list' : List α} {index : Nat} {rest rest' : List Char}
    (hlist : ∀ a ∈ list, SpelledApart spell a)
    (h : following separator spell index list ++ close :: rest =
      following separator spell index list' ++ close :: rest') :
    list = list' ∧ rest = rest' := by
  induction list generalizing index list' with
  | nil =>
    cases list' with
    | nil => exact ⟨rfl, (List.cons.inj h).2⟩
    | cons b list' => exact absurd (List.cons.inj h).1.symm hapart
  | cons a list ih =>
    cases list' with
    | nil => exact absurd (List.cons.inj h).1 hapart
    | cons b list' =>
      obtain ⟨ha, hlist⟩ := List.forall_mem_cons.1 hlist
      simp only [following, List.cons_append, List.append_assoc, List.cons.injEq, true_and] at h
      obtain ⟨rfl, hmore⟩ := ha index b _ _ (stops_following hseparator hclose _ _ _)
        (stops_following hseparator hclose _ _ _) h
      obtain ⟨rfl, hrest⟩ := ih hlist hmore
      exact ⟨rfl, hrest⟩

/-- Items between brackets are told apart, if none begins with the closing bracket. -/
theorem joined_inj (hseparator : separator ≠ ' ') (hclose : close ≠ ' ')
    (hapart : separator ≠ close)
    (hspell : ∀ index a rest, (spell index a ++ rest).head? ≠ some close) {list list' : List α}
    {index : Nat} {rest rest' : List Char} (hlist : ∀ a ∈ list, SpelledApart spell a)
    (h : joined separator spell index list ++ close :: rest =
      joined separator spell index list' ++ close :: rest') :
    list = list' ∧ rest = rest' := by
  cases list with
  | nil =>
    cases list' with
    | nil => exact ⟨rfl, (List.cons.inj h).2⟩
    | cons b list' =>
      rw [joined, joined, List.append_assoc] at h
      exact absurd (congrArg List.head? h).symm (hspell _ _ _)
  | cons a list =>
    cases list' with
    | nil =>
      rw [joined, joined, List.append_assoc] at h
      exact absurd (congrArg List.head? h) (hspell _ _ _)
    | cons b list' =>
      obtain ⟨ha, hlist⟩ := List.forall_mem_cons.1 hlist
      simp only [joined, List.append_assoc] at h
      obtain ⟨rfl, hmore⟩ := ha index b _ _ (stops_following hseparator hclose _ _ _)
        (stops_following hseparator hclose _ _ _) h
      obtain ⟨rfl, hrest⟩ := following_inj hseparator hclose hapart hlist hmore
      exact ⟨rfl, hrest⟩

end

/-! ## The words that types begin with -/

/-- The first word of a type. -/
inductive Word where
  | scalar (s : Scalar)
  | uintptr | star | bracket | struct | func
  deriving DecidableEq

namespace Word

def chars : Word → List Char
  | .scalar s => (scalarName s).toList
  | .uintptr => "uintptr".toList
  | .star => ['*']
  | .bracket => ['[']
  | .struct => "struct\x7b".toList
  | .func => "func(".toList

/-- All words that types begin with. -/
def all : List Word :=
  [.scalar .int8, .scalar .int16, .scalar .int32, .scalar .int64, .scalar .uint8, .scalar .uint16,
   .scalar .uint32, .scalar .uint64, .scalar .float32, .scalar .float64, .scalar .complex64,
   .scalar .complex128, .uintptr, .star, .bracket, .struct, .func]

/-- The word that a text begins with. -/
def read (text : List Char) : Option Word := all.find? fun word => word.chars.isPrefixOf text

/-- The first word of a text can be told. -/
theorem read_append (word : Word) (rest : List Char) : read (word.chars ++ rest) = some word := by
  cases word with
  | scalar s => cases s <;> rfl
  | _ => rfl

/-- A word and what follows it can be told apart. -/
theorem append_inj {a b : Word} {rest rest' : List Char} (h : a.chars ++ rest = b.chars ++ rest') :
    a = b ∧ rest = rest' := by
  have hword : some a = some b := by rw [← read_append a rest, h, read_append]
  cases hword
  exact ⟨rfl, List.append_cancel_left h⟩

/-- Types begin with one of seven characters. -/
theorem head_mem (word : Word) :
    ∃ c rest, word.chars = c :: rest ∧ c ∈ ['*', '[', 'c', 'f', 'i', 's', 'u'] := by
  cases word with
  | scalar s => cases s <;> exact ⟨_, _, rfl, by decide⟩
  | _ => exact ⟨_, _, rfl, by decide⟩

end Word

namespace Ty

/-! ## Texts as lists of characters -/

/-- The text of a type, character by character. -/
def chars (t : Ty) : List Char := t.text.toList

/-- A field of a struct at a place. -/
def fieldChars (index : Nat) (t : Ty) : List Char :=
  'X' :: (Nat.toDigits 10 index ++ ' ' :: t.chars)

/-- A parameter; the last one may take any further arguments. -/
def paramChars : Option Ty → List Char
  | some t => t.chars
  | none => variadicParam.toList

/-- The parameters of a function, with the one that takes any further arguments. -/
def allParams (params : List Ty) (variadic : Bool) : List (Option Ty) :=
  params.map some ++ if variadic then [none] else []

/-- The result of a function, behind its parameters. -/
def resultChars : Option Ty → List Char
  | none => []
  | some t => ' ' :: t.chars

/-- The characters of a number are its digits. -/
theorem toList_toString (n : Nat) : (toString n).toList = Nat.toDigits 10 n := by
  simp only [Nat.toString_eq_repr, Nat.toList_repr]

/-- The spellings of the fields of a struct. -/
theorem toList_fieldTexts (index : Nat) (fields : List Ty) :
    (fieldTexts index fields).map String.toList = spelled fieldChars index fields := by
  induction fields generalizing index with
  | nil => rfl
  | cons t fields ih =>
    show (fieldName index ++ " " ++ t.text).toList ::
        (fieldTexts (index + 1) fields).map String.toList = _
    rw [ih, spelled, fieldChars, chars]
    simp [fieldName]

/-- The fields of a struct, joined. -/
theorem toList_joined_fields (fields : List Ty) :
    ("; ".intercalate (fieldTexts 0 fields)).toList = joined ';' fieldChars 0 fields := by
  rw [String.toList_intercalate, toList_fieldTexts]
  exact intercalate_spelled 0 fields

/-- The parameters of a function, joined. -/
theorem toList_joined_params (params : List Ty) (variadic : Bool) :
    (", ".intercalate (texts params ++ if variadic then [variadicParam] else [])).toList =
      joined ',' (fun _ => paramChars) 0 (allParams params variadic) := by
  have hparams : (texts params ++ if variadic then [variadicParam] else []).map String.toList =
      spelled (fun _ => paramChars) 0 (allParams params variadic) := by
    rw [spelled_const, texts_eq_map, allParams]
    cases variadic <;> simp [paramChars, chars]
  rw [String.toList_intercalate, hparams]
  exact intercalate_spelled 0 _

/-- The first word of the text of a type. -/
def word : Ty → Word
  | .scalar s => .scalar s
  | .uintptr => .uintptr
  | .pointer _ => .star
  | .array .. | .bytes _ => .bracket
  | .struct _ | .union .. => .struct
  | .func .. => .func

/-- The text of a type behind its first word, with what follows it. -/
def body : Ty → List Char → List Char
  | .scalar _, rest | .uintptr, rest => rest
  | .pointer pointee, rest => pointee.chars ++ rest
  | .array items item, rest => Nat.toDigits 10 items ++ ']' :: (item.chars ++ rest)
  | .bytes size, rest => Nat.toDigits 10 size ++ ']' :: ("byte".toList ++ rest)
  | .struct fields, rest => joined ';' fieldChars 0 fields ++ '\x7d' :: rest
  | .union members size, rest =>
    "_ [0]struct\x7b".toList ++ (joined ';' fieldChars 0 members ++
      '\x7d' :: ("; U [".toList ++ (Nat.toDigits 10 size ++ ']' :: ("byte\x7d".toList ++ rest))))
  | .func params variadic result, rest =>
    joined ',' (fun _ => paramChars) 0 (allParams params variadic) ++ ')' ::
      (resultChars result ++ rest)

/-- A text of a type is its first word and the rest. -/
theorem chars_append (t : Ty) (rest : List Char) :
    t.chars ++ rest = t.word.chars ++ t.body rest := by
  -- Each goal is spelled out: the equations of the mutual recursion behind `text` hold by
  -- computation.
  cases t with
  | scalar s => rfl
  | uintptr => rfl
  | pointer pointee =>
    show ("*" ++ pointee.text).toList ++ rest = ['*'] ++ (pointee.text.toList ++ rest)
    simp
  | array items item =>
    show ("[" ++ toString items ++ "]" ++ item.text).toList ++ rest =
      ['['] ++ (Nat.toDigits 10 items ++ ']' :: (item.text.toList ++ rest))
    simp
  | bytes size =>
    show ("[" ++ toString size ++ "]byte").toList ++ rest =
      ['['] ++ (Nat.toDigits 10 size ++ ']' :: ("byte".toList ++ rest))
    simp
  | struct fields =>
    show ("struct\x7b" ++ "; ".intercalate (fieldTexts 0 fields) ++ "\x7d").toList ++ rest =
      "struct\x7b".toList ++ (joined ';' fieldChars 0 fields ++ '\x7d' :: rest)
    simp only [String.toList_append, toList_joined_fields, List.append_assoc]
    rfl
  | union members size =>
    show ("struct\x7b_ [0]struct\x7b" ++ "; ".intercalate (fieldTexts 0 members) ++ "\x7d; U [" ++
        toString size ++
      "]byte\x7d").toList ++ rest =
      "struct\x7b".toList ++ ("_ [0]struct\x7b".toList ++ (joined ';' fieldChars 0 members ++
        '\x7d' :: ("; U [".toList ++ (Nat.toDigits 10 size ++ ']' ::
          ("byte\x7d".toList ++ rest)))))
    simp only [String.toList_append, toList_joined_fields, toList_toString, List.append_assoc]
    rfl
  | func params variadic result =>
    show ("func(" ++ ", ".intercalate (texts params ++ if variadic then [variadicParam] else []) ++
        ")" ++
      resultText result).toList ++ rest =
      "func(".toList ++ (joined ',' (fun _ => paramChars) 0 (allParams params variadic) ++
        ')' :: (resultChars result ++ rest))
    have hresult : (resultText result).toList = resultChars result := by
      cases result with
      | none => rfl
      | some t =>
        show (" " ++ t.text).toList = ' ' :: t.text.toList
        simp
    simp only [String.toList_append, toList_joined_params, hresult, List.append_assoc]
    rfl

/-- Types that are spelled alike begin with the same word and go on alike. -/
theorem word_inj {t t' : Ty} {rest rest' : List Char} (h : t.chars ++ rest = t'.chars ++ rest') :
    t.word = t'.word ∧ t.body rest = t'.body rest' := by
  rw [chars_append, chars_append] at h
  exact Word.append_inj h

/-- A text of a type begins with none of the other characters. -/
theorem head?_chars_ne (t : Ty) (rest : List Char) {c : Char}
    (hc : c ∉ ['*', '[', 'c', 'f', 'i', 's', 'u']) :
    (t.chars ++ rest).head? ≠ some c := by
  obtain ⟨d, more, hword, hd⟩ := t.word.head_mem
  rw [chars_append, hword]
  rintro ⟨⟩
  exact hc hd

/-! ## Where a type ends -/

/-- A field is told from its spelling if its type is. -/
theorem spelledApart_field {t : Ty} (h : SpelledApart (fun _ => chars) t) :
    SpelledApart fieldChars t := by
  intro index t' rest rest' hrest hrest' heq
  simp only [fieldChars, List.cons_append, List.append_assoc, List.cons.injEq, true_and] at heq
  have hchars := (List.cons.inj (List.append_cancel_left heq)).2
  exact h index t' rest rest' hrest hrest' hchars

/-- A parameter is told from its spelling if its type is. -/
theorem spelledApart_param {param : Option Ty}
    (h : ∀ t, param = some t → SpelledApart (fun _ => chars) t) :
    SpelledApart (fun _ => paramChars) param := by
  intro index param' rest rest' hrest hrest' heq
  cases param with
  | none =>
    cases param' with
    | none => exact ⟨rfl, List.append_cancel_left heq⟩
    | some t' => exact absurd (congrArg List.head? heq).symm (t'.head?_chars_ne rest' (by decide))
  | some t =>
    cases param' with
    | none => exact absurd (congrArg List.head? heq) (t.head?_chars_ne rest (by decide))
    | some t' =>
      obtain ⟨rfl, htail⟩ := h t rfl index t' rest rest' hrest hrest' heq
      exact ⟨rfl, htail⟩

/-- A parameter does not begin with a closing parenthesis. -/
theorem head?_paramChars_ne (param : Option Ty) (rest : List Char) :
    (paramChars param ++ rest).head? ≠ some ')' := by
  cases param with
  | none =>
    rintro ⟨⟩
  | some t => exact t.head?_chars_ne rest (by decide)

/-- All parameters together tell the parameters, and whether there are further ones. -/
theorem allParams_inj {params params' : List Ty} {variadic variadic' : Bool}
    (h : allParams params variadic = allParams params' variadic') :
    params = params' ∧ variadic = variadic' := by
  have hparams : ∀ list flag, (allParams list flag).filterMap id = list := by
    intro list flag
    cases flag <;> simp [allParams]
  obtain rfl : params = params' := by rw [← hparams params variadic, h, hparams]
  have hrest := List.append_cancel_left h
  cases variadic <;> cases variadic' <;> simp_all

/-- A result is told from its spelling if its type is. -/
theorem resultChars_inj {result result' : Option Ty} {rest rest' : List Char} (hrest : Stops rest)
    (hrest' : Stops rest') (hresult : ∀ t, result = some t → SpelledApart (fun _ => chars) t)
    (h : resultChars result ++ rest = resultChars result' ++ rest') :
    result = result' ∧ rest = rest' := by
  cases result with
  | none =>
    cases result' with
    | none => exact ⟨rfl, h⟩
    | some t' => exact absurd (congrArg List.head? h) hrest
  | some t =>
    cases result' with
    | none => exact absurd (congrArg List.head? h).symm hrest'
    | some t' =>
      obtain ⟨rfl, htail⟩ := hresult t rfl 0 t' rest rest' hrest hrest' (List.cons.inj h).2
      exact ⟨rfl, htail⟩

/-- The fields of a struct are told from their spellings if their types are. -/
theorem fields_inj {fields fields' : List Ty} {rest rest' : List Char}
    (hfields : ∀ t ∈ fields, SpelledApart (fun _ => chars) t)
    (h : joined ';' fieldChars 0 fields ++ '\x7d' :: rest =
      joined ';' fieldChars 0 fields' ++ '\x7d' :: rest') :
    fields = fields' ∧ rest = rest' := by
  refine joined_inj (by decide) (by decide) (by decide) ?_
    (fun t ht => spelledApart_field (hfields t ht)) h
  intro index t rest
  rintro ⟨⟩

/-- The fields of a struct are never taken for what opens a union. -/
theorem head?_fields_ne (fields : List Ty) (rest : List Char) :
    (joined ';' fieldChars 0 fields ++ '\x7d' :: rest).head? ≠ some '_' := by
  cases fields with
  | nil => rintro ⟨⟩
  | cons t fields => rintro ⟨⟩

/-- Induction over a type and all types in it. -/
theorem inductionOn {P : Ty → Prop} (scalar : ∀ s, P (.scalar s)) (uintptr : P .uintptr)
    (pointer : ∀ t, P t → P (.pointer t)) (array : ∀ items t, P t → P (.array items t))
    (struct : ∀ ts, (∀ t ∈ ts, P t) → P (.struct ts))
    (union : ∀ ts size, (∀ t ∈ ts, P t) → P (.union ts size))
    (func : ∀ ts variadic result, (∀ t ∈ ts, P t) → (∀ t, result = some t → P t) →
      P (.func ts variadic result))
    (bytes : ∀ size, P (.bytes size)) (t : Ty) : P t := by
  refine @Ty.rec P (fun ts => ∀ t ∈ ts, P t) (fun result => ∀ t, result = some t →
    P t) scalar uintptr pointer array
    struct union (fun ts variadic result => func ts variadic result) bytes ?nil ?cons ?none ?some t
  case nil => exact fun t ht => by cases ht
  case cons => exact fun t ts ht hts => List.forall_mem_cons.2 ⟨ht, hts⟩
  case none => exact fun t ht => by cases ht
  case some => exact fun t ht u hu => by cases hu; exact ht

/-- Every Go type is told from its text. -/
theorem spelledApart (t : Ty) : SpelledApart (fun _ => chars) t := by
  induction t using Ty.inductionOn with
  | scalar s =>
    intro _ t' rest rest' _ _ h
    obtain ⟨hword, hbody⟩ := word_inj h
    cases t' <;> cases hword
    exact ⟨rfl, hbody⟩
  | uintptr =>
    intro _ t' rest rest' _ _ h
    obtain ⟨hword, hbody⟩ := word_inj h
    cases t' <;> cases hword
    exact ⟨rfl, hbody⟩
  | pointer t ih =>
    intro index t' rest rest' hrest hrest' h
    obtain ⟨hword, hbody⟩ := word_inj h
    cases t' <;> cases hword
    case pointer t' =>
    obtain ⟨rfl, htail⟩ := ih index t' rest rest' hrest hrest' hbody
    exact ⟨rfl, htail⟩
  | array items t ih =>
    intro index t' rest rest' hrest hrest' h
    obtain ⟨hword, hbody⟩ := word_inj h
    cases t' with
    | array items' t' =>
      obtain ⟨rfl, hitem⟩ := Identifier.toDigits_append_inj (by decide) hbody
      obtain ⟨rfl, htail⟩ := ih index t' rest rest' hrest hrest' hitem
      exact ⟨rfl, htail⟩
    | bytes size =>
      obtain ⟨-, hitem⟩ := Identifier.toDigits_append_inj (by decide) hbody
      exact absurd (congrArg List.head? hitem) (t.head?_chars_ne rest (by decide))
    | _ => cases hword
  | bytes size =>
    intro index t' rest rest' hrest hrest' h
    obtain ⟨hword, hbody⟩ := word_inj h
    cases t' with
    | array items' t' =>
      obtain ⟨-, hitem⟩ := Identifier.toDigits_append_inj (by decide) hbody
      exact absurd (congrArg List.head? hitem).symm (t'.head?_chars_ne rest' (by decide))
    | bytes size' =>
      obtain ⟨rfl, hbyte⟩ := Identifier.toDigits_append_inj (by decide) hbody
      exact ⟨rfl, List.append_cancel_left hbyte⟩
    | _ => cases hword
  | struct fields ih =>
    intro _ t' rest rest' _ _ h
    obtain ⟨hword, hbody⟩ := word_inj h
    cases t' with
    | struct fields' =>
      obtain ⟨rfl, htail⟩ := fields_inj ih hbody
      exact ⟨rfl, htail⟩
    | union members' size' =>
      exact absurd (congrArg List.head? hbody) (head?_fields_ne fields rest)
    | _ => cases hword
  | union members size ih =>
    intro _ t' rest rest' _ _ h
    obtain ⟨hword, hbody⟩ := word_inj h
    cases t' with
    | struct fields' =>
      exact absurd (congrArg List.head? hbody).symm (head?_fields_ne fields' rest')
    | union members' size' =>
      obtain ⟨rfl, hbuffer⟩ := fields_inj ih (List.append_cancel_left hbody)
      obtain ⟨rfl, hbyte⟩ :=
        Identifier.toDigits_append_inj (by decide) (List.append_cancel_left hbuffer)
      exact ⟨rfl, List.append_cancel_left hbyte⟩
    | _ => cases hword
  | func params variadic result hparams hresult =>
    intro _ t' rest rest' hrest hrest' h
    obtain ⟨hword, hbody⟩ := word_inj h
    cases t' with
    | func params' variadic' result' =>
      have hall : ∀ param ∈ allParams params variadic,
          SpelledApart (fun _ => paramChars) param := by
        intro param hparam
        refine spelledApart_param fun t ht => hparams t ?_
        subst ht
        cases variadic <;> simpa [allParams] using hparam
      obtain ⟨hequal, hbehind⟩ :=
        joined_inj (by decide) (by decide) (by decide) (fun _ => head?_paramChars_ne) hall hbody
      obtain ⟨rfl, rfl⟩ := allParams_inj hequal
      obtain ⟨rfl, htail⟩ := resultChars_inj hrest hrest' hresult hbehind
      exact ⟨rfl, htail⟩
    | _ => cases hword

/-- The text of a Go type belongs to no other Go type. -/
theorem text_injective : Function.Injective text := by
  intro t t' h
  have hchars : t.chars ++ [] = t'.chars ++ [] := by rw [chars, chars, h]
  exact (spelledApart t 0 t' [] [] (by simp [Stops]) (by simp [Stops]) hchars).1

end Ty

end StackToGo.Go
