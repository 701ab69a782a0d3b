import StackToGo.Proofs.Go.Grammar
import StackToGo.Proofs.Go.TypeSpelling

/-!
# Texts of phrases

The texts of Go types, expressions and statements are read as phrases of Go. Each construct is read
as the phrase that it is meant to be, if its parts are.
-/

namespace StackToGo.Go

/-- The text is read as a phrase of the given kind. -/
def Spelt (phrase : Phrase) (text : String) : Prop := ∃ ts, Derives phrase ts ∧ Lexed text ts

/-! ## Lists -/

/-- Texts with the same characters are read alike. -/
theorem lexed_of_toList {a b : String} {ts : List String} (h : Lexed a ts)
    (hlist : b.toList = a.toList) : Lexed b ts := by
  intro rest hrest
  rw [hlist]
  exact h rest hrest

/-- Texts with a separator between them are read one by one. -/
theorem lexed_intercalate {separator t : String} (htight : Tight separator [t])
    (hbounded : Bounded separator) {texts : List String} {tss : List (List String)}
    (h : List.Forall₂ Lexed texts tss) :
    Lexed (separator.intercalate texts) ([t].intercalate tss) := by
  induction h with
  | nil =>
    intro rest _
    simp
  | @cons a ts texts tss ha hrest ih =>
    cases hrest with
    | nil => exact lexed_of_toList (by simpa using ha) (by simp)
    | @cons b us texts tss hb hrest =>
      rw [List.intercalate_cons_cons, String.intercalate_cons_cons]
      exact (ha.append_tight hbounded htight).append_lexed ih

/-- Texts that are read as phrases have tokens that are. -/
theorem exists_lexed {phrase : Phrase} {texts : List String}
    (h : ∀ text ∈ texts, Spelt phrase text) :
    ∃ tss, List.Forall₂ Lexed texts tss ∧ ∀ ts ∈ tss, Derives phrase ts := by
  induction texts with
  | nil => exact ⟨[], .nil, fun _ hts => by cases hts⟩
  | cons text texts ih =>
    obtain ⟨⟨ts, hderives, hlexed⟩, hrest⟩ := List.forall_mem_cons.1 h
    obtain ⟨tss, hall, hderives'⟩ := ih hrest
    exact ⟨ts :: tss, .cons hlexed hall, List.forall_mem_cons.2 ⟨hderives, hderives'⟩⟩

/-- Phrases with commas between them. -/
theorem lexed_commas {phrase : Phrase} {texts : List String}
    (h : ∀ text ∈ texts, Spelt phrase text) :
    ∃ tss, Lexed (", ".intercalate texts) ([","].intercalate tss) ∧ ∀ ts ∈ tss,
    Derives phrase ts := by
  obtain ⟨tss, hall, hderives⟩ := exists_lexed h
  exact ⟨tss, lexed_intercalate (tight_of_settled rfl) ⟨',', [' '], rfl, by decide⟩ hall, hderives⟩

/-- Phrases with semicolons between them. -/
theorem lexed_semicolons {phrase : Phrase} {texts : List String}
    (h : ∀ text ∈ texts, Spelt phrase text) :
    ∃ tss, Lexed ("; ".intercalate texts) ([";"].intercalate tss) ∧ ∀ ts ∈ tss,
    Derives phrase ts := by
  obtain ⟨tss, hall, hderives⟩ := exists_lexed h
  exact ⟨tss, lexed_intercalate (tight_of_settled rfl) ⟨';', [' '], rfl, by decide⟩ hall, hderives⟩

/-! ## Names and numbers -/

/-- The digits of a natural number are a number. -/
theorem isNumber_toString (n : Nat) : IsNumber (toString n) := by
  refine .plain (.whole ⟨?_, fun c hc => ?_⟩)
  · rw [Ty.toList_toString]
    exact Nat.toDigits_ne_nil
  · rw [Ty.toList_toString] at hc
    exact Nat.isDigit_of_mem_toDigits (by decide) (by decide) hc

/-- Keywords are in small letters only. -/
theorem not_mem_keywords {t : String} {c : Char} (hc : c ∈ t.toList) (hlower : c.isLower = false) :
    t ∉ keywords := by
  have hall : keywords.all fun k => k.toList.all Char.isLower := by decide
  intro hmem
  rw [List.all_eq_true.1 (List.all_eq_true.1 hall t hmem) c hc] at hlower
  cases hlower

/-- A word with a character that is no small letter is a name. -/
theorem isIdentifier_of {t : String} {first : Char} {rest : List Char}
    (hlist : t.toList = first :: rest) (hdigit : first.isDigit = false) (hfirst : isWordChar first)
    (hrest : ∀ c ∈ rest, isWordChar c) {c : Char} (hc : c ∈ first :: rest)
    (hlower : c.isLower = false) : isIdentifier t := by
  have hkeyword : t ∉ keywords := not_mem_keywords (hlist ▸ hc) hlower
  have hall : rest.all isWordChar := List.all_eq_true.2 hrest
  rw [isIdentifier, hlist]
  simp [hdigit, hfirst, hall, hkeyword]

/-- Digits are word characters. -/
theorem isWordChar_of_mem_toDigits {n : Nat} {c : Char} (hc : c ∈ Nat.toDigits 10 n) :
    isWordChar c :=
  isWordChar_of_isDigit (Nat.isDigit_of_mem_toDigits (by decide) (by decide) hc)

/-- The name of a field is a name. -/
theorem isIdentifier_fieldName (index : Nat) : isIdentifier (fieldName index) := by
  have hlist : (fieldName index).toList = 'X' :: Nat.toDigits 10 index := by
    rw [fieldName, String.toList_append, Ty.toList_toString]
    rfl
  exact isIdentifier_of hlist (by decide) (by decide) (fun c hc => isWordChar_of_mem_toDigits hc)
    List.mem_cons_self (by decide)

/-- A name is one token. -/
theorem lexed_identifier {t : String} (h : isIdentifier t) : Lexed t [t] :=
  (isWord_of_isIdentifier h).lexed

/-- A sign is read on its own, if it does not run into the next character. -/
theorem Lexed.sign (sign : Char) (hsign : isWordChar sign = false) (hblank : sign ≠ ' ')
    {text : String} {ts : List String} (h : Lexed text ts) {c : Char} {more : List Char}
    (hlist : text.toList = c :: more) (hc : [sign, c] ∉ longSymbols) :
    Lexed (String.ofList [sign] ++ text) (String.ofList [sign] :: ts) := by
  intro rest hrest
  have hends : goesOn [sign] c = false := by
    rw [goesOn_symbol hsign]
    simpa using hc
  have hnone : goesOn [] sign = false := rfl
  have hfirst : reading [] [sign] = ([], [sign]) := by simp [reading, hblank, hnone, flush]
  rw [String.toList_append, String.toList_ofList, List.append_assoc, tokensFrom_append, hfirst,
    tokensFrom_of_ended]
  · rw [h rest hrest]
    rfl
  · intro d hd
    rw [hlist] at hd
    cases hd
    exact .inr hends

/-! ## Types -/

/-- A name is a type. -/
theorem spelt_typeName {t : String} (h : isIdentifier t) : Spelt .type t :=
  ⟨[t], .typeName h, lexed_identifier h⟩

/-- The fields of a struct are read as names and types, one by one. -/
theorem exists_fields {fields : List Ty} (h : ∀ t ∈ fields, Spelt .type t.text) (index : Nat) :
    ∃ phrases : List (String × List String), (∀ f ∈ phrases, isIdentifier f.1) ∧
      (∀ f ∈ phrases, Derives .type f.2) ∧
      List.Forall₂ Lexed (Ty.fieldTexts index fields) (phrases.map fun f => f.1 :: f.2) := by
  induction fields generalizing index with
  | nil => exact ⟨[], List.forall_mem_nil _, List.forall_mem_nil _, .nil⟩
  | cons t fields ih =>
    obtain ⟨⟨ts, hderives, hlexed⟩, hrest⟩ := List.forall_mem_cons.1 h
    obtain ⟨phrases, hnames, htypes, hall⟩ := ih hrest (index + 1)
    have hname := isIdentifier_fieldName index
    have hblank : Tight " " [] := tight_of_settled rfl
    have hfield : Lexed (fieldName index ++ " " ++ t.text) (fieldName index :: ts) :=
      ((lexed_identifier hname).append_tight ⟨' ', [], rfl, by decide⟩ hblank).append_lexed hlexed
    exact ⟨(fieldName index, ts) :: phrases, List.forall_mem_cons.2 ⟨hname, hnames⟩,
      List.forall_mem_cons.2 ⟨hderives, htypes⟩, .cons hfield hall⟩

/-- The fields of a struct are read as names and types, with semicolons between them. -/
theorem lexed_fields {fields : List Ty} (h : ∀ t ∈ fields, Spelt .type t.text) :
    ∃ phrases : List (String × List String), (∀ f ∈ phrases, isIdentifier f.1) ∧
      (∀ f ∈ phrases, Derives .type f.2) ∧
      Lexed ("; ".intercalate (Ty.fieldTexts 0 fields))
        ([";"].intercalate (phrases.map fun f => f.1 :: f.2)) := by
  obtain ⟨phrases, hnames, htypes, hall⟩ := exists_fields h 0
  exact ⟨phrases, hnames, htypes, lexed_intercalate (tight_of_settled rfl)
    ⟨';', [' '], rfl, by decide⟩ hall⟩

/-- The length of an array, between its brackets. -/
theorem tight_length (items : Nat) :
    Tight ("[" ++ toString items ++ "]") ["[", toString items, "]"] := by
  have hopen : Tight "[" ["["] := tight_of_settled rfl
  have hclose : Tight "]" ["]"] := tight_of_settled rfl
  exact (hopen.append_lexed (isNumber_toString items).lexed).append_tight
    ⟨']', [], rfl, by decide⟩ hclose

/-- The parameters of a function are read as parameters. -/
theorem spelt_parameters {params : List Ty} (h : ∀ t ∈ params, Spelt .type t.text)
    (variadic : Bool) :
    ∀ text ∈ Ty.texts params ++ (if variadic then [variadicParam] else []),
    Spelt .parameter text := by
  intro text htext
  rcases List.mem_append.1 htext with htext | htext
  · rw [Ty.texts_eq_map] at htext
    obtain ⟨t, ht, rfl⟩ := List.mem_map.1 htext
    obtain ⟨ts, hderives, hlexed⟩ := h t ht
    exact ⟨ts, .parameter hderives, hlexed⟩
  · cases variadic with
    | false => cases htext
    | true =>
      obtain rfl := List.mem_singleton.1 htext
      have htight : Tight variadicParam ["...", "interface", "\x7b", "\x7d"] :=
        tight_of_settled rfl
      exact ⟨_, .variadic .anything, htight.lexed⟩

/-- The text of every type is read as a type. -/
theorem spelt_type (t : Ty) : Spelt .type t.text := by
  induction t using Ty.inductionOn with
  | scalar s =>
    show Spelt .type (scalarName s)
    cases s <;> exact spelt_typeName (by decide)
  | uintptr => exact spelt_typeName (t := "uintptr") (by decide)
  | pointer t ih =>
    obtain ⟨ts, hderives, hlexed⟩ := ih
    obtain ⟨c, rest, hword, hc⟩ := t.word.head_mem
    have hlist : t.text.toList = c :: (rest ++ t.body []) := by
      have hchars := t.chars_append []
      rw [List.append_nil, hword] at hchars
      exact hchars
    have hapart : ['*', c] ∉ longSymbols := by
      simp only [List.mem_cons, List.not_mem_nil, or_false] at hc
      rcases hc with rfl | rfl | rfl | rfl | rfl | rfl | rfl <;> decide
    exact ⟨_, .pointer hderives, hlexed.sign '*' (by decide) (by decide) hlist hapart⟩
  | array items t ih =>
    obtain ⟨ts, hderives, hlexed⟩ := ih
    exact ⟨_, .array (isNumber_toString items) hderives, (tight_length items).append_lexed hlexed⟩
  | struct fields ih =>
    obtain ⟨phrases, hnames, htypes, hlexed⟩ := lexed_fields ih
    have hopen : Tight "struct\x7b" ["struct", "\x7b"] := tight_of_settled rfl
    have hclose : Tight "\x7d" ["\x7d"] := tight_of_settled rfl
    have hall := (hopen.append_lexed hlexed).append_tight ⟨'\x7d', [], rfl, by decide⟩ hclose
    exact ⟨_, .struct hnames htypes, hall.lexed⟩
  | union members size ih =>
    obtain ⟨phrases, hnames, htypes, hlexed⟩ := lexed_fields ih
    have hopen :
        Tight "struct\x7b_ [0]struct\x7b" ["struct", "\x7b", "_", "[", "0", "]",
          "struct", "\x7b"] :=
      tight_of_settled rfl
    have hmiddle : Tight "\x7d; U [" ["\x7d", ";", "U", "["] := tight_of_settled rfl
    have hclose : Tight "]byte\x7d" ["]", "byte", "\x7d"] := tight_of_settled rfl
    have hmembers := (hopen.append_lexed hlexed).append_tight ⟨'\x7d', _, rfl, by decide⟩ hmiddle
    have hall :=
      (hmembers.append_lexed (isNumber_toString size).lexed).append_tight
        ⟨']', _, rfl, by decide⟩ hclose
    have hbuffer : Derives .type ["[", toString size, "]", "byte"] :=
      .array (isNumber_toString size) (.typeName (by decide))
    have hnames' : ∀ f ∈ [("_", "[" :: "0" :: "]" :: "struct" :: "\x7b" ::
        ([";"].intercalate (phrases.map fun f => f.1 :: f.2) ++ ["\x7d"])),
          ("U", ["[", toString size, "]", "byte"])],
        isIdentifier f.1 := by simp; decide
    refine ⟨_, .struct hnames' ?_, ?_⟩
    · simp only [List.forall_mem_cons, List.not_mem_nil, false_implies, implies_true, and_true]
      exact ⟨.array (isNumber_toString 0) (.struct hnames htypes), hbuffer⟩
    · show Lexed ("struct\x7b_ [0]struct\x7b" ++ "; ".intercalate (Ty.fieldTexts 0 members) ++
          "\x7d; U [" ++
        toString size ++ "]byte\x7d") _
      simpa using hall.lexed
  | func params variadic result ih ih' =>
    obtain ⟨tss, hlexed, hparameters⟩ := lexed_commas (spelt_parameters ih variadic)
    have hopen : Tight "func(" ["func", "("] := tight_of_settled rfl
    have hclose : Tight ")" [")"] := tight_of_settled rfl
    have hhead := (hopen.append_lexed hlexed).append_tight ⟨')', [], rfl, by decide⟩ hclose
    obtain ⟨results, hresults, hlexed'⟩ :
        ∃ results, Derives .results results ∧ Lexed (Ty.resultText result) results := by
      cases result with
      | none =>
        have hnone : Tight "" [] := tight_of_settled rfl
        exact ⟨[], .noResult, hnone.lexed⟩
      | some t =>
        obtain ⟨ts, hderives, hlexed⟩ := ih' t rfl
        have hblank : Tight " " [] := tight_of_settled rfl
        exact ⟨ts, .oneResult hderives, hblank.append_lexed hlexed⟩
    refine ⟨_, .function hparameters hresults, ?_⟩
    show Lexed ("func(" ++ ", ".intercalate (Ty.texts params ++ if variadic then [variadicParam]
        else []) ++ ")" ++
      Ty.resultText result) _
    simpa using hhead.append_lexed hlexed'
  | bytes size =>
    have hbyte : isIdentifier "byte" := by decide
    refine ⟨_, .array (isNumber_toString size) (.typeName hbyte), ?_⟩
    refine lexed_of_toList ((tight_length size).append_lexed (lexed_identifier hbyte)) ?_
    show ("[" ++ toString size ++ "]byte").toList = _
    simp

/-! ## Operands -/

/-- The text begins with a letter, an underscore or a bracket. -/
def Opens (text : String) : Prop := ∃ c rest, text.toList = c :: rest ∧ (isWordChar c ∨ c = '(')

/-- More text behind leaves the beginning. -/
theorem Opens.append {a : String} (h : Opens a) (b : String) : Opens (a ++ b) := by
  obtain ⟨c, rest, hlist, hc⟩ := h
  exact ⟨c, rest ++ b.toList, by rw [String.toList_append, hlist]; rfl, hc⟩

/-- The text is read as a primary phrase. -/
structure PrimaryText (text : String) : Prop where
  spelt : Spelt .primary text
  opens : Opens text

/-- The text is read as an operand. -/
inductive OperandText : String → Prop
  | plain {text : String} (h : PrimaryText text) : OperandText text
  | address {text : String} (h : PrimaryText text) : OperandText ("&" ++ text)

/-- No symbol of two characters ends with a letter or a bracket. -/
theorem not_mem_longSymbols {c : Char} (hc : isWordChar c ∨ c = '(') (sign : Char) :
    [sign, c] ∉ longSymbols := by
  have hall : longSymbols.all fun symbol => symbol.getLast?.all fun c =>
      !isWordChar c && c != '(' := by decide
  intro hmem
  obtain ⟨hword, hbracket⟩ : isWordChar c = false ∧ c ≠ '(' :=
    by simpa using List.all_eq_true.1 hall _ hmem
  rcases hc with hc | hc
  · rw [hword] at hc
    cases hc
  · exact hbracket hc

/-- A sign in front of a primary phrase is a token of its own. -/
theorem PrimaryText.sign {text : String} (h : PrimaryText text) (sign : Char)
    (hsign : isWordChar sign = false) (hblank : sign ≠ ' ') {ts : List String}
    (hlexed : Lexed text ts) :
    Lexed (String.ofList [sign] ++ text) (String.ofList [sign] :: ts) := by
  obtain ⟨c, rest, hlist, hc⟩ := h.opens
  exact hlexed.sign sign hsign hblank hlist (not_mem_longSymbols hc sign)

/-- The tokens of the text of an operand are an operand. -/
theorem OperandText.exists_lexed {text : String} (h : OperandText text) :
    ∃ ts, IsOperand ts ∧ Lexed text ts := by
  cases h with
  | plain h =>
    obtain ⟨ts, hderives, hlexed⟩ := h.spelt
    exact ⟨ts, .primary hderives, hlexed⟩
  | address h =>
    obtain ⟨ts, hderives, hlexed⟩ := h.spelt
    exact ⟨_, .address hderives, h.sign '&' (by decide) (by decide) hlexed⟩

/-- The text of an operand has the tokens of one. -/
theorem OperandText.isOperand {text : String} (h : OperandText text) :
    IsOperand (tokens text) := by
  obtain ⟨ts, hoperand, hlexed⟩ := h.exists_lexed
  rwa [hlexed.tokens_eq]

/-- An operand is a unary phrase. -/
theorem OperandText.unary {text : String} (h : OperandText text) : Spelt .unary text := by
  obtain ⟨ts, hoperand, hlexed⟩ := h.exists_lexed
  exact ⟨ts, hoperand.unary, hlexed⟩

/-- A unary phrase is an expression of every level. -/
theorem Spelt.term {text : String} (h : Spelt .unary text) (level : Nat) :
    Spelt (.expression level) text := by
  obtain ⟨ts, hderives, hlexed⟩ := h
  exact ⟨ts, .term hderives, hlexed⟩

/-- An operand is an expression of every level. -/
theorem OperandText.expression {text : String} (h : OperandText text) (level : Nat) :
    Spelt (.expression level) text :=
  h.unary.term level

/-- A primary phrase is an expression of every level. -/
theorem PrimaryText.expression {text : String} (h : PrimaryText text) (level : Nat) :
    Spelt (.expression level) text :=
  (OperandText.plain h).expression level

/-- A sign other than `&` before an operand. -/
theorem OperandText.signed {text : String} (h : OperandText text) {sign : Char}
    (hsign : sign ∈ ['-', '^', '*']) (level : Nat) :
    Spelt (.expression level) (String.ofList [sign] ++ text) := by
  have hword : isWordChar sign = false ∧ sign ≠ ' ' ∧ String.ofList [sign] ∈ unaryOperators ∧
      [sign, '&'] ∉ longSymbols := by
    simp only [List.mem_cons, List.not_mem_nil, or_false] at hsign
    rcases hsign with rfl | rfl | rfl <;> decide
  obtain ⟨hsymbol, hblank, hop, hapart⟩ := hword
  cases h with
  | plain h =>
    obtain ⟨ts, hderives, hlexed⟩ := h.spelt
    exact ⟨_, .term (.sign hop (.operand hderives)), h.sign sign hsymbol hblank hlexed⟩
  | @address text h =>
    obtain ⟨ts, hderives, hlexed⟩ := h.spelt
    have haddress := h.sign '&' (by decide) (by decide) hlexed
    have hlist : ("&" ++ text).toList = '&' :: text.toList := by simp
    exact ⟨_, .term (.sign hop (.sign (by decide) (.operand hderives))),
      haddress.sign sign hsymbol hblank hlist hapart⟩

/-! ## Expressions -/

section

variable {x y f : Expr} {t name package : String}

/-- A name begins with a letter or an underscore. -/
theorem opens_of_isIdentifier (h : isIdentifier t) : Opens t := by
  obtain ⟨first, rest, hlist, -, hfirst, -⟩ := isWord_of_isIdentifier h
  exact ⟨first, rest, hlist, .inl hfirst⟩

/-- A name is a primary phrase. -/
theorem primary_name (h : isIdentifier name) : PrimaryText (Expr.name name).text :=
  ⟨⟨[name], .name h, lexed_identifier h⟩, opens_of_isIdentifier h⟩

/-- The name `nil` is a primary phrase. -/
theorem primary_nil : PrimaryText Expr.nil.text :=
  have hname : PrimaryText (Expr.name "nil").text := primary_name (by decide)
  hname

/-- A name behind a point. -/
theorem lexed_selector (h : isIdentifier name) : Lexed ("." ++ name) [".", name] := by
  obtain ⟨c, rest, hlist, hc⟩ := opens_of_isIdentifier h
  exact (lexed_identifier h).sign '.' (by decide) (by decide) hlist (not_mem_longSymbols hc '.')

/-- A name of a package is a primary phrase. -/
theorem primary_qualified (hp : isIdentifier package) (hn : isIdentifier name) :
    PrimaryText (Expr.select (.name package) name).text := by
  refine ⟨⟨_, .select (.name hp) hn, fun rest hrest => ?_⟩,
    ((opens_of_isIdentifier hp).append ".").append name⟩
  show tokensFrom [] ((package ++ "." ++ name).toList ++ rest) = _
  rw [String.append_assoc, String.toList_append, List.append_assoc,
    (isWord_of_isIdentifier hp).tokensFrom_append, lexed_selector hn rest hrest]
  · rfl
  · intro c hc
    rw [String.toList_append] at hc
    cases hc
    decide

/-- An expression between brackets. -/
theorem tight_paren {text : String} {ts : List String} (h : Lexed text ts) :
    Tight ("(" ++ text ++ ")") ("(" :: (ts ++ [")"])) := by
  have hopen : Tight "(" ["("] := tight_of_settled rfl
  have hclose : Tight ")" [")"] := tight_of_settled rfl
  exact (hopen.append_lexed h).append_tight ⟨')', [], rfl, by decide⟩ hclose

/-- A parenthesis is a bracket to begin with. -/
theorem opens_paren (a b : String) : Opens ("(" ++ a ++ b) :=
  Opens.append (Opens.append ⟨'(', [], rfl, .inr rfl⟩ a) b

/-- An expression in parentheses is a primary phrase. -/
theorem primary_paren (h : Spelt (.expression 1) x.text) : PrimaryText (Expr.paren x).text := by
  obtain ⟨ts, hderives, hlexed⟩ := h
  exact ⟨⟨_, .paren hderives, (tight_paren hlexed).lexed⟩, opens_paren _ _⟩

/-- A field of an expression in parentheses is a primary phrase. -/
theorem primary_selectParen (h : Spelt (.expression 1) x.text) (hn : isIdentifier name) :
    PrimaryText (Expr.select (.paren x) name).text := by
  obtain ⟨ts, hderives, hlexed⟩ := h
  refine ⟨⟨_, .select (.paren hderives) hn, ?_⟩, ((opens_paren _ _).append ".").append name⟩
  refine lexed_of_toList ((tight_paren hlexed).append_lexed (lexed_selector hn)) ?_
  show ("(" ++ x.text ++ ")" ++ "." ++ name).toList = _
  simp

/-- An item of a primary phrase is a primary phrase. -/
theorem primary_index (h : PrimaryText x.text) (place : Nat) :
    PrimaryText (Expr.index x place).text := by
  obtain ⟨ts, hderives, hlexed⟩ := h.spelt
  have hplace := tight_length place
  refine ⟨⟨_, .index hderives (.term (.number (isNumber_toString place))), ?_⟩,
    ((h.opens.append "[").append _).append "]"⟩
  have hbounded : Bounded ("[" ++ toString place ++ "]") :=
    .append (.append ⟨'[', [], rfl, by decide⟩ _) _
  refine lexed_of_toList (hlexed.append hbounded hplace.lexed) ?_
  show (x.text ++ "[" ++ toString place ++ "]").toList = _
  simp

/-- The arguments of a call. -/
theorem lexed_arguments {args : List Expr} (h : ∀ x ∈ args, Spelt (.expression 1) x.text) :
    ∃ tss, Tight ("(" ++ ", ".intercalate (Expr.texts args) ++ ")")
      ("(" :: ([","].intercalate tss ++ [")"])) ∧
      ∀ ts ∈ tss, Derives (.expression 1) ts := by
  have htexts : ∀ text ∈ Expr.texts args, Spelt (.expression 1) text := by
    intro text htext
    rw [Expr.texts_eq_map] at htext
    obtain ⟨x, hx, rfl⟩ := List.mem_map.1 htext
    exact h x hx
  obtain ⟨tss, hlexed, hderives⟩ := lexed_commas htexts
  exact ⟨tss, tight_paren hlexed, hderives⟩

/-- A parenthesis ends what is before it. -/
theorem bounded_paren (a b : String) : Bounded ("(" ++ a ++ b) :=
  .append (.append ⟨'(', [], rfl, by decide⟩ a) b

/-- A call of a primary phrase is a primary phrase. -/
theorem primary_call (hf : PrimaryText f.text) {args : List Expr}
    (h : ∀ x ∈ args, Spelt (.expression 1) x.text) :
    PrimaryText (Expr.call f args).text := by
  obtain ⟨ts, hderives, hlexed⟩ := hf.spelt
  obtain ⟨tss, htight, hargs⟩ := lexed_arguments h
  refine ⟨⟨_, .call hderives hargs, ?_⟩, ((hf.opens.append "(").append _).append ")"⟩
  refine lexed_of_toList (hlexed.append (bounded_paren _ _) htight.lexed) ?_
  show (f.text ++ "(" ++ ", ".intercalate (Expr.texts args) ++ ")").toList = _
  simp

/-- A call of a name is a primary phrase. -/
theorem primary_callName (hname : isIdentifier name) {args : List Expr}
    (h : ∀ x ∈ args, Spelt (.expression 1) x.text) :
    PrimaryText (Expr.callName name args).text := primary_call (primary_name hname) h

/-- Is the text of the type a name? -/
def Ty.isNamed : Ty → Bool
  | .scalar _ | .uintptr => true
  | _ => false

/-- The text of a named type is a name. -/
theorem isIdentifier_of_isNamed {t : Ty} (h : t.isNamed) : isIdentifier t.text := by
  cases t with
  | scalar s =>
    show isIdentifier (scalarName s)
    cases s <;> decide
  | uintptr => exact (by decide : isIdentifier "uintptr")
  | _ => cases h

/-- A conversion to a type whose text is a name has the text of a call. -/
theorem primary_convert {t : Ty} (ht : t.isNamed) (h : Spelt (.expression 1) x.text) :
    PrimaryText (Expr.convert t x).text := by
  have hcall : PrimaryText (Expr.callName t.text [x]).text :=
    primary_callName (isIdentifier_of_isNamed ht) (by simpa using h)
  have htext : (Expr.callName t.text [x]).text = (Expr.convert t x).text := by
    show t.text ++ "(" ++ ", ".intercalate [x.text] ++ ")" = t.text ++ "(" ++ x.text ++ ")"
    simp
  rwa [htext] at hcall

/-- A conversion is a primary phrase. -/
theorem primary_cast (t : Ty) (h : Spelt (.expression 1) x.text) :
    PrimaryText (Expr.cast t x).text := by
  obtain ⟨ts, hderives, hlexed⟩ := spelt_type t
  obtain ⟨us, hderives', hlexed'⟩ := h
  refine ⟨⟨_, .conversion hderives hderives', ?_⟩, ((opens_paren _ ")(").append _).append ")"⟩
  have hall := (tight_paren hlexed).append (tight_paren hlexed')
  have htext : "(" ++ t.text ++ ")(" ++ x.text ++ ")" =
      "(" ++ t.text ++ ")" ++ ("(" ++ x.text ++ ")") := by
    rw [← String.toList_inj]
    simp
  show Lexed ("(" ++ t.text ++ ")(" ++ x.text ++ ")") _
  rw [htext]
  simpa using hall.lexed

/-! ### Numbers -/

/-- A number is a unary phrase. -/
theorem spelt_number (h : IsNumber t) : Spelt .unary t := ⟨[t], .number h, h.lexed⟩

/-- A minus before a number. -/
theorem spelt_minus (h : IsNumber t) : Spelt .unary ("-" ++ t) := by
  obtain ⟨first, more, hlist, hfirst, -⟩ := h.reading_eq
  have hapart := not_mem_longSymbols (.inl (isWordChar_of_isDigit hfirst)) '-'
  exact ⟨_, .sign (by decide) (.number h), h.lexed.sign '-' (by decide) (by decide) hlist hapart⟩

/-- An integer, with its sign, is a unary phrase. -/
theorem spelt_int (value : Int) : Spelt .unary (Expr.int value).text := by
  show Spelt .unary (toString value)
  cases value with
  | ofNat n => exact spelt_number (isNumber_toString n)
  | negSucc n => exact spelt_minus (isNumber_toString (n + 1))

/-- A hexadecimal integer is a unary phrase. -/
theorem spelt_hex {width : Nat} (h : 0 < width) (bits : Nat) :
    Spelt .unary (Expr.hex width bits).text := by
  have htext : (Expr.hex width bits).text.toList = '0' :: 'x' :: Text.hexNumber width bits := by
    show ("0x" ++ String.ofList (Text.hexNumber width bits)).toList = _
    simp
  refine spelt_number (.hex htext (List.ne_nil_of_length_pos (by simpa using h)) fun c hc => ?_)
  simp only [Text.hexNumber, List.mem_map] at hc
  obtain ⟨place, -, rfl⟩ := hc
  exact Text.isAlphanum_hexDigit bits place

/-- The digits of a natural number are digits. -/
theorem areDigits_toDigits (n : Nat) : AreDigits (Nat.toDigits 10 n) :=
  ⟨Nat.toDigits_ne_nil, fun _ hc => Nat.isDigit_of_mem_toDigits (by decide) (by decide) hc⟩

/-- A zero is a digit. -/
theorem areDigits_zero : AreDigits ['0'] := areDigits_toDigits 0

/-- Zeros are digits. -/
theorem isDigit_of_mem_replicate {c : Char} {n : Nat} (h : c ∈ List.replicate n '0') :
    c.isDigit := by
  rw [List.eq_of_mem_replicate h]
  rfl

/-- A mantissa with an exponent. -/
theorem isNumber_scaled {mantissa : List Char} (h : IsMantissa mantissa) (exponent : Int) :
    IsNumber (String.ofList mantissa ++ "e" ++ toString exponent) := by
  cases exponent with
  | ofNat n =>
    refine .scaled ?_ h (areDigits_toDigits n)
    show (String.ofList mantissa ++ "e" ++ toString n).toList = _
    simp
  | negSucc n =>
    refine .scaledDown ?_ h (areDigits_toDigits (n + 1))
    show (String.ofList mantissa ++ "e" ++ ("-" ++ toString (n + 1))).toList = _
    simp

/-- A decimal number is a number literal. -/
theorem isNumber_decimal (d : Number.Decimal) : IsNumber d.text := by
  have hdigits := areDigits_toDigits d.digits
  unfold Number.Decimal.text
  generalize Nat.toDigits 10 d.digits = digits at hdigits
  dsimp only
  split
  · split
    · refine .plain ?_
      rw [String.toList_ofList]
      refine .point ⟨by simp [hdigits.1], fun c hc => ?_⟩ (by simp)
      rcases List.mem_append.1 hc with hc | hc
      · exact hdigits.2 c hc
      · exact isDigit_of_mem_replicate hc
    · split
      · rename_i hleading
        refine .plain ?_
        rw [String.toList_ofList]
        refine .point ⟨?_, fun c hc => hdigits.2 c (List.mem_of_mem_take hc)⟩ fun c hc =>
          hdigits.2 c (List.mem_of_mem_drop hc)
        simp only [ne_eq, List.take_eq_nil_iff, hdigits.1, or_false]
        omega
      · refine .plain ?_
        rw [String.toList_ofList]
        refine .point areDigits_zero fun c hc => ?_
        rcases List.mem_append.1 hc with hc | hc
        · exact isDigit_of_mem_replicate hc
        · exact hdigits.2 c hc
  · refine isNumber_scaled ?_ _
    rcases digits with _ | ⟨c, _ | ⟨e, digits⟩⟩
    · exact absurd rfl hdigits.1
    · exact .whole hdigits
    · obtain ⟨hc, hrest⟩ := List.forall_mem_cons.1 hdigits.2
      have hfirst : AreDigits [c] := ⟨by simp, by simpa using hc⟩
      exact .point hfirst hrest

/-- A float that is a number is written as one, behind a minus if it is negative. -/
theorem spelt_float {format : Number.Format} {bits : Nat} (h : format.isFinite bits) :
    Spelt .unary (Expr.float (format.text bits)).text := by
  show Spelt .unary (format.text bits)
  unfold Number.Format.isFinite at h
  unfold Number.Format.text
  cases hdatum : format.decode bits with
  | finite negative m scale =>
    have hbody : IsNumber (if m = 0 then "0.0" else (Number.shortest format m scale).text) := by
      split
      · exact .plain (.point areDigits_zero areDigits_zero.2)
      · exact isNumber_decimal _
    dsimp only
    split
    · exact spelt_minus hbody
    · exact spelt_number hbody
  | _ =>
    rw [hdatum] at h
    cases h

/-! ### Operators -/

/-- How tight an operator binds. -/
def Operator.level : Operator → Nat
  | .logicalOr => 1
  | .logicalAnd => 2
  | .eq | .neq | .lt | .leq | .gt | .geq => 3
  | .add | .sub | .or | .xor => 4
  | .mul | .div | .rem | .and | .lsh | .rsh | .scale => 5

/-- Operators bind as tight as the grammar says. -/
theorem precedence?_symbol (op : Operator) : precedence? op.symbol = some op.level := by
  cases op <;> rfl

/-- A binary expression, if its operands bind tighter, or on the left side as tight. -/
theorem spelt_binary {op : Operator} (hop : op ≠ .scale) {level : Nat} (hlevel : level ≤ op.level)
    (hx : Spelt (.expression op.level) x.text) (hy : Spelt (.expression (op.level + 1)) y.text) :
    Spelt (.expression level) (Expr.binary op x y).text := by
  obtain ⟨ts, hderives, hlexed⟩ := hx
  obtain ⟨us, hderives', hlexed'⟩ := hy
  have htight : Tight op.text [op.symbol] ∧ Bounded op.text := by
    cases op
    case scale => exact absurd rfl hop
    all_goals exact ⟨tight_of_settled rfl, ' ', _, rfl, by decide⟩
  refine ⟨_, .binary (precedence?_symbol op) hlevel hderives hderives', ?_⟩
  show Lexed (x.text ++ op.text ++ y.text) _
  simpa using (hlexed.append_tight htight.2 htight.1).append_lexed hlexed'

/-- A number times something, without blanks. -/
theorem spelt_scale (hx : Spelt .unary x.text) (hy : PrimaryText y.text) {level : Nat}
    (hlevel : level ≤ 5) : Spelt (.expression level) (Expr.binary .scale x y).text := by
  obtain ⟨ts, hderives, hlexed⟩ := hx
  obtain ⟨us, hderives', hlexed'⟩ := hy.spelt
  have htimes := hy.sign '*' (by decide) (by decide) hlexed'
  have htimes? : precedence? "*" = some 5 := rfl
  refine ⟨_, .binary htimes? hlevel (.term hderives) (.term (.operand hderives')), ?_⟩
  refine lexed_of_toList (hlexed.append (.append ⟨'*', [], rfl, by decide⟩ _) htimes) ?_
  show (x.text ++ "*" ++ y.text).toList = _
  simp

/-! ### Statements and functions -/

variable {s last : Stmt} {body : List Stmt}

/-- An expression is a statement. -/
theorem spelt_eval (h : Spelt (.expression 1) x.text) : Spelt .statement (Stmt.eval x).text := by
  obtain ⟨ts, hderives, hlexed⟩ := h
  exact ⟨ts, .evaluation hderives, hlexed⟩

/-- The assignment of an expression to the blank name is a statement. -/
theorem spelt_discard (h : Spelt (.expression 1) x.text) :
    Spelt .statement (Stmt.discard x).text := by
  obtain ⟨ts, hderives, hlexed⟩ := h
  have htight : Tight "_ = " ["_", "="] := tight_of_settled rfl
  exact ⟨_, .assignment (by decide) hderives, htight.append_lexed hlexed⟩

/-- The definition of a variable is a statement. -/
theorem spelt_define (hname : isIdentifier name) (h : Spelt (.expression 1) x.text) :
    Spelt .statement (Stmt.define name x).text := by
  obtain ⟨ts, hderives, hlexed⟩ := h
  have htight : Tight " := " [":="] := tight_of_settled rfl
  exact ⟨_, .definition hname hderives,
    ((lexed_identifier hname).append_tight ⟨' ', _, rfl, by decide⟩ htight).append_lexed hlexed⟩

/-- A return is a statement. -/
theorem spelt_ret {xs : List Expr} (h : ∀ x ∈ xs, Spelt (.expression 1) x.text) :
    Spelt .statement (Stmt.ret xs).text := by
  have htexts : ∀ text ∈ Expr.texts xs, Spelt (.expression 1) text := by
    intro text htext
    rw [Expr.texts_eq_map] at htext
    obtain ⟨x, hx, rfl⟩ := List.mem_map.1 htext
    exact h x hx
  obtain ⟨tss, hlexed, hderives⟩ := lexed_commas htexts
  have htight : Tight "return " ["return"] := tight_of_settled rfl
  exact ⟨_, .exit hderives, htight.append_lexed hlexed⟩

/-- A conditional return is a statement. -/
theorem spelt_returnIf (h : Spelt (.expression 1) x.text) (h' : Spelt (.expression 1) y.text) :
    Spelt .statement (Stmt.returnIf x y).text := by
  obtain ⟨ts, hderives, hlexed⟩ := h
  obtain ⟨us, hderives', hlexed'⟩ := h'
  have hif : Tight "if " ["if"] := tight_of_settled rfl
  have hreturn : Tight " \x7b return " ["\x7b", "return"] := tight_of_settled rfl
  have hclose : Tight " \x7d" ["\x7d"] := tight_of_settled rfl
  have hbody : ∀ s ∈ ["return" :: [","].intercalate [us]], Derives .statement s := by
    simp only [List.mem_singleton, forall_eq]
    exact .exit (by simpa using hderives')
  refine ⟨_, .branch hderives hbody, ?_⟩
  have hhead := (hif.append_lexed hlexed).append_tight ⟨' ', _, rfl, by decide⟩ hreturn
  show Lexed ("if " ++ x.text ++ " \x7b return " ++ y.text ++ " \x7d") _
  simpa using ((hhead.append_lexed hlexed').append_tight ⟨' ', _, rfl, by decide⟩ hclose).lexed

/-- The results of a function are read as results. -/
theorem spelt_results (results : List Ty) :
    ∃ ts, Derives .results ts ∧ Lexed (resultsText results) ts := by
  rcases results with _ | ⟨t, _ | ⟨u, results⟩⟩
  · have hnone : Tight "" [] := tight_of_settled rfl
    exact ⟨[], .noResult, hnone.lexed⟩
  · obtain ⟨ts, hderives, hlexed⟩ := spelt_type t
    have hblank : Tight " " [] := tight_of_settled rfl
    exact ⟨ts, .oneResult hderives, hblank.append_lexed hlexed⟩
  · have htexts : ∀ text ∈ (t :: u :: results).map Ty.text, Spelt .type text := by
      intro text htext
      obtain ⟨t, -, rfl⟩ := List.mem_map.1 htext
      exact spelt_type t
    obtain ⟨tss, hlexed, hderives⟩ := lexed_commas htexts
    have hopen : Tight " (" ["("] := tight_of_settled rfl
    have hclose : Tight ")" [")"] := tight_of_settled rfl
    exact ⟨_, .manyResults hderives,
      ((hopen.append_lexed hlexed).append_tight ⟨')', [], rfl, by decide⟩ hclose).lexed⟩

/-- One more phrase behind others that are separated. -/
theorem intercalate_concat {separator : List String} (first : List String)
    (rest : List (List String)) (ts : List String) :
    separator.intercalate (first :: rest ++ [ts]) =
      separator.intercalate (first :: rest) ++ (separator ++ ts) := by
  induction rest generalizing first with
  | nil => simp [List.intercalate_cons_cons]
  | cons second rest ih =>
    rw [List.cons_append, List.cons_append, List.intercalate_cons_cons, ← List.cons_append, ih,
      List.intercalate_cons_cons]
    simp

/-- The statements of a function; one is empty if there is none before the last. -/
theorem exists_statements {tss : List (List String)} {ts : List String}
    (h : ∀ s ∈ tss, Derives .statement s) (hlast : Derives .statement ts) :
    ∃ all, (∀ s ∈ all, Derives .statement s) ∧
      [";"].intercalate all = [";"].intercalate tss ++ ";" :: ts := by
  cases tss with
  | nil => exact ⟨[[], ts], by simpa using ⟨.nothing, hlast⟩, by simp [List.intercalate]⟩
  | cons first rest =>
    refine ⟨first :: rest ++ [ts], ?_, ?_⟩
    · intro s hs
      rcases List.mem_append.1 hs with hs | hs
      · exact h s hs
      · rw [List.mem_singleton.1 hs]
        exact hlast
    · rw [intercalate_concat]
      rfl

/-- The call of a function literal is a primary phrase. -/
theorem primary_invoke (results : List Ty) (hbody : ∀ s ∈ body, Spelt .statement s.text)
    (hlast : Spelt .statement last.text) : PrimaryText (Expr.invoke results body last).text := by
  have htexts : ∀ text ∈ Stmt.texts body, Spelt .statement text := by
    intro text htext
    rw [Stmt.texts_eq_map] at htext
    obtain ⟨s, hs, rfl⟩ := List.mem_map.1 htext
    exact hbody s hs
  obtain ⟨rs, hresults, hlexed⟩ := spelt_results results
  obtain ⟨tss, hlexed', hstatements⟩ := lexed_semicolons htexts
  obtain ⟨ts, hderives, hlexed''⟩ := hlast
  obtain ⟨all, hall, hintercalate⟩ := exists_statements hstatements hderives
  have hfunc : Tight "func()" ["func", "(", ")"] := tight_of_settled rfl
  have hopen : Tight " \x7b " ["\x7b"] := tight_of_settled rfl
  have hnext : Tight "; " [";"] := tight_of_settled rfl
  have hclose : Tight " \x7d()" ["\x7d", "(", ")"] := tight_of_settled rfl
  have hhead := (hfunc.append_lexed hlexed).append_tight ⟨' ', _, rfl, by decide⟩ hopen
  have hfront := (hhead.append_lexed hlexed').append_tight ⟨';', _, rfl, by decide⟩ hnext
  have hwhole := (hfront.append_lexed hlexed'').append_tight ⟨' ', _, rfl, by decide⟩ hclose
  refine ⟨⟨_, .invoke (.literal hresults hall) (List.forall_mem_nil _), ?_⟩, ?_⟩
  · show Lexed ("func()" ++ resultsText results ++ " \x7b " ++
        "; ".intercalate (Stmt.texts body) ++ "; " ++ last.text ++
      " \x7d()") _
    rw [hintercalate]
    simpa using hwhole.lexed
  · show Opens ("func()" ++ resultsText results ++ " \x7b " ++
        "; ".intercalate (Stmt.texts body) ++ "; " ++ last.text ++
      " \x7d()")
    have hopens : Opens "func()" := ⟨'f', _, rfl, .inl (by decide)⟩
    exact ((((((hopens.append _).append _).append _).append _).append _).append _)

end

end StackToGo.Go
