import Mathlib.Data.List.Basic
import StackToGo.Proofs.Go.Tokens

/-!
# Phrases of Go

The part of Go's grammar that written code uses, over lists of tokens (`Derives`). Operators bind
as in Go: the operands of one are put together by tighter operators, and to its left by operators
that bind like it.

An operand that stands between other tokens should be read as a whole. `separators` reads tokens
without knowing any phrase and finds what separates operands outside of all brackets: operators,
commas and semicolons behind the end of an operand. One operand by itself has none
(`IsOperand.separators_eq`), so whatever stands around it, no expression ends inside of it
(`not_regrouped`).
-/

namespace StackToGo.Go

/-! ## Phrases -/

def keywords : List String :=
  ["break", "case", "chan", "const", "continue", "default", "defer", "else", "fallthrough", "for",
    "func", "go", "goto", "if", "import", "interface", "map", "package", "range", "return",
    "select", "struct", "switch", "type", "var"]

/-- Is it a name that is no keyword? -/
def isIdentifier (t : String) : Bool :=
  match t.toList with
  | [] => false
  | first :: rest => !first.isDigit && isWordChar first && rest.all isWordChar && !(t ∈ keywords)

/-- The operators with one operand. -/
def unaryOperators : List String := ["+", "-", "!", "^", "*", "&", "<-"]

/-- The operators between two operands, with how tight they bind. -/
def operators : List (String × Nat) :=
  [("||", 1), ("&&", 2), ("==", 3), ("!=", 3), ("<", 3), ("<=", 3), (">", 3), (">=", 3), ("+", 4),
    ("-", 4), ("|", 4), ("^", 4), ("*", 5), ("/", 5), ("%", 5), ("<<", 5), (">>", 5),
    ("&", 5), ("&^", 5)]

def precedence? (t : String) : Option Nat := operators.lookup t

/-- Kinds of phrases. -/
inductive Phrase where
  | type
  /-- What a function takes: a type, or a type behind `...`. -/
  | parameter
  /-- The results of a function: none, one type, or types between brackets. -/
  | results
  | primary
  /-- A function without parameters. -/
  | literal
  | unary
  /-- Operators that bind at least as tight as the level says, between operands. -/
  | expression (level : Nat)
  | statement

/-- The tokens are a phrase of the given kind. -/
inductive Derives : Phrase → List String → Prop
  | typeName {t : String} (h : isIdentifier t) : Derives .type [t]
  | pointer {ts : List String} (h : Derives .type ts) : Derives .type ("*" :: ts)
  | array {n : String} {ts : List String} (hn : IsNumber n) (h : Derives .type ts) :
      Derives .type ("[" :: n :: "]" :: ts)
  | struct {fields : List (String × List String)} (hnames : ∀ f ∈ fields, isIdentifier f.1)
      (htypes : ∀ f ∈ fields, Derives .type f.2) :
      Derives .type ("struct" :: "\x7b" ::
        ([";"].intercalate (fields.map fun f => f.1 :: f.2) ++ ["\x7d"]))
  | anything : Derives .type ["interface", "\x7b", "\x7d"]
  | function {parameters : List (List String)} {results : List String}
      (hparameters : ∀ p ∈ parameters, Derives .parameter p)
      (hresults : Derives .results results) :
      Derives .type ("func" :: "(" :: ([","].intercalate parameters ++ ")" :: results))
  | parameter {ts : List String} (h : Derives .type ts) : Derives .parameter ts
  | variadic {ts : List String} (h : Derives .type ts) : Derives .parameter ("..." :: ts)
  | noResult : Derives .results []
  | oneResult {ts : List String} (h : Derives .type ts) : Derives .results ts
  | manyResults {results : List (List String)} (h : ∀ r ∈ results, Derives .type r) :
      Derives .results ("(" :: ([","].intercalate results ++ [")"]))
  | name {t : String} (h : isIdentifier t) : Derives .primary [t]
  | paren {ts : List String} (h : Derives (.expression 1) ts) :
      Derives .primary ("(" :: (ts ++ [")"]))
  | select {ts : List String} {t : String} (h : Derives .primary ts) (ht : isIdentifier t) :
      Derives .primary (ts ++ [".", t])
  | index {ts us : List String} (h : Derives .primary ts) (hindex : Derives (.expression 1) us) :
      Derives .primary (ts ++ "[" :: (us ++ ["]"]))
  | call {ts : List String} {arguments : List (List String)} (h : Derives .primary ts)
      (harguments : ∀ a ∈ arguments, Derives (.expression 1) a) :
      Derives .primary (ts ++ "(" :: ([","].intercalate arguments ++ [")"]))
  | conversion {ts us : List String} (ht : Derives .type ts) (h : Derives (.expression 1) us) :
      Derives .primary ("(" :: (ts ++ ")" :: "(" :: (us ++ [")"])))
  | invoke {ts : List String} {arguments : List (List String)} (h : Derives .literal ts)
      (harguments : ∀ a ∈ arguments, Derives (.expression 1) a) :
      Derives .primary (ts ++ "(" :: ([","].intercalate arguments ++ [")"]))
  | literal {results : List String} {body : List (List String)}
      (hresults : Derives .results results) (hbody : ∀ s ∈ body, Derives .statement s) :
      Derives .literal ("func" :: "(" :: ")" ::
        (results ++ "\x7b" :: ([";"].intercalate body ++ ["\x7d"])))
  | operand {ts : List String} (h : Derives .primary ts) : Derives .unary ts
  | functionValue {ts : List String} (h : Derives .literal ts) : Derives .unary ts
  | number {t : String} (h : IsNumber t) : Derives .unary [t]
  | sign {op : String} {ts : List String} (hop : op ∈ unaryOperators) (h : Derives .unary ts) :
      Derives .unary (op :: ts)
  | term {level : Nat} {ts : List String} (h : Derives .unary ts) : Derives (.expression level) ts
  | binary {op : String} {level tighter : Nat} {ts us : List String}
      (hop : precedence? op = some tighter) (hlevel : level ≤ tighter)
      (hl : Derives (.expression tighter) ts) (hr : Derives (.expression (tighter + 1)) us) :
      Derives (.expression level) (ts ++ op :: us)
  | nothing : Derives .statement []
  | evaluation {ts : List String} (h : Derives (.expression 1) ts) : Derives .statement ts
  | assignment {t : String} {ts : List String} (ht : isIdentifier t)
      (h : Derives (.expression 1) ts) :
      Derives .statement (t :: "=" :: ts)
  | definition {t : String} {ts : List String} (ht : isIdentifier t)
      (h : Derives (.expression 1) ts) :
      Derives .statement (t :: ":=" :: ts)
  | exit {values : List (List String)} (h : ∀ v ∈ values, Derives (.expression 1) v) :
      Derives .statement ("return" :: [","].intercalate values)
  | branch {ts : List String} {body : List (List String)} (h : Derives (.expression 1) ts)
      (hbody : ∀ s ∈ body, Derives .statement s) :
      Derives .statement ("if" :: (ts ++ "\x7b" :: ([";"].intercalate body ++ ["\x7d"])))

/-! ## Reading without phrases -/

/-- What is to come outside of all brackets. -/
inductive Mode where
  /-- An operand. -/
  | operand
  /-- What follows an operand. -/
  | ended
  /-- The parameters of a function. -/
  | parameters
  /-- The results or the body of a function. -/
  | results
  | type
  deriving DecidableEq

/-- What has been read: the brackets that are open, by how they are closed, the innermost first,
what is to come outside of all brackets, and what separated operands there. -/
structure Scan where
  closers : List String
  mode : Mode
  found : List String

/-- How an opening bracket is closed. -/
def closer? (t : String) : Option String :=
  if t = "(" then some ")" else if t = "[" then some "]"
    else if t = "\x7b" then some "\x7d" else none

def isCloser (t : String) : Bool := t ∈ [")", "]", "\x7d"]

/-- Operators between two operands, commas and semicolons. -/
def isSeparator (t : String) : Bool := t ∈ "," :: ";" :: operators.map Prod.fst

/-- Is it a name, a number or a keyword? -/
def isWordToken (t : String) : Bool := t.toList.head?.any isWordChar

/-- What is to come behind a bracket that was opened outside of all others. -/
def Mode.behind (m : Mode) (t : String) : Mode :=
  match m with
  | .ended => .ended
  | .parameters => .results
  | .operand => if t = "[" then .type else .ended
  | .results => if t = "[" then .type else .ended
  | .type => if t = "[" then .type else .ended

/-- What is to come behind a word. -/
def Mode.word (m : Mode) (t : String) : Mode :=
  match m with
  | .ended => .ended
  | .parameters => .parameters
  | _ => if t = "func" then .parameters else .ended

/-- Reads a token that is no bracket outside of all brackets. -/
def Scan.read (σ : Scan) (t : String) : Scan :=
  if isWordToken t then { σ with mode := σ.mode.word t }
  else if isSeparator t then
    match σ.mode with
    | .ended => { σ with mode := .operand, found := σ.found ++ [t] }
    | .results => if t = "*" then { σ with mode := .type } else σ
    | _ => σ
  else σ

/-- Reads a token, unless it is a closing bracket in the wrong place. -/
def Scan.step (σ : Scan) (t : String) : Option Scan :=
  match closer? t with
  | some close =>
    some ⟨close :: σ.closers, if σ.closers = [] then σ.mode.behind t else σ.mode, σ.found⟩
  | none =>
    if isCloser t then if σ.closers.head? = some t then
      some { σ with closers := σ.closers.tail } else none
    else if σ.closers = [] then some (σ.read t)
    else some σ

/-- Reads tokens. -/
def scan (σ : Scan) (ts : List String) : Option Scan := ts.foldlM Scan.step σ

/-- What separates the operands of an expression outside of all brackets. There is no answer if
brackets are not closed, or by others than their own. -/
def separators (ts : List String) : Option (List String) :=
  (scan ⟨[], .operand, []⟩ ts).bind fun σ => if σ.closers = [] then some σ.found else none

/-! ## Tokens one by one -/

section

variable {t close : String} {σ σ' : Scan} {ts us : List String}

/-- Reading the first token and then the others. -/
theorem scan_cons : scan σ (t :: ts) = (σ.step t).bind fun σ' => scan σ' ts := rfl

/-- Reading tokens in two parts. -/
theorem scan_append : scan σ (ts ++ us) = (scan σ ts).bind fun σ' => scan σ' us :=
  List.foldlM_append ..

def brackets : List String := ["(", "[", "\x7b", ")", "]", "\x7d"]

/-- Is it no bracket? -/
def isPlain (t : String) : Bool := t ∉ brackets

/-- A token that is no bracket matters only outside of all brackets. -/
theorem step_plain (h : isPlain t) : σ.step t = some (if σ.closers = [] then σ.read t else σ) := by
  simp only [isPlain, brackets, decide_eq_true_eq, List.mem_cons, List.not_mem_nil,
    or_false, not_or] at h
  obtain ⟨h₁, h₂, h₃, h₄, h₅, h₆⟩ := h
  have hcloser : isCloser t = false := by simp [isCloser, h₄, h₅, h₆]
  have hopen : closer? t = none := by simp [closer?, h₁, h₂, h₃]
  simp only [Scan.step, hopen, hcloser, Bool.false_eq_true, if_false]
  split <;> rfl

/-- What holds of no bracket holds of plain tokens only. -/
theorem isPlain_of {P : String → Bool} (hP : ∀ bracket ∈ brackets, P bracket = false) (h : P t) :
    isPlain t := by
  rw [isPlain, decide_eq_true_eq]
  intro hmem
  rw [hP t hmem] at h
  cases h

/-- A word is no bracket. -/
theorem isPlain_of_isWordToken (h : isWordToken t) : isPlain t := isPlain_of (by decide) h

/-- A separator is no bracket. -/
theorem isPlain_of_isSeparator (h : isSeparator t) : isPlain t := isPlain_of (by decide) h

/-- A name is a word. -/
theorem isWord_of_isIdentifier (h : isIdentifier t) : IsWord t := by
  unfold isIdentifier at h
  split at h
  · cases h
  · rename_i first rest hlist
    simp only [Bool.and_eq_true, Bool.not_eq_true', List.all_eq_true] at h
    exact ⟨first, rest, hlist, h.1.1.1, h.1.1.2, h.1.2⟩

/-- A name begins with a word character. -/
theorem isWordToken_of_isIdentifier (h : isIdentifier t) : isWordToken t := by
  obtain ⟨first, rest, hlist, -, hfirst, -⟩ := isWord_of_isIdentifier h
  simp [isWordToken, hlist, hfirst]

/-- A name is not the keyword `func`. -/
theorem ne_func_of_isIdentifier (h : isIdentifier t) : t ≠ "func" := by
  rintro rfl
  exact absurd h (by decide)

/-- A number begins with a word character. -/
theorem isWordToken_of_isNumber (h : IsNumber t) : isWordToken t := by
  obtain ⟨first, more, hlist, hfirst, -⟩ := h.reading_eq
  simp [isWordToken, hlist, isWordChar_of_isDigit hfirst]

/-- A number is not the keyword `func`. -/
theorem ne_func_of_isNumber (h : IsNumber t) : t ≠ "func" := by
  rintro rfl
  obtain ⟨first, more, hlist, hfirst, -⟩ := h.reading_eq
  obtain ⟨rfl, -⟩ := List.cons.inj hlist
  exact absurd hfirst (by decide)

/-! ## Inside of brackets -/

/-- Inside of brackets reading the tokens changes nothing. -/
def Balanced (ts : List String) : Prop := ∀ σ : Scan, σ.closers ≠ [] → scan σ ts = some σ

/-- No tokens are balanced. -/
theorem balanced_nil : Balanced [] := fun _ _ => rfl

/-- A token that is no bracket in front leaves tokens balanced. -/
theorem Balanced.cons (ht : isPlain t) (h : Balanced ts) : Balanced (t :: ts) := by
  intro σ hσ
  rw [scan_cons, step_plain ht, if_neg hσ]
  exact h σ hσ

/-- Balanced tokens in a row are balanced. -/
theorem Balanced.append (h : Balanced ts) (h' : Balanced us) : Balanced (ts ++ us) := by
  intro σ hσ
  rw [scan_append, h σ hσ]
  exact h' σ hσ

/-- What closes a bracket opens none. -/
theorem isCloser_of_closer? (h : closer? t = some close) :
    closer? close = none ∧ isCloser close := by
  unfold closer? at h
  split at h
  · cases h
    decide
  · split at h
    · cases h
      decide
    · split at h
      · cases h
        decide
      · cases h

/-- What stands between brackets is passed over. -/
theorem scan_bracket (h : closer? t = some close) (hts : Balanced ts) (σ : Scan) :
    scan σ (t :: (ts ++ [close])) =
      some { σ with mode := if σ.closers = [] then σ.mode.behind t else σ.mode } := by
  obtain ⟨hnone, hcloser⟩ := isCloser_of_closer? h
  rw [scan_cons, Scan.step, h]
  dsimp only [Option.bind_some]
  rw [scan_append, hts _ (List.cons_ne_nil _ _)]
  simp [scan, Scan.step, hnone, hcloser]

/-- Balanced tokens between brackets are balanced. -/
theorem Balanced.bracket (h : closer? t = some close) (hts : Balanced ts) :
    Balanced (t :: (ts ++ [close])) := by
  intro σ hσ
  rw [scan_bracket h hts, if_neg hσ]

/-- Balanced phrases with separators between them are balanced. -/
theorem Balanced.intercalate (ht : isPlain t) {list : List (List String)}
    (h : ∀ x ∈ list, Balanced x) : Balanced ([t].intercalate list) := by
  induction list with
  | nil => exact balanced_nil
  | cons x list ih =>
    obtain ⟨hx, hlist⟩ := List.forall_mem_cons.1 h
    cases list with
    | nil => simpa using hx
    | cons y list =>
      rw [List.intercalate_cons_cons]
      exact (hx.append (balanced_nil.cons ht)).append (ih hlist)

/-- A name is balanced. -/
theorem balanced_identifier (h : isIdentifier t) : Balanced [t] :=
  balanced_nil.cons (isPlain_of_isWordToken (isWordToken_of_isIdentifier h))

/-- An operator between two operands is a separator. -/
theorem isSeparator_of_precedence? {level : Nat} (h : precedence? t = some level) :
    isSeparator t := by
  obtain ⟨front, back, hsplit, -⟩ := List.lookup_eq_some_iff.1 h
  simp [isSeparator, hsplit]

end

/-- What stands between brackets in a phrase is closed there. -/
theorem Derives.balanced {phrase : Phrase} {ts : List String} (h : Derives phrase ts) :
    Balanced ts := by
  induction h with
  | typeName h => exact balanced_identifier h
  | pointer _ ih => exact ih.cons (by decide)
  | array hn _ ih =>
    have hnumber := balanced_nil.cons (isPlain_of_isWordToken (isWordToken_of_isNumber hn))
    exact (hnumber.bracket (t := "[") rfl).append ih
  | struct hnames _ ih =>
    refine .cons (by decide) (.bracket rfl (.intercalate (by decide) fun x hx => ?_))
    obtain ⟨field, hfield, rfl⟩ := List.mem_map.1 hx
    exact (balanced_identifier (hnames field hfield)).append (ih field hfield)
  | anything => exact .cons (by decide) (balanced_nil.bracket rfl)
  | function _ _ ih ih' =>
    have hparameters := (Balanced.intercalate (t := ",") (by decide) ih).bracket (t := "(") rfl
    simpa using (hparameters.append ih').cons (t := "func") (by decide)
  | parameter _ ih => exact ih
  | variadic _ ih => exact ih.cons (by decide)
  | noResult => exact balanced_nil
  | oneResult _ ih => exact ih
  | manyResults _ ih => exact .bracket rfl (.intercalate (by decide) ih)
  | name h => exact balanced_identifier h
  | paren _ ih => exact ih.bracket rfl
  | select _ ht ih => exact ih.append ((balanced_identifier ht).cons (by decide))
  | index _ _ ih ih' => exact ih.append (ih'.bracket rfl)
  | call _ _ ih ih' => exact ih.append (.bracket rfl (.intercalate (by decide) ih'))
  | conversion _ _ ih ih' =>
    simpa using (ih.bracket (t := "(") rfl).append (ih'.bracket (t := "(") rfl)
  | invoke _ _ ih ih' => exact ih.append (.bracket rfl (.intercalate (by decide) ih'))
  | literal _ _ ih ih' =>
    refine .cons (by decide) (.append (balanced_nil.bracket (t := "(") rfl) (ih.append ?_))
    exact .bracket rfl (.intercalate (by decide) ih')
  | operand _ ih => exact ih
  | functionValue _ ih => exact ih
  | number h => exact balanced_nil.cons (isPlain_of_isWordToken (isWordToken_of_isNumber h))
  | sign hop _ ih =>
    exact ih.cons (isPlain_of (P := fun t => t ∈ unaryOperators) (by decide) (by simpa using hop))
  | term _ ih => exact ih
  | binary hop _ _ _ ih ih' =>
    exact ih.append (ih'.cons (isPlain_of_isSeparator (isSeparator_of_precedence? hop)))
  | nothing => exact balanced_nil
  | evaluation _ ih => exact ih
  | assignment ht _ ih => exact (balanced_identifier ht).append (ih.cons (by decide))
  | definition ht _ ih => exact (balanced_identifier ht).append (ih.cons (by decide))
  | exit _ ih => exact .cons (by decide) (.intercalate (by decide) ih)
  | branch _ _ ih ih' =>
    exact .cons (by decide) (ih.append (.bracket rfl (.intercalate (by decide) ih')))

/-! ## Outside of brackets -/

/-- Outside of all brackets reading the tokens leads from one mode to another, with the given
separators. -/
def Leads (m : Mode) (ts : List String) (m' : Mode) (found : List String) : Prop :=
  ∀ before, scan ⟨[], m, before⟩ ts = some ⟨[], m', before ++ found⟩

section

variable {t close : String} {ts us found found' : List String} {m m' m'' : Mode}

/-- Without tokens the mode stays. -/
theorem leads_nil (m : Mode) : Leads m [] m [] := fun before => by simp [scan]

/-- Reading on from where the first tokens led. -/
theorem Leads.append (h : Leads m ts m' found) (h' : Leads m' us m'' found') :
    Leads m (ts ++ us) m'' (found ++ found') := by
  intro before
  rw [scan_append, h before, ← List.append_assoc]
  exact h' _

/-- A token that is no bracket leads to where reading it leads. -/
theorem leads_token (ht : isPlain t)
    (hread : ∀ before, Scan.read ⟨[], m, before⟩ t = ⟨[], m', before ++ found⟩) :
    Leads m [t] m' found := by
  intro before
  rw [scan_cons, step_plain ht, if_pos rfl, hread]
  rfl

/-- A word leads to what is to come behind it. -/
theorem leads_word (ht : isWordToken t) : Leads m [t] (m.word t) [] :=
  leads_token (isPlain_of_isWordToken ht) fun before => by simp [Scan.read, ht]

/-- Behind a word other than `func` the operand is ended. -/
theorem word_eq_ended (hm : m ≠ .parameters) (ht : t ≠ "func") : m.word t = .ended := by
  cases m <;> simp_all [Mode.word]

/-- A name ends an operand. -/
theorem leads_identifier (ht : isIdentifier t) (hm : m ≠ .parameters) : Leads m [t] .ended [] := by
  have hlead : Leads m [t] (m.word t) [] := leads_word (isWordToken_of_isIdentifier ht)
  rwa [word_eq_ended hm (ne_func_of_isIdentifier ht)] at hlead

/-- Balanced tokens between brackets lead to what is to come behind the brackets. -/
theorem leads_bracket (h : closer? t = some close) (hts : Balanced ts) :
    Leads m (t :: (ts ++ [close])) (m.behind t) [] := by
  intro before
  rw [scan_bracket h hts, List.append_nil]
  rfl

/-- How the phrases are read outside of all brackets. -/
def Phrase.Reads : Phrase → List String → Prop
  | .type, ts =>
    ∀ m, m = .results ∨ m = .type → ∃ m', (m' = .ended ∨ m' = .results) ∧ Leads m ts m' []
  | .results, ts => ∃ m', (m' = .ended ∨ m' = .results) ∧ Leads .results ts m' []
  | .primary, ts => Leads .operand ts .ended []
  | .literal, ts => Leads .operand ts .ended []
  | .unary, ts => Leads .operand ts .ended []
  | .expression _, ts => ∃ found, Leads .operand ts .ended found
  | .parameter, _ => True
  | .statement, _ => True

/-- A type that is a keyword with a body. -/
theorem leads_body (ht : isWordToken t) (hfunc : t ≠ "func") (hm : m = .results ∨ m = .type)
    (hts : Balanced ts) : Leads m (t :: "\x7b" :: (ts ++ ["\x7d"])) .ended [] := by
  have hword : Leads m [t] (m.word t) [] := leads_word ht
  rw [word_eq_ended (by rintro rfl; rcases hm with h | h <;> cases h) hfunc] at hword
  have hbody : Leads .ended ("\x7b" :: (ts ++ ["\x7d"])) .ended [] := leads_bracket rfl hts
  exact hword.append hbody

/-- A function literal ends with its body, whatever its results are. -/
theorem leads_literal {results : List String} (hresults : Phrase.results.Reads results)
    (hts : Balanced ts) :
    Leads .operand ("func" :: "(" :: ")" :: (results ++ "\x7b" :: (ts ++ ["\x7d"])))
      .ended [] := by
  obtain ⟨m', hm', hresults⟩ := hresults
  have hfunc : Leads .operand ["func"] .parameters [] := leads_word (by decide)
  have hparameters : Leads .parameters ["(", ")"] .results [] := leads_bracket rfl balanced_nil
  have hbody : Leads m' ("\x7b" :: (ts ++ ["\x7d"])) .ended [] := by
    rcases hm' with rfl | rfl
    · exact leads_bracket rfl hts
    · exact leads_bracket rfl hts
  simpa using hfunc.append (hparameters.append (hresults.append hbody))

/-- Behind a sign an operand is still to come. -/
theorem leads_sign {op : String} (hop : op ∈ unaryOperators) :
    Leads .operand [op] .operand [] := by
  simp only [unaryOperators, List.mem_cons, List.not_mem_nil, or_false] at hop
  rcases hop with rfl | rfl | rfl | rfl | rfl | rfl | rfl <;>
    exact leads_token (by decide) fun before => by rw [List.append_nil]; rfl

/-- Behind an operand a separator is found, and another operand is to come. -/
theorem leads_separator (h : isSeparator t) : Leads .ended [t] .operand [t] := by
  refine leads_token (isPlain_of_isSeparator h) fun before => ?_
  have hwords : ∀ op ∈ "," :: ";" :: operators.map Prod.fst, isWordToken op = false := by decide
  have hword : isWordToken t = false := hwords t (by simpa [isSeparator] using h)
  simp [Scan.read, hword, h]

end

/-- Every phrase of the grammar is read as its kind says. -/
theorem Derives.reads {phrase : Phrase} {ts : List String} (h : Derives phrase ts) :
    phrase.Reads ts := by
  induction h with
  | typeName h =>
    rintro m (rfl | rfl)
    · exact ⟨.ended, .inl rfl, leads_identifier h (by decide)⟩
    · exact ⟨.ended, .inl rfl, leads_identifier h (by decide)⟩
  | pointer _ ih =>
    have hstar (m : Mode) (hm : m = .results ∨ m = .type) : Leads m ["*"] .type [] := by
      rcases hm with rfl | rfl <;> exact leads_token (by decide) fun before => by
        rw [List.append_nil]; rfl
    intro m hm
    obtain ⟨m', hm', h⟩ := ih .type (.inr rfl)
    exact ⟨m', hm', (hstar m hm).append h⟩
  | @array n _ hn _ ih =>
    have hnumber := balanced_nil.cons (isPlain_of_isWordToken (isWordToken_of_isNumber hn))
    intro m hm
    obtain ⟨m', hm', h⟩ := ih .type (.inr rfl)
    have hlength : Leads m ["[", n, "]"] .type [] := by
      rcases hm with rfl | rfl <;> exact leads_bracket rfl hnumber
    exact ⟨m', hm', hlength.append h⟩
  | @struct fields hnames htypes _ =>
    have hfields : Balanced ([";"].intercalate (fields.map fun f => f.1 :: f.2)) := by
      refine .intercalate (by decide) fun x hx => ?_
      obtain ⟨field, hfield, rfl⟩ := List.mem_map.1 hx
      exact (balanced_identifier (hnames field hfield)).append (htypes field hfield).balanced
    exact fun m hm => ⟨.ended, .inl rfl, leads_body (by decide) (by decide) hm hfields⟩
  | anything =>
    exact fun m hm => ⟨.ended, .inl rfl, leads_body (by decide) (by decide) hm balanced_nil⟩
  | function hparameters _ _ ih =>
    obtain ⟨m', hm', hresults⟩ := ih
    have hall := Balanced.intercalate (t := ",") (by decide) fun p hp =>
      (hparameters p hp).balanced
    have hbrackets : Leads .parameters ("(" :: (_ ++ [")"])) .results [] := leads_bracket rfl hall
    intro m hm
    have hfunc : Leads m ["func"] .parameters [] := by
      rcases hm with rfl | rfl <;> exact leads_word (by decide)
    refine ⟨m', hm', ?_⟩
    simpa using hfunc.append (hbrackets.append hresults)
  | parameter | variadic | nothing | evaluation | assignment | definition | exit | branch =>
    trivial
  | noResult => exact ⟨.results, .inr rfl, leads_nil _⟩
  | oneResult _ ih => exact ih .results (.inl rfl)
  | manyResults h _ =>
    exact ⟨.ended, .inl rfl,
      leads_bracket rfl (.intercalate (by decide) fun r hr => (h r hr).balanced)⟩
  | name h => exact leads_identifier h (by decide)
  | paren h _ => exact leads_bracket rfl h.balanced
  | select _ ht ih =>
    have hdot : Leads .ended ["."] .ended [] :=
      leads_token (by decide) fun before => by rw [List.append_nil]; rfl
    exact ih.append (hdot.append (leads_identifier ht (by decide)))
  | index _ hindex ih _ => exact ih.append (leads_bracket rfl hindex.balanced)
  | call _ harguments ih _ =>
    exact ih.append (leads_bracket rfl (.intercalate (by decide) fun a ha =>
      (harguments a ha).balanced))
  | conversion ht h _ _ =>
    have htype : Leads .operand ("(" :: (_ ++ [")"])) .ended [] := leads_bracket rfl ht.balanced
    have hvalue : Leads .ended ("(" :: (_ ++ [")"])) .ended [] := leads_bracket rfl h.balanced
    simpa [Phrase.Reads] using htype.append hvalue
  | invoke _ harguments ih _ =>
    exact ih.append (leads_bracket rfl (.intercalate (by decide) fun a ha =>
      (harguments a ha).balanced))
  | literal _ hbody ih _ =>
    exact leads_literal ih (.intercalate (by decide) fun s hs => (hbody s hs).balanced)
  | operand _ ih => exact ih
  | functionValue _ ih => exact ih
  | number h =>
    have hlead : Leads .operand [_] _ [] := leads_word (isWordToken_of_isNumber h)
    rwa [word_eq_ended (by decide) (ne_func_of_isNumber h)] at hlead
  | sign hop _ ih => exact (leads_sign hop).append ih
  | term _ ih => exact ⟨[], ih⟩
  | binary hop _ _ _ ih ih' =>
    obtain ⟨found, hl⟩ := ih
    obtain ⟨found', hr⟩ := ih'
    exact ⟨_, hl.append ((leads_separator (isSeparator_of_precedence? hop)).append hr)⟩

/-! ## Operands among other tokens -/

/-- The forms of operands: a name with a package or without, an expression between brackets, a
conversion, a call, a selector or an index behind one of these, a function that is called at once;
or the address of one of these. -/
inductive IsOperand : List String → Prop
  | primary {ts : List String} (h : Derives .primary ts) : IsOperand ts
  | address {ts : List String} (h : Derives .primary ts) : IsOperand ("&" :: ts)

/-- Tokens behind which an operand is to come: none, or an expression and a separator, or signs
behind these. -/
inductive Awaits : List String → Prop
  | nothing : Awaits []
  | separator {level : Nat} {left : List String} {op : String}
      (h : Derives (.expression level) left) (hop : isSeparator op) :
      Awaits (left ++ [op])
  | sign {before : List String} {op : String} (h : Awaits before) (hop : op ∈ unaryOperators) :
      Awaits (before ++ [op])

section

variable {ts before after a b : List String} {op : String} {level : Nat}

/-- An operand is a unary phrase. -/
theorem IsOperand.unary (h : IsOperand ts) : Derives .unary ts := by
  cases h with
  | primary h => exact .operand h
  | address h => exact .sign (by decide) (.operand h)

/-- A primary phrase does not begin with a sign. -/
theorem Derives.not_sign_of_primary (h : Derives .primary ts) :
    ∀ t ∈ ts.head?, t ∉ unaryOperators := by
  suffices hall : ∀ {phrase}, Derives phrase ts → phrase = .primary → ∃ first rest,
      ts = first :: rest ∧
      first ∉ unaryOperators by
    obtain ⟨first, rest, rfl, hfirst⟩ := hall h rfl
    intro t ht
    cases ht
    exact hfirst
  clear h
  intro phrase h hphrase
  induction h with
  | name h =>
    refine ⟨_, _, rfl, fun hmem => ?_⟩
    have hall : ∀ op ∈ unaryOperators, isIdentifier op = false := by decide
    rw [hall _ hmem] at h
    cases h
  | paren | conversion => exact ⟨_, _, rfl, by decide⟩
  | select _ _ ih | index _ _ ih | call _ _ ih =>
    obtain ⟨first, rest, rfl, hfirst⟩ := ih rfl
    exact ⟨first, _, rfl, hfirst⟩
  | invoke h =>
    cases h
    exact ⟨_, _, rfl, by decide⟩
  | _ => cases hphrase

/-- The only sign that an operand may begin with is that of an address. -/
theorem IsOperand.sign_eq (h : IsOperand ts) : ∀ t ∈ ts.head?, t ∈ unaryOperators → t = "&" := by
  intro t ht hsign
  cases h with
  | primary h => exact absurd hsign (h.not_sign_of_primary t ht)
  | address h => exact (Option.some.inj ht).symm

/-- Outside of its brackets an operand has no separator. -/
theorem IsOperand.separators_eq (h : IsOperand ts) : separators ts = some [] := by
  have hreads : Leads .operand ts .ended [] := h.unary.reads
  rw [separators, hreads []]
  rfl

/-- Where an operand is to come, reading has led to one that is to come. -/
theorem Awaits.leads (h : Awaits before) : ∃ found, Leads .operand before .operand found := by
  induction h with
  | nothing => exact ⟨[], leads_nil _⟩
  | separator h hop =>
    obtain ⟨found, hl⟩ := h.reads
    exact ⟨_, hl.append (leads_separator hop)⟩
  | sign _ hop ih =>
    obtain ⟨found, hbefore⟩ := ih
    exact ⟨_, hbefore.append (leads_sign hop)⟩

/-- Reading a token only adds to the separators. -/
theorem found_of_step {σ σ' : Scan} {t : String} (h : σ.step t = some σ') :
    ∃ more, σ'.found = σ.found ++ more := by
  have hread : ∃ more, (σ.read t).found = σ.found ++ more := by
    unfold Scan.read
    split
    · exact ⟨[], (List.append_nil _).symm⟩
    · split
      · split
        · exact ⟨[t], rfl⟩
        · split <;> exact ⟨[], (List.append_nil _).symm⟩
        · exact ⟨[], (List.append_nil _).symm⟩
      · exact ⟨[], (List.append_nil _).symm⟩
  unfold Scan.step at h
  split at h
  · cases h
    exact ⟨[], (List.append_nil _).symm⟩
  · split at h
    · split at h
      · cases h
        exact ⟨[], (List.append_nil _).symm⟩
      · cases h
    · split at h
      · cases h
        exact hread
      · cases h
        exact ⟨[], (List.append_nil _).symm⟩

/-- What has been found is kept. -/
theorem found_of_scan {σ σ' : Scan} (h : scan σ ts = some σ') :
    ∃ more, σ'.found = σ.found ++ more := by
  induction ts generalizing σ with
  | nil =>
    cases h
    exact ⟨[], (List.append_nil _).symm⟩
  | cons t ts ih =>
    rw [scan_cons] at h
    obtain ⟨σ₁, hstep, h⟩ := Option.bind_eq_some_iff.1 h
    obtain ⟨front, hfront⟩ := found_of_step hstep
    obtain ⟨more, hmore⟩ := ih h
    exact ⟨front ++ more, by rw [hmore, hfront, List.append_assoc]⟩

/-- No expression that begins where an operand is awaited ends inside of the operand, before a
separator. -/
theorem not_split_inside (hts : Derives .unary ts) (hbefore : Awaits before)
    (ha : Derives (.expression level) (before ++ a)) (hop : isSeparator op) :
    ts ≠ a ++ op :: b := by
  intro hsplit
  obtain ⟨found, hbefore⟩ := hbefore.leads
  obtain ⟨found', ha⟩ := ha.reads
  have hts : Leads .operand ts .ended [] := hts.reads
  -- Behind `a` an operand has ended, so the separator is found; but the whole operand has none.
  have hinner : scan ⟨[], .operand, found⟩ a = some ⟨[], .ended, found'⟩ := by
    have hall := ha []
    rw [scan_append, hbefore []] at hall
    exact hall
  have hwhole := hts found
  rw [hsplit, scan_append, hinner] at hwhole
  have hstep : scan ⟨[], .ended, found'⟩ (op :: b) = some ⟨[], .ended, found⟩ := by
    rw [List.append_nil] at hwhole
    exact hwhole
  have hsep : scan ⟨[], .ended, found'⟩ [op] = some ⟨[], .operand, found' ++ [op]⟩ :=
    leads_separator hop found'
  rw [← List.singleton_append, scan_append, hsep] at hstep
  obtain ⟨front, hfront⟩ := found_of_scan hinner
  obtain ⟨more, hmore⟩ := found_of_scan hstep
  have hlength := congrArg List.length hmore
  simp only at hfront
  rw [hfront] at hlength
  simp only [List.length_append, List.length_cons, List.length_nil] at hlength
  omega

/-- Wherever an operand is awaited, it is read as a whole: an expression that ends before a
separator ends before the operand, or it has all of the operand in it. -/
theorem not_regrouped (hts : Derives .unary ts) (hbefore : Awaits before)
    (ha : Derives (.expression level) a) (hop : isSeparator op)
    (h : before ++ ts ++ after = a ++ op :: b) :
    a.length < before.length ∨ before ++ ts <+: a := by
  rw [List.append_assoc] at h
  rcases List.append_eq_append_iff.1 h with ⟨inner, rfl, hrest⟩ | ⟨inner, rfl, hrest⟩
  · rcases List.append_eq_append_iff.1 hrest with ⟨more, rfl, -⟩ | ⟨more, htail, hmore⟩
    · exact .inr ⟨more, by rw [List.append_assoc]⟩
    · cases more with
      | nil =>
        rw [List.append_nil] at htail
        exact .inr ⟨[], by rw [htail, List.append_nil]⟩
      | cons first more =>
        obtain ⟨rfl, -⟩ := List.cons.inj hmore
        exact absurd htail (not_split_inside hts hbefore ha hop)
  · cases inner with
    | nil =>
      cases ts with
      | nil => exact .inr ⟨[], by simp⟩
      | cons first ts =>
        obtain ⟨rfl, -⟩ := List.cons.inj hrest
        exact absurd rfl (not_split_inside (a := []) (b := ts) hts hbefore (by simpa using ha) hop)
    | cons first inner => exact .inl (by simp)

end

end StackToGo.Go
