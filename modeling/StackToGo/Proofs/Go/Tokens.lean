import StackToGo.Go.Expr

/-!
# Tokens

Go code is read as a list of tokens: names, numbers and symbols, each as long as it can be, with
blanks between some of them. A token may run into the next one, so the tokens of a text that is put
together are not always those of its parts. Texts are told apart by what may follow them: `Tight`
texts are read the same way whatever follows, `Lexed` ones if a bracket, a comma, a semicolon, a
`*` or a blank does.
-/

namespace StackToGo.Go

/-! ## Reading tokens -/

/-- The characters of names and numbers: letters, digits and the underscore. Everything beyond
ASCII counts as a letter, since outside of strings and comments only letters and digits are
there. -/
def isWordChar (c : Char) : Bool := c.isAlphanum || c == '_' || 0x80 ≤ c.toNat

/-- The symbols of more than one character, with what they begin with. -/
def longSymbols : List (List Char) :=
  [['+', '='], ['+', '+'], ['-', '='], ['-', '-'], ['*', '='], ['/', '='], ['/', '/'],
    ['/', '*'], ['%', '='], ['&', '='], ['&', '&'], ['&', '^'], ['&', '^', '='], ['|', '='],
    ['|', '|'], ['^', '='], ['=', '='], ['!', '='], ['<', '='], ['<', '<'], ['<', '<', '='],
    ['<', '-'], ['>', '='], ['>', '>'], ['>', '>', '='], [':', '='], ['.', '.'], ['.', '.', '.']]

/-- Is the number read up to its exponent, which may have a sign? -/
def awaitsSign (number : List Char) : Bool :=
  if [['0', 'x'], ['0', 'X']].contains (number.take 2) then
      [some 'p', some 'P'].contains number.getLast?
  else [some 'e', some 'E'].contains number.getLast?

/-- Does a character belong to the token that has been read so far? -/
def goesOn (token : List Char) (c : Char) : Bool :=
  match token with
  | [] => false
  | first :: _ =>
    if first.isDigit then isWordChar c || c == '.' || (awaitsSign token && (c == '+' || c == '-'))
    else if isWordChar first then isWordChar c
    else longSymbols.contains (token ++ [c])

/-- The token that has been read, if there is one. -/
def flush : List Char → List String
  | [] => []
  | c :: rest => [String.ofList (c :: rest)]

/-- The tokens that end in a text, and what has been read of the next one at its end, if `token`
has been read of one before the text. -/
def reading (token : List Char) : List Char → List String × List Char
  | [] => ([], token)
  | c :: rest =>
    if c = ' ' then (flush token ++ (reading [] rest).1, (reading [] rest).2)
    else if goesOn token c then reading (token ++ [c]) rest
    else (flush token ++ (reading [c] rest).1, (reading [c] rest).2)

/-- The tokens of a text, if `token` has been read of one before it. -/
def tokensFrom (token text : List Char) : List String :=
  (reading token text).1 ++ flush (reading token text).2

/-- The tokens of a text. -/
def tokens (text : String) : List String := tokensFrom [] text.toList

/-- Reading a text in two parts. -/
theorem reading_append (token a b : List Char) : reading token (a ++ b) =
    ((reading token a).1 ++ (reading (reading token a).2 b).1,
      (reading (reading token a).2 b).2) := by
  induction a generalizing token with
  | nil => rfl
  | cons c a ih =>
    simp only [List.cons_append, reading]
    split
    · rw [ih, List.append_assoc]
    · split
      · exact ih _
      · rw [ih, List.append_assoc]

/-- The tokens of a text in two parts. -/
theorem tokensFrom_append (token a b : List Char) :
    tokensFrom token (a ++ b) = (reading token a).1 ++ tokensFrom (reading token a).2 b := by
  rw [tokensFrom, reading_append, tokensFrom, List.append_assoc]

/-- A token ends where the next character is none of its own. -/
theorem tokensFrom_of_ended {token rest : List Char}
    (h : ∀ c ∈ rest.head?, c = ' ' ∨ goesOn token c = false) :
    tokensFrom token rest = flush token ++ tokensFrom [] rest := by
  cases rest with
  | nil => simp [tokensFrom, reading, flush]
  | cons c rest =>
    by_cases hblank : c = ' '
    · simp [tokensFrom, reading, hblank, flush]
    · have hends : goesOn token c = false := (h c rfl).resolve_left hblank
      have hnone : goesOn [] c = false := rfl
      simp [tokensFrom, reading, hblank, hends, hnone, flush]

/-! ## Texts that are read as tokens of their own -/

/-- Brackets, commas and semicolons, which are no part of a longer token. -/
def isSolid (c : Char) : Bool := c ∈ ['(', ')', '[', ']', '\x7b', '\x7d', ',', ';']

/-- A symbol goes on only to a longer symbol. -/
theorem goesOn_symbol {c : Char} (hc : isWordChar c = false) (d : Char) :
    goesOn [c] d = longSymbols.contains [c, d] := by
  have hdigit : c.isDigit = false := by
    simp only [isWordChar, Char.isAlphanum, Bool.or_eq_false_iff] at hc
    exact hc.1.1.2
  simp [goesOn, hc, hdigit]

/-- Nothing becomes part of a bracket, a comma or a semicolon. -/
theorem goesOn_solid {c : Char} (hc : isSolid c) (d : Char) : goesOn [c] d = false := by
  simp only [isSolid, decide_eq_true_eq, List.mem_cons, List.not_mem_nil, or_false] at hc
  rcases hc with rfl | rfl | rfl | rfl | rfl | rfl | rfl | rfl <;>
    rw [goesOn_symbol (by decide)] <;> simp [longSymbols]

/-- The characters that may follow a name or a number without becoming part of it. -/
def isBoundary (c : Char) : Bool := c == ' ' || c == '*' || isSolid c

/-- What follows does not become part of a name or a number. -/
def Parts (rest : List Char) : Prop := ∀ c ∈ rest.head?, isBoundary c

/-- Nothing that follows becomes part of anything. -/
theorem parts_nil : Parts [] := fun _ hc => by cases hc

/-- The text is read as the tokens, whatever follows. -/
def Tight (text : String) (ts : List String) : Prop :=
  ∀ rest, tokensFrom [] (text.toList ++ rest) = ts ++ tokensFrom [] rest

/-- The text is read as the tokens, if what follows does not become part of the last one. -/
def Lexed (text : String) (ts : List String) : Prop :=
  ∀ rest, Parts rest → tokensFrom [] (text.toList ++ rest) = ts ++ tokensFrom [] rest

/-- A text that is read as tokens has these tokens. -/
theorem Lexed.tokens_eq {text : String} {ts : List String} (h : Lexed text ts) :
    tokens text = ts := by
  have hall := h [] parts_nil
  simpa [tokens, tokensFrom, reading, flush] using hall

section

variable {a b : String} {ts us : List String}

/-- What is read the same whatever follows is so at the end. -/
theorem Tight.lexed (h : Tight a ts) : Lexed a ts := fun rest _ => h rest

/-- Two tight texts in a row. -/
theorem Tight.append (ha : Tight a ts) (hb : Tight b us) : Tight (a ++ b) (ts ++ us) := by
  intro rest
  rw [String.toList_append, List.append_assoc, ha, hb, List.append_assoc]

/-- A tight text before another one. -/
theorem Tight.append_lexed (ha : Tight a ts) (hb : Lexed b us) : Lexed (a ++ b) (ts ++ us) := by
  intro rest hrest
  rw [String.toList_append, List.append_assoc, ha, hb rest hrest, List.append_assoc]

/-- The text begins with a character that ends names and numbers. -/
def Bounded (text : String) : Prop := ∃ c rest, text.toList = c :: rest ∧ isBoundary c

/-- What begins with a boundary does not become part of what is before. -/
theorem Bounded.parts (h : Bounded a) (rest : List Char) : Parts (a.toList ++ rest) := by
  obtain ⟨c, more, hlist, hc⟩ := h
  rw [hlist]
  intro d hd
  cases hd
  exact hc

/-- More text behind leaves the beginning. -/
theorem Bounded.append (h : Bounded a) (b : String) : Bounded (a ++ b) := by
  obtain ⟨c, rest, hlist, hc⟩ := h
  exact ⟨c, rest ++ b.toList, by rw [String.toList_append, hlist]; rfl, hc⟩

/-- A text before one that begins with a boundary. -/
theorem Lexed.append (ha : Lexed a ts) (hbounded : Bounded b) (hb : Lexed b us) :
    Lexed (a ++ b) (ts ++ us) := by
  intro rest hrest
  rw [String.toList_append, List.append_assoc, ha _ (hbounded.parts rest), hb rest hrest,
    List.append_assoc]

/-- A text before a tight one that begins with a boundary is tight. -/
theorem Lexed.append_tight (ha : Lexed a ts) (hbounded : Bounded b) (hb : Tight b us) :
    Tight (a ++ b) (ts ++ us) := by
  intro rest
  rw [String.toList_append, List.append_assoc, ha _ (hbounded.parts rest), hb rest,
    List.append_assoc]

end

/-- The tokens of a text that ends with a blank or a solid character. -/
def settled (r : List String × List Char) : Option (List String) :=
  match r.2 with
  | [] => some r.1
  | [c] => if isSolid c then some (r.1 ++ [String.ofList [c]]) else none
  | _ => none

/-- A fixed text is read as its tokens if it ends with a blank or a solid character. -/
theorem tight_of_settled {text : String} {ts : List String}
    (h : settled (reading [] text.toList) = some ts) :
    Tight text ts := by
  intro rest
  rw [tokensFrom_append]
  generalize reading [] text.toList = r at h
  obtain ⟨done, token⟩ := r
  rcases token with _ | ⟨c, _ | ⟨d, token⟩⟩
  · cases h
    rfl
  · by_cases hsolid : isSolid c
    · simp only [settled, hsolid, if_true, Option.some.injEq] at h
      subst h
      rw [tokensFrom_of_ended fun d _ => .inr (goesOn_solid hsolid d), List.append_assoc]
      rfl
    · simp [settled, hsolid] at h
  · cases h

/-! ## Names and numbers -/

/-- A sequence of word characters that begins with a letter or an underscore. -/
def IsWord (text : String) : Prop :=
  ∃ first rest, text.toList = first :: rest ∧ first.isDigit = false ∧ isWordChar first ∧
    ∀ c ∈ rest, isWordChar c

/-- Characters that all belong to the token are read as part of it. -/
theorem reading_of_goesOn {token text : List Char}
    (h : ∀ front c back, text = front ++ c :: back → c ≠ ' ' ∧ goesOn (token ++ front) c) :
    reading token text = ([], token ++ text) := by
  induction text generalizing token with
  | nil => simp [reading]
  | cons c text ih =>
    obtain ⟨hblank, hgoes⟩ := h [] c text rfl
    rw [List.append_nil] at hgoes
    rw [reading, if_neg hblank, if_pos hgoes, ih]
    · simp
    · intro front d back htext
      simpa using h (c :: front) d back (by rw [htext]; rfl)

/-- A blank is no word character. -/
theorem ne_blank_of_isWordChar {c : Char} (h : isWordChar c) : c ≠ ' ' := by
  rintro rfl
  exact absurd h (by decide)

/-- A word is one token, up to what is no word character. -/
theorem IsWord.tokensFrom_append {text : String} (h : IsWord text) {rest : List Char}
    (hrest : ∀ c ∈ rest.head?, isWordChar c = false) :
    tokensFrom [] (text.toList ++ rest) = text :: tokensFrom [] rest := by
  obtain ⟨first, more, hlist, hdigit, hfirst, hmore⟩ := h
  have hword (front : List Char) (c : Char) : goesOn (first :: front) c = isWordChar c := by
    simp [goesOn, hdigit, hfirst]
  have hreading : reading [first] more = ([], first :: more) :=
    reading_of_goesOn fun front c back htext => by
      have hc : isWordChar c := hmore c (by simp [htext])
      exact ⟨ne_blank_of_isWordChar hc, by rw [List.singleton_append, hword, hc]⟩
  have hnone : goesOn [] first = false := rfl
  have hall : reading [] text.toList = ([], text.toList) := by
    rw [hlist, reading, if_neg (ne_blank_of_isWordChar hfirst), hnone]
    simp [hreading, flush]
  rw [Go.tokensFrom_append, hall, tokensFrom_of_ended]
  · rw [hlist, flush, ← hlist, String.ofList_toList]
    rfl
  · intro c hc
    rw [hlist]
    exact .inr ((hword more c).trans (hrest c hc))

/-- A boundary is no word character. -/
theorem isWordChar_of_isBoundary {c : Char} (h : isBoundary c) : isWordChar c = false := by
  simp only [isBoundary, isSolid, Bool.or_eq_true, beq_iff_eq, decide_eq_true_eq, List.mem_cons,
    List.not_mem_nil, or_false] at h
  rcases h with (rfl | rfl) | rfl | rfl | rfl | rfl | rfl | rfl | rfl | rfl <;> decide

/-- A word is read as one token. -/
theorem IsWord.lexed {text : String} (h : IsWord text) : Lexed text [text] :=
  fun _ hrest => h.tokensFrom_append fun c hc => isWordChar_of_isBoundary (hrest c hc)

/-- One or more decimal digits. -/
def AreDigits (text : List Char) : Prop := text ≠ [] ∧ ∀ c ∈ text, c.isDigit

/-- Decimal digits, with a point and more digits or without. -/
inductive IsMantissa : List Char → Prop
  | whole {digits : List Char} (h : AreDigits digits) : IsMantissa digits
  | point {digits fraction : List Char} (h : AreDigits digits)
      (hfraction : ∀ c ∈ fraction, c.isDigit) :
      IsMantissa (digits ++ '.' :: fraction)

/-- The number literals: decimal ones, with an exponent or without, and hexadecimal integers. -/
inductive IsNumber : String → Prop
  | plain {text : String} (h : IsMantissa text.toList) : IsNumber text
  | scaled {text : String} {mantissa exponent : List Char}
      (htext : text.toList = mantissa ++ 'e' :: exponent) (hmantissa : IsMantissa mantissa)
      (h : AreDigits exponent) :
      IsNumber text
  | scaledDown {text : String} {mantissa exponent : List Char}
      (htext : text.toList = mantissa ++ 'e' :: '-' :: exponent) (hmantissa : IsMantissa mantissa)
      (h : AreDigits exponent) :
      IsNumber text
  | hex {text : String} {digits : List Char} (htext : text.toList = '0' :: 'x' :: digits)
      (hne : digits ≠ []) (h : ∀ c ∈ digits, c.isAlphanum) :
      IsNumber text

/-- Letters and digits are word characters. -/
theorem isWordChar_of_isAlphanum {c : Char} (h : c.isAlphanum) : isWordChar c := by
  simp [isWordChar, h]

/-- Digits are word characters. -/
theorem isWordChar_of_isDigit {c : Char} (h : c.isDigit) : isWordChar c :=
  isWordChar_of_isAlphanum (by simp [Char.isAlphanum, h])

/-- Word characters and points are part of a number that has begun. -/
theorem reading_number {first : Char} (hfirst : first.isDigit) (front : List Char)
    {more : List Char} (hmore : ∀ c ∈ more, isWordChar c ∨ c = '.') :
    reading (first :: front) more = ([], first :: (front ++ more)) := by
  refine reading_of_goesOn fun inner c back htext => ?_
  rcases hmore c (by simp [htext]) with hc | rfl
  · exact ⟨ne_blank_of_isWordChar hc, by simp [goesOn, hfirst, hc]⟩
  · exact ⟨by decide, by simp [goesOn, hfirst]⟩

/-- Decimal digits are word characters. -/
theorem AreDigits.isWordChar {text : List Char} (h : AreDigits text) {c : Char} (hc : c ∈ text) :
    isWordChar c :=
  isWordChar_of_isDigit (h.2 c hc)

/-- A mantissa begins with a digit, and goes on with digits and points. -/
theorem IsMantissa.exists_cons {text : List Char} (h : IsMantissa text) :
    ∃ first more, text = first :: more ∧ first.isDigit ∧ ∀ c ∈ more, c.isDigit ∨ c = '.' := by
  cases h with
  | whole h =>
    obtain ⟨first, more, rfl⟩ := List.exists_cons_of_ne_nil h.1
    exact ⟨first, more, rfl, h.2 first List.mem_cons_self,
      fun c hc => .inl (h.2 c (List.mem_cons_of_mem _ hc))⟩
  | @point digits fraction h hfraction =>
    obtain ⟨first, more, rfl⟩ := List.exists_cons_of_ne_nil h.1
    refine ⟨first, more ++ '.' :: fraction, rfl, h.2 first List.mem_cons_self, fun c hc => ?_⟩
    rcases List.mem_append.1 hc with hc | hc
    · exact .inl (h.2 c (List.mem_cons_of_mem _ hc))
    · rcases List.mem_cons.1 hc with rfl | hc
      · exact .inr rfl
      · exact .inl (hfraction c hc)

/-- A mantissa and the mark of an exponent may be followed by a sign. -/
theorem awaitsSign_mantissa {text : List Char} (h : IsMantissa text) :
    awaitsSign (text ++ ['e']) := by
  obtain ⟨first, more, rfl, -, hmore⟩ := h.exists_cons
  have hsecond : ∀ second : Char, second = 'x' ∨ second = 'X' →
      (first :: (more ++ ['e'])).take 2 ≠ ['0', second] := by
    intro second hsecond heq
    cases more with
    | nil =>
      simp only [List.nil_append, List.take_succ_cons, List.take_zero, List.cons.injEq,
        and_true] at heq
      rcases hsecond with rfl | rfl <;> exact absurd heq.2 (by decide)
    | cons d more =>
      simp only [List.cons_append, List.take_succ_cons, List.take_zero, List.cons.injEq,
        and_true] at heq
      obtain ⟨-, rfl⟩ := heq
      rcases hmore d List.mem_cons_self with hd | rfl
      · rcases hsecond with rfl | rfl <;> exact absurd hd (by decide)
      · rcases hsecond with h | h <;> exact absurd h (by decide)
  have hplain : ¬[['0', 'x'], ['0', 'X']].contains ((first :: (more ++ ['e'])).take 2) := by
    simp only [List.contains_iff_mem, List.mem_cons, List.not_mem_nil, or_false, not_or]
    exact ⟨hsecond 'x' (.inl rfl), hsecond 'X' (.inr rfl)⟩
  rw [List.cons_append, awaitsSign, if_neg hplain, ← List.cons_append, List.getLast?_append]
  simp

/-- A number is read without a token ending in it. -/
theorem IsNumber.reading_eq {text : String} (h : IsNumber text) :
    ∃ first more, text.toList = first :: more ∧
    first.isDigit ∧ reading [first] more = ([], first :: more) := by
  cases h with
  | plain h =>
    obtain ⟨first, more, htext, hfirst, hmore⟩ := h.exists_cons
    exact ⟨first, more, htext, hfirst, reading_number hfirst [] fun c hc =>
      (hmore c hc).imp_left isWordChar_of_isDigit⟩
  | scaled htext hmantissa hexponent =>
    obtain ⟨first, more, rfl, hfirst, hmore⟩ := hmantissa.exists_cons
    refine ⟨first, _, htext, hfirst, reading_number hfirst [] fun c hc => ?_⟩
    rcases List.mem_append.1 hc with hc | hc
    · exact (hmore c hc).imp_left isWordChar_of_isDigit
    · rcases List.mem_cons.1 hc with rfl | hc
      · exact .inl (by decide)
      · exact .inl (hexponent.isWordChar hc)
  | @scaledDown mantissa exponent htext hmantissa hexponent =>
    have hsign := awaitsSign_mantissa hmantissa
    obtain ⟨first, more, rfl, hfirst, hmore⟩ := hmantissa.exists_cons
    have hsplit : more ++ 'e' :: '-' :: exponent = (more ++ ['e']) ++ '-' :: exponent := by simp
    have hfront : reading [first] (more ++ ['e']) = ([], first :: (more ++ ['e'])) := by
      refine reading_number hfirst [] fun c hc => ?_
      rcases List.mem_append.1 hc with hc | hc
      · exact (hmore c hc).imp_left isWordChar_of_isDigit
      · exact .inl (by rw [List.mem_singleton.1 hc]; decide)
    have hgoes : goesOn (first :: (more ++ ['e'])) '-' := by
      rw [List.cons_append] at hsign
      simp [goesOn, hfirst, hsign]
    refine ⟨first, more ++ 'e' :: '-' :: exponent, htext, hfirst, ?_⟩
    rw [hsplit, reading_append, hfront, reading, if_neg (by decide), if_pos hgoes,
      List.cons_append, reading_number hfirst _ fun c hc => .inl (hexponent.isWordChar hc)]
    simp
  | @hex digits htext hne hdigits =>
    refine ⟨'0', 'x' :: digits, htext, by decide, reading_number (by decide) [] fun c hc => ?_⟩
    rcases List.mem_cons.1 hc with rfl | hc
    · exact .inl (by decide)
    · exact .inl (isWordChar_of_isAlphanum (hdigits c hc))

/-- A number is read as one token. -/
theorem IsNumber.lexed {text : String} (h : IsNumber text) : Lexed text [text] := by
  obtain ⟨first, more, hlist, hfirst, hreading⟩ := h.reading_eq
  intro rest hrest
  have hnone : goesOn [] first = false := rfl
  have hall : reading [] text.toList = ([], text.toList) := by
    rw [hlist, reading, if_neg (ne_blank_of_isWordChar (isWordChar_of_isDigit hfirst)), hnone]
    simp [hreading, flush]
  rw [tokensFrom_append, hall, tokensFrom_of_ended]
  · rw [hlist, flush, ← hlist, String.ofList_toList]
    rfl
  · intro c hc
    have hword := isWordChar_of_isBoundary (hrest c hc)
    have hsigns : c ≠ '.' ∧ c ≠ '+' ∧ c ≠ '-' := by
      refine ⟨?_, ?_, ?_⟩ <;> rintro rfl <;> exact absurd (hrest _ hc) (by decide)
    rw [hlist]
    exact .inr (by simp [goesOn, hfirst, hword, hsigns])

end StackToGo.Go
