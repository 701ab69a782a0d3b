import StackToGo.Proofs.Emit.Evolution
import StackToGo.Proofs.Go.Buffers
import StackToGo.Proofs.Routine
import StackToGo.Proofs.StringPool

/-!
# Byte buffers with strings in them

A variable that is a byte buffer is filled with a string by a copy from the string table, and a
byte buffer inside of an aggregate is a literal. The copy ends at the first zero byte, and the
literal goes on; from beyond the end of the string the copy takes what happens to lie there, and
the literal has no bytes. `copy_eq_literal_iff` says when the two agree.
-/

namespace StackToGo.Emit

open StackToGo.Action
open StackToGo.TypeText (Settled)

section

variable {env : Env} {s s' : State}

/-! ## The string table and the Go types of all states of emission -/

/-- Emission changes the pool of strings only by requests. -/
theorem Evolves.strings (h : Evolves env s s') :
    StringPool.Requests env.dict s.strings s'.strings := by
  induction h with
  | refl | goType | sizeOf | identifier | require | addItem | note | routineTexts => exact .refl
  | trans _ _ ih ih' => exact ih.trans ih'
  | stringOffset s id => exact StringPool.requests_offset env.dict id s.strings
  | package? s index =>
    obtain ⟨packages, asked, h⟩ := package?_frame env s index
    rw [h]
    exact .refl
  | compound _ ih => exact ih

/-- What is remembered of types stays right. -/
theorem Evolves.settled (h : Evolves env s s')
    (hs : Settled env.program.types env.target s.typeText) :
    Settled env.program.types env.target s'.typeText := by
  induction h with
  | refl | identifier | stringOffset | require | addItem | note => exact hs
  | trans _ _ ih ih' => exact ih' (ih hs)
  | goType s id => exact (TypeText.maintains_goType id s.typeText hs).1
  | sizeOf s id => exact (TypeText.maintains_sizeOf id s.typeText hs).1
  | package? s index =>
    obtain ⟨packages, asked, h⟩ := package?_frame env s index
    rwa [h]
  | routineTexts s => exact (Routine.maintains_texts s.needs s.typeText hs).1
  | compound _ ih => exact ih hs

/-- All strings lie where they should in every state of emission. -/
theorem Reached.strings_sound (h : Reached env s) : s.strings.Sound env.dict :=
  (Evolves.strings h).sound (StringPool.sound_empty env.dict env.target.mallocAlign)

/-- What is remembered of types is right in every state of emission. -/
theorem Reached.settled (h : Reached env s) : Settled env.program.types env.target s.typeText :=
  Evolves.settled h TypeText.settled_empty

/-- A string of the dictionary gets an offset at which it lies. -/
theorem Reached.exists_yields_stringOffset (h : Reached env s) {id : StringId} {bytes : Bytes}
    (hbytes : env.dict.stringBytes id = .ok bytes) :
    ∃ base s', Yields env (stringOffset id) s base s' ∧ s'.strings.offsets.lookup id = some base ∧
      StringPool.Holds s'.strings.data base bytes := by
  obtain ⟨base, p, hoffset, hlookup, hholds⟩ := h.strings_sound.exists_offset hbytes
  refine ⟨base, { s with strings := p }, ?_, hlookup, hholds⟩
  show perform (Action.zoom _ _ (StringPool.offset env.dict id)) s = _
  rw [perform_zoom, hoffset]

/-- An array of scalars gets the Go array of them. -/
theorem Reached.exists_yields_goType (h : Reached env s) {type item : TypeId} {items : Nat}
    {scalar : Scalar} (htype : env.program.types.get type = .ok (.array item items))
    (hitem : env.program.types.get item = .ok (.scalar scalar)) :
    ∃ s', Yields env (goType type) s (.array items (.scalar scalar)) s' := by
  obtain ⟨m, hm⟩ := h.settled.perform_goType htype hitem
  refine ⟨{ s with typeText := m }, ?_⟩
  show perform (Action.zoom _ _ (TypeText.goType env.program.types env.target type)) s = _
  rw [perform_zoom, hm]

/-! ## The two ways to fill a buffer -/

section

variable {type item : TypeId} {items : Nat} {scalar : Scalar} {id : StringId} {bytes : Bytes}
  {offset : Int64} {skip : Nat}

/-- The kind of a type that is known. -/
theorem kind_of_get {table : TypeTable} {ty : Ty} (h : table.get item = .ok ty) :
    table.kind item = .ok ty.kind := by
  rw [TypeTable.kind, h]
  rfl

/-- A kind that is a scalar tells the type. -/
theorem get_of_kind_scalar {table : TypeTable} (h : table.kind item = .ok (.scalar scalar)) :
    table.get item = .ok (.scalar scalar) := by
  cases hget : table.get item with
  | error e =>
    rw [TypeTable.kind, hget] at h
    cases h
  | ok ty =>
    rw [kind_of_get hget] at h
    cases ty with
    | scalar other =>
      cases h
      rfl
    | _ => cases h

/-- The statement that copies a string into the buffer `name`. -/
def copyStatement (env : Env) (name : String) (k : Kind) (items place : Nat) : Go.Stmt :=
  .eval (.call (.select (.name env.options.runtimePackage) "Xstrncpy")
    [bufferStart name k, .stringAt place, .int items])

/-- A string as the initial value of a local buffer is copied. -/
theorem yields_initializer (htype : env.program.types.get type = .ok (.array item items))
    (hitem : env.program.types.get item = .ok (.scalar scalar))
    (hscalar : (Kind.scalar scalar).isByte) (hskip : offset.toInt = skip) {base : Nat}
    (hbase : Yields env (stringOffset id) s base s') (name : String) (position : Position) :
    Yields env (initializer name type (.string id offset) position) s
      (copyStatement env name (.scalar scalar) items (base + skip)) s' := by
  unfold initializer
  refine yields_bind.2 ⟨_, _, yields_types.2 ⟨rfl, rfl⟩,
    yields_bind.2 ⟨_, _, yields_lift.2 ⟨htype, rfl⟩, ?_⟩⟩
  refine yields_bind.2 ⟨_, _, yields_lift.2 ⟨kind_of_get hitem, rfl⟩, ?_⟩
  rw [Ty.kind, if_pos hscalar, copyString, hskip, if_neg (by omega)]
  refine yields_bind.2 ⟨_, _, hbase,
    yields_bind.2 ⟨_, _, yields_read.2 ⟨rfl, rfl⟩, yields_pure.2 ⟨?_, rfl⟩⟩⟩
  simp [copyStatement]

/-- A string as the initial value of a global buffer is a literal. -/
theorem yields_value (htype : env.program.types.get type = .ok (.array item items))
    (hitem : env.program.types.get item = .ok (.scalar scalar))
    (hscalar : (Kind.scalar scalar).isByte) (hbytes : env.dict.stringBytes id = .ok bytes)
    (hskip : offset.toInt = skip) {t : Go.Ty} (ht : Yields env (goType type) s t s')
    (position : Position) :
    Yields env (value type position (.string id offset)) s
      (.composite t (stringItems (.scalar scalar) ((bytes.drop skip).take items))) s' := by
  rw [value, stringValue]
  refine yields_bind.2 ⟨_, _, yields_types.2 ⟨rfl, rfl⟩,
    yields_bind.2 ⟨_, _, yields_lift.2 ⟨htype, rfl⟩, ?_⟩⟩
  refine yields_bind.2 ⟨_, _, yields_lift.2 ⟨kind_of_get hitem, rfl⟩, ?_⟩
  rw [Ty.kind, if_pos hscalar]
  refine yields_bind.2 ⟨_, _, yields_read.2 ⟨rfl, rfl⟩,
    yields_bind.2 ⟨_, _, yields_lift.2 ⟨hbytes, rfl⟩, ?_⟩⟩
  rw [hskip, if_neg (by omega)]
  exact yields_bind.2 ⟨_, _, ht, yields_pure.2 ⟨rfl, rfl⟩⟩

end

/-- When a copy from the string table leaves the bytes of the string, with zero bytes up to the end
of the buffer. -/
theorem fill?_copyStatement_iff {table bytes : Bytes} {base : Nat}
    (h : StringPool.Holds table base bytes) (env : Env) (name : String) (k : Kind)
    (items skip : Nat) :
    (copyStatement env name k items (base + skip)).fill? env.options.runtimePackage table name
          (List.replicate items 0) =
        some (((bytes.drop skip).take items).rightpad items 0) ↔
      0 < items ∧ (skip ≤ bytes.length ∧ Go.EndsAtZero ((bytes.drop skip).take items) ∨
        bytes.length < skip ∧ table[base + skip]? = some 0) := by
  rw [copyStatement, Go.fill?_copy (Go.buffer?_bufferStart name k)]
  cases items with
  | zero => simp
  | succ items =>
    rcases Nat.lt_or_ge bytes.length skip with hbeyond | hinside
    · -- Nothing of the string is left.
      have hempty : ((bytes.drop skip).take (items + 1)).rightpad (items + 1) 0 =
          List.replicate (items + 1) 0 := by
        simp [List.drop_eq_nil_of_le hbeyond.le, List.rightpad]
      rw [hempty]
      by_cases hlt : base + skip < table.length
      · rw [if_pos ⟨Nat.succ_pos items, hlt⟩, Go.strncpy_eq_replicate_iff, List.head?_drop]
        simp [hbeyond, Nat.not_le.2 hbeyond]
      · simp [hlt, Nat.not_le.2 hbeyond]
    · obtain ⟨hrest, hlt⟩ := h.drop hinside
      rw [if_pos ⟨Nat.succ_pos items, hlt⟩, Go.strncpy_eq_some_iff hrest]
      simp [hinside, Nat.not_lt.2 hinside]

/-- For every buffer of bytes and every string, from any of its bytes on: the copy that fills a
variable and the literal inside of an aggregate leave the same bytes just if the buffer has items,
and either nothing but zero bytes follows a zero byte in the part of the string that the buffer
takes, or that part begins beyond the end of the string and a zero byte happens to lie there in the
string table. The part begins at an exact sum (`copyString`). -/
theorem copy_eq_literal_iff {type item : TypeId} {items : Nat} {scalar : Scalar}
    (htype : env.program.types.get type = .ok (.array item items))
    (hitem : env.program.types.get item = .ok (.scalar scalar))
    (hscalar : scalar = .int8 ∨ scalar = .uint8) {id : StringId} {bytes : Bytes}
    (hbytes : env.dict.stringBytes id = .ok bytes) {offset : Int64} {skip : Nat}
    (hskip : offset.toInt = skip) (hs : Reached env s) (hs' : Reached env s') (name : String)
    (position : Position) :
    ∃ copy s₁ base literal s₂,
      Yields env (initializer name type (.string id offset) position) s copy s₁ ∧
      s₁.strings.offsets.lookup id = some base ∧
      Yields env (value type position (.string id offset)) s' literal s₂ ∧
      literal.bytes? = some (((bytes.drop skip).take items).rightpad items 0) ∧
      ∀ final, Evolves env s₁ final →
        (copy.fill? env.options.runtimePackage final.strings.data name (List.replicate items 0) =
          literal.bytes? ↔
          0 < items ∧ (skip ≤ bytes.length ∧ Go.EndsAtZero ((bytes.drop skip).take items) ∨
            bytes.length < skip ∧ final.strings.data[base + skip]? = some 0)) := by
  have hbyte : (Kind.scalar scalar).isByte := by
    rcases hscalar with rfl | rfl <;> rfl
  obtain ⟨base, s₁, hbase, hlookup, hholds⟩ := hs.exists_yields_stringOffset hbytes
  obtain ⟨s₂, ht⟩ := hs'.exists_yields_goType htype hitem
  have hliteral := Go.bytes?_stringItems hbyte (List.length_take_le items (bytes.drop skip))
  refine ⟨_, s₁, base, _, s₂, yields_initializer htype hitem hbyte hskip hbase name position,
    hlookup, yields_value htype hitem hbyte hbytes hskip ht position, hliteral,
    fun final hfinal => ?_⟩
  rw [hliteral]
  exact fill?_copyStatement_iff (hholds.mono hfinal.strings.extends.data) env name _ items skip

end

/-- A dictionary with the strings `a`, NUL, `b` and `x`, `y`, and a type of buffers of three signed
bytes. -/
def stringBuffers : Env where
  dict := .ofList [[0x61, 0, 0x62], [0x78, 0x79]]
  program := ⟨TypeTable.empty.internEach [.array TypeTable.int8 3], []⟩
  target := ⟨8, false⟩
  options := {}
  qualifier := fun _ _ => ""

/-- Of the string with a NUL inside, the rest behind it is copied as the literal has it. -/
theorem copy_eq_literal_rest : ∃ copy s₁ literal s₂,
    Yields stringBuffers (initializer "_a" ⟨14⟩ (.string ⟨2⟩ 1) .unknown)
      (.start stringBuffers.target) copy s₁ ∧
    Yields stringBuffers (value ⟨14⟩ .unknown (.string ⟨2⟩ 1))
      (.start stringBuffers.target) literal s₂ ∧
    copy.fill? "crt" s₁.strings.data "_a" [0, 0, 0] = literal.bytes? := by
  obtain ⟨copy, s₁, base, literal, s₂, hcopy, -, hliteral, -, hiff⟩ :=
    @copy_eq_literal_iff stringBuffers _ _ ⟨14⟩ TypeTable.int8 3 .int8 rfl rfl (.inl rfl) ⟨2⟩
      [0x78, 0x79] rfl 1 1 rfl (.refl _) (.refl _) "_a" .unknown
  exact ⟨copy, s₁, literal, s₂, hcopy, hliteral,
    (hiff s₁ (.refl s₁)).2 ⟨by decide, .inl (by decide)⟩⟩

/-- So the two ways do not agree for all strings. -/
theorem copy_may_differ :
    ¬∀ (env : Env) (s s₁ s₂ : State) (type item : TypeId) (items : Nat) (id : StringId)
      (offset : Int64) (name : String) (position : Position) (copy : Go.Stmt)
        (literal : Go.Expr), Reached env s →
        env.program.types.get type = .ok (.array item items) →
        env.program.types.get item = .ok (.scalar .int8) →
        0 ≤ offset.toInt → 0 < items →
        Yields env (initializer name type (.string id offset) position) s copy s₁ →
        Yields env (value type position (.string id offset)) s literal s₂ →
        copy.fill? env.options.runtimePackage s₁.strings.data name (List.replicate items 0) =
          literal.bytes? := by
  intro h
  have hsame :=
    h stringBuffers (.start stringBuffers.target) _ _ ⟨14⟩ TypeTable.int8 3 ⟨1⟩ 0 "_a" .unknown _ _
    (.refl _) rfl rfl (by decide) (by decide) rfl rfl
  exact absurd hsame (by decide)

end StackToGo.Emit
