import StackToGo.Proofs.Emit.Objects

/-!
# References to string literals

Code refers to a string literal by its place in the string table. `accessor_calls_hit_literals`:
every such place is that of a literal of the finished table, plus an offset of the program. A place
is inside of the table if the offset is inside of the literal; an initial value with an offset that
is not may lead anywhere.
-/

namespace StackToGo

/-- All initial values of the program that point into string literals stay inside of them. -/
def Program.PointsWithin (p : Program) (dict : Dictionary) : Prop :=
  ∀ r ∈ p.objects.flatMap Object.stringPlaces, ∀ bytes, dict.stringBytes r.1 = .ok bytes →
    StringPool.Within bytes r.2

/-- The places that such a program points to are inside of their literals. -/
theorem Program.PointsWithin.within {p : Program} {dict : Dictionary} (h : p.PointsWithin dict)
    {id : StringId} {offset : Int} (hpoints : p.PointsTo id offset) {bytes : Bytes}
    (hbytes : dict.stringBytes id = .ok bytes) :
    StringPool.Within bytes offset := by
  rcases hpoints with rfl | hmem
  · exact ⟨Int.le_refl 0, Int.natCast_nonneg _⟩
  · exact h (id, offset) hmem bytes hbytes

namespace Emit

open StackToGo.Go

variable {env : Env} {s : State} {parts : List (List (Item Stmt Expr))} {routines : List String}
  {out : List (Item Stmt Expr)}

/-- A call of the accessor refers to a literal of the pool, and the pool is in the file. -/
theorem File.exists_literal (h : File env s parts routines out) {c : Call}
    (hc : c ∈ out.flatMap Item.calls) (hname : c.name = "str") :
    .text s.strings.table ∈ out ∧ ∃ id offset start bytes, env.program.PointsTo id offset ∧
      env.dict.stringBytes id = .ok bytes ∧ StringPool.Holds s.strings.data start bytes ∧
      c.argument = some (start + offset) := by
  obtain ⟨id, offset, start, hpoints, hlookup, hargument⟩ :=
    h.supply.string c (h.calls_subset hc) hname
  obtain ⟨bytes, hbytes, hholds⟩ := h.reached.strings_sound.holds id start hlookup
  refine ⟨?_, id, offset, start, bytes, hpoints, hbytes, hholds, hargument⟩
  have htable : .text s.strings.table ∈
      parts.flatten ++ (Routine.boolToInt :: routines ++ s.strings.declarations).map .text := by
    rw [StringPool.declarations_eq, StringPool.isEmpty_of_lookup hlookup]
    simp
  obtain ⟨item, hitem, hcleaned⟩ := exists_mem_of_forall₂ h.cleaned htable
  cases hcleaned
  exact hitem

/-- In every file, each call of the accessor of the string table is for a literal of the finished
table, at an offset that is zero or stands in an initial value of the program. The place is inside
of the table if the offset is inside of the literal. So all places are inside of the table if no
initial value points out of its literal. Places are exact sums (`stringPointer`), which only
matters for offsets outside of the literals. -/
theorem accessor_calls_hit_literals {text : String} (h : (generate env).answer = .text text) :
    ∃ out s, fileParts env = .ok (out, s) ∧ text = sourceText out ∧
      (∀ c ∈ out.flatMap Item.calls, c.name = "str" → .text s.strings.table ∈ out ∧
        ∃ id offset start bytes, env.program.PointsTo id offset ∧
          env.dict.stringBytes id = .ok bytes ∧
          StringPool.Holds s.strings.data start bytes ∧ c.argument = some (start + offset) ∧
          (StringPool.Within bytes offset → 0 ≤ start + offset ∧
            start + offset < s.strings.data.length)) ∧
      (env.program.PointsWithin env.dict → ∀ c ∈ out.flatMap Item.calls, c.name = "str" →
        ∃ n, c.argument = some n ∧ 0 ≤ n ∧ n < s.strings.data.length) := by
  obtain ⟨s, parts, routines, out, hfile, hparts, htext⟩ := exists_file_of_generate h
  refine ⟨out, s, hparts, htext, ?_, ?_⟩
  · intro c hc hname
    obtain ⟨htable, id, offset, start, bytes, hpoints, hbytes, hholds, hargument⟩ :=
      hfile.exists_literal hc hname
    exact ⟨htable, id, offset, start, bytes, hpoints, hbytes, hholds, hargument, hholds.bounds⟩
  · intro hwithin c hc hname
    obtain ⟨-, id, offset, start, bytes, hpoints, hbytes, hholds, hargument⟩ :=
      hfile.exists_literal hc hname
    exact ⟨_, hargument, hholds.bounds (hwithin.within hpoints hbytes)⟩

/-- A program with a pointer `p` that leads to the given offset in the string `hi`, and a buffer
`q` of three bytes that is filled with the string `q`. -/
def pointing (offset : Int64) : Env where
  dict := .ofList [[0x70], [0x68, 0x69], [0x71]]
  program := ⟨TypeTable.empty.internEach [.pointer TypeTable.int8, .array TypeTable.int8 3],
    [.data ⟨⟨1⟩, .unexported, ⟨14⟩, .unknown, some (.string ⟨2⟩ offset)⟩,
      .data ⟨⟨3⟩, .unexported, ⟨15⟩, .unknown, some (.string ⟨3⟩ 0)⟩]⟩
  target := ⟨8, false⟩
  options := {}
  qualifier := fun _ _ => ""

/-- A pointer to the zero byte behind the string is inside of the table. -/
theorem pointing_to_end : ∃ text out s, (generate (pointing 2)).answer = .text text ∧
    fileParts (pointing 2) = .ok (out, s) ∧ text = sourceText out ∧
    ⟨"str", some 2⟩ ∈ out.flatMap Item.calls ∧
    .text s.strings.table ∈ out ∧ 2 < s.strings.data.length := by
  obtain ⟨text, htext⟩ :=
    Option.isSome_iff_exists.1 (by decide +kernel : (generate (pointing 2)).answer.text?.isSome)
  have hwithin : (pointing 2).program.PointsWithin (pointing 2).dict := by
    intro r hr bytes hbytes
    have hplaces : (pointing 2).program.objects.flatMap Object.stringPlaces =
        [(⟨2⟩, 2), (⟨3⟩, 0)] := by decide
    have hr : r = (⟨2⟩, 2) ∨ r = (⟨3⟩, 0) := by simpa [hplaces] using hr
    rcases hr with rfl | rfl <;> cases hbytes <;> exact ⟨by decide, by decide⟩
  obtain ⟨out, s, hparts, hsource, hliterals, hinside⟩ :=
    accessor_calls_hit_literals (Answer.eq_text_of_text? htext)
  have hcalls : ⟨"str", some 2⟩ ∈ out.flatMap Item.calls := by
    have hall : (fileParts (pointing 2)).toOption.map (·.1.flatMap Item.calls) =
        some [⟨"str", some 2⟩, ⟨"str", some 16⟩] := by decide +kernel
    rw [eq_of_fileParts hall hparts]
    exact List.mem_cons_self
  obtain ⟨n, hn, -, hlt⟩ := hinside hwithin _ hcalls rfl
  cases hn
  exact ⟨text, out, s, Answer.eq_text_of_text? htext, hparts, hsource, hcalls,
    (hliterals _ hcalls rfl).1, by exact_mod_cast hlt⟩

/-- So not all calls of the accessor are inside of the table: a pointer may lead to the place
before it. -/
theorem accessor_calls_may_leave :
    ¬∀ (env : Env) (text : String), (generate env).answer = .text text →
    ∃ out s, fileParts env = .ok (out, s) ∧ text = sourceText out ∧
      ∀ c ∈ out.flatMap Item.calls, c.name = "str" → ∃ n, c.argument = some n ∧ 0 ≤ n ∧
      n < s.strings.data.length := by
  intro h
  have htext : (generate (pointing (-1))).answer = .text
      ("var _p *int8\nfunc init() \x7b\n\t_p = str(-1)\n\x7d\n" ++
        "var _q [3]int8\nfunc init() \x7b\n\tcrt.Xstrncpy(&_q[0], str(16), 3)\n\x7d\n" ++
        "func bool2int(b bool) int32 \x7b if b \x7b return 1 \x7d; return 0 \x7d\n" ++
        "func str(n int) *int8 \x7b return (*int8)(unsafe.Pointer(&strTab[n])) \x7d\n" ++
        "var strTab = []byte(\"hi" ++
        "\\x00\\x00\\x00\\x00\\x00\\x00\\x00\\x00\\x00\\x00\\x00\\x00\\x00\\x00q\\x00\")\n") :=
    Answer.eq_text_of_text? (by decide +kernel)
  obtain ⟨out, s, hparts, -, hinside⟩ := h _ _ htext
  have hcalls : ⟨"str", some (-1)⟩ ∈ out.flatMap Item.calls := by
    have hall : (fileParts (pointing (-1))).toOption.map (·.1.flatMap Item.calls) =
        some [⟨"str", some (-1)⟩, ⟨"str", some 16⟩] := by decide +kernel
    rw [eq_of_fileParts hall hparts]
    exact List.mem_cons_self
  obtain ⟨n, hn, hnonneg, -⟩ := hinside _ hcalls rfl
  cases hn
  exact absurd hnonneg (by decide)

end Emit
end StackToGo
