/-!
# Reading bytes as text

Names are byte strings, and a message shows them as text. Reading never fails: the bytes are cut
into well-formed UTF-8 sequences and *invalid parts*, and each invalid part shows as one
replacement character. An invalid part is as long as possible: it holds the first bytes of a
sequence up to, and without, the byte at which the sequence breaks off.
-/

namespace StackToGo

/-- A byte string. Names and string literals are byte strings, of any content. -/
abbrev Bytes := List UInt8

namespace Text

/-- What stands for an invalid part. -/
def replacement : Char := '�'

/-- A sequence that has begun: how many more bytes it asks for, the range of the next one, and the
bits collected so far. -/
structure Sequence where
  missing : Nat
  low : Nat
  high : Nat
  bits : Nat
  deriving DecidableEq, Repr

/-- The sequence that a lead byte begins, if it is one. Overlong forms, surrogates and code points
past the last are excluded by the range of the second byte. -/
def Sequence.ofLead? (b : Nat) : Option Sequence :=
  if 0xC2 ≤ b ∧ b ≤ 0xDF then some ⟨1, 0x80, 0xBF, b - 0xC0⟩
  else if b = 0xE0 then some ⟨2, 0xA0, 0xBF, 0⟩
  else if b = 0xED then some ⟨2, 0x80, 0x9F, 0xD⟩
  else if 0xE1 ≤ b ∧ b ≤ 0xEF then some ⟨2, 0x80, 0xBF, b - 0xE0⟩
  else if b = 0xF0 then some ⟨3, 0x90, 0xBF, 0⟩
  else if 0xF1 ≤ b ∧ b ≤ 0xF3 then some ⟨3, 0x80, 0xBF, b - 0xF0⟩
  else if b = 0xF4 then some ⟨3, 0x80, 0x8F, 4⟩
  else none

/-- A byte between two sequences: the characters it completes, and the sequence it begins. -/
def beginSequence (b : Nat) : List Char × Option Sequence :=
  if b < 0x80 then ([Char.ofNat b], none)
  else match Sequence.ofLead? b with
    | some p => ([], some p)
    | none => ([replacement], none)

/-- One more byte. A byte that does not continue the open sequence ends an invalid part, and is
then read afresh. -/
def feed : Option Sequence → Nat → List Char × Option Sequence
  | none, b => beginSequence b
  | some p, b =>
    if p.low ≤ b ∧ b ≤ p.high then
      let bits := p.bits * 64 + b % 64
      if p.missing ≤ 1 then ([Char.ofNat bits], none)
      else ([], some ⟨p.missing - 1, 0x80, 0xBF, bits⟩)
    else
      let (out, next) := beginSequence b
      (replacement :: out, next)

/-- The characters of the remaining bytes, given the sequence that is open before them. -/
def readFrom : Option Sequence → Bytes → List Char
  | none, [] => []
  | some _, [] => [replacement]
  | p, b :: rest =>
    let (out, next) := feed p b.toNat
    out ++ readFrom next rest

/-- Bytes as text, each invalid part shown as one replacement character. -/
def readLossy (bytes : Bytes) : List Char := readFrom none bytes

end Text
end StackToGo
