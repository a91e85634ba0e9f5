/-! Strict decoding of text from bytes, one byte at a time. A malformed piece is the longest valid
beginning of a character together with what makes it invalid. -/

namespace VisitGraph.Text.Utf8

/-- Why bytes are not text. -/
inductive Reason where
  | start
  | continuation
  | unfinished
  deriving DecidableEq, Repr

/-- The piece of the input that could not be read: its position, its length, its first byte. -/
structure Defect where
  position : Nat
  length : Nat
  byte : UInt8
  reason : Reason
  deriving DecidableEq, Repr

/-- A character of which some bytes have been read. The next byte has to lie between `low` and
`high`; a later one may be any continuation byte. -/
structure Begun where
  position : Nat
  lead : UInt8
  taken : Nat
  missing : Nat
  low : UInt8
  high : UInt8
  scalar : Nat
  deriving DecidableEq, Repr

/-- What has been read so far: the number of bytes, the characters in reverse order, and the
character that has been begun. -/
structure State where
  position : Nat
  read : List Char
  begun? : Option Begun
  deriving DecidableEq, Repr

/-- The character that a leading byte begins. The bounds on the second byte leave out overlong
forms, surrogates and everything beyond the last code point. -/
def begin? (position : Nat) (b : UInt8) : Option Begun :=
  let begun (missing : Nat) (low high : UInt8) (scalar : Nat) : Option Begun :=
    some ⟨position, b, 1, missing, low, high, scalar⟩
  let n := b.toNat
  if 0xc2 ≤ n ∧ n ≤ 0xdf then begun 1 0x80 0xbf (n - 0xc0)
  else if n = 0xe0 then begun 2 0xa0 0xbf 0
  else if n = 0xed then begun 2 0x80 0x9f 0xd
  else if 0xe1 ≤ n ∧ n ≤ 0xef then begun 2 0x80 0xbf (n - 0xe0)
  else if n = 0xf0 then begun 3 0x90 0xbf 0
  else if 0xf1 ≤ n ∧ n ≤ 0xf3 then begun 3 0x80 0xbf (n - 0xf0)
  else if n = 0xf4 then begun 3 0x80 0x8f 4
  else none

/-- The character with one more byte. -/
def Begun.extend (p : Begun) (b : UInt8) : Begun :=
  { p with
    taken := p.taken + 1
    missing := p.missing - 1
    low := 0x80
    high := 0xbf
    scalar := p.scalar * 64 + b.toNat % 64 }

/-- The malformed piece that a character makes which cannot go on. -/
def Begun.defect (p : Begun) (reason : Reason) : Defect :=
  ⟨p.position, p.taken, p.lead, reason⟩

/-- Reads one byte. -/
def State.step (s : State) (b : UInt8) : Except Defect State :=
  match s.begun? with
  | none =>
    if b < 0x80 then .ok ⟨s.position + 1, Char.ofNat b.toNat :: s.read, none⟩
    else
      match begin? s.position b with
      | some p => .ok ⟨s.position + 1, s.read, some p⟩
      | none => .error ⟨s.position, 1, b, .start⟩
  | some p =>
    if p.low ≤ b ∧ b ≤ p.high then
      let p := p.extend b
      if p.missing = 0 then .ok ⟨s.position + 1, Char.ofNat p.scalar :: s.read, none⟩
      else .ok ⟨s.position + 1, s.read, some p⟩
    else .error (p.defect .continuation)

/-- The text that the bytes stand for, or the first malformed piece. -/
def decode (bytes : List UInt8) : Except Defect (List Char) := do
  let s ← bytes.foldlM State.step ⟨0, [], none⟩
  match s.begun? with
  | none => return s.read.reverse
  | some p => throw (p.defect .unfinished)

/-- The bytes of a text. -/
def encode (text : String) : List UInt8 :=
  text.toUTF8.data.toList

end VisitGraph.Text.Utf8
