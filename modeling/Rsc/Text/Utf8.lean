import Rsc.Text.Basic

/-!
# UTF-8

Text to bytes and back. Reading is strict: overlong forms, surrogates and values above the last
code point are refused, and the reader says at which kind of byte it stopped.
-/

namespace Rsc.Utf8

/-- Why bytes are not UTF-8 text. -/
inductive Malformed where
  /-- A byte that begins no character. -/
  | start
  /-- A byte that cannot continue the character begun before it. -/
  | continuation
  /-- The bytes end inside a character. -/
  | truncated
  deriving DecidableEq, Repr

/-- The wording of a refusal. -/
def Malformed.message : Malformed → Text
  | .start => "invalid start byte".toList
  | .continuation => "invalid continuation byte".toList
  | .truncated => "unexpected end of data".toList

/-- A continuation byte carrying the low six bits of `n`. -/
def tail (n : Nat) : UInt8 := UInt8.ofNat (0x80 + n % 64)

/-- The bytes of one character. -/
def encodeChar (c : Char) : Bytes :=
  let n := c.toNat
  if n < 0x80 then [UInt8.ofNat n]
  else if n < 0x800 then [UInt8.ofNat (0xC0 + n / 64), tail n]
  else if n < 0x10000 then [UInt8.ofNat (0xE0 + n / 4096), tail (n / 64), tail n]
  else [UInt8.ofNat (0xF0 + n / 262144), tail (n / 4096), tail (n / 64), tail n]

/-- The bytes of a text. -/
def encode (t : Text) : Bytes := t.flatMap encodeChar

@[simp] theorem encode_nil : encode [] = [] := rfl

@[simp] theorem encode_append (s t : Text) : encode (s ++ t) = encode s ++ encode t := by
  simp [encode]

/-- A character that has been begun: the bits so far, how many bytes are still owed, and the
least and greatest value the next of them may have. -/
structure Pending where
  bits : Nat
  owed : Nat
  low : Nat
  high : Nat
  deriving DecidableEq, Repr

/-- What a first byte of two or more begins, if it can begin anything. -/
def begin? (b : Nat) : Option Pending :=
  if b < 0xC2 then none
  else if b < 0xE0 then some ⟨b - 0xC0, 1, 0x80, 0xBF⟩
  else if b < 0xF0 then
    some ⟨b - 0xE0, 2, if b = 0xE0 then 0xA0 else 0x80, if b = 0xED then 0x9F else 0xBF⟩
  else if b < 0xF5 then
    some ⟨b - 0xF0, 3, if b = 0xF0 then 0x90 else 0x80, if b = 0xF4 then 0x8F else 0xBF⟩
  else none

/-- The reader between two bytes: the characters read, latest first, and the one in progress. -/
structure Reader where
  done : Text
  current : Option Pending
  deriving Repr

/-- Reads one byte. -/
def Reader.step (r : Reader) (byte : UInt8) : Except Malformed Reader :=
  let b := byte.toNat
  match r.current with
  | none =>
    if b < 0x80 then .ok ⟨Char.ofNat b :: r.done, none⟩
    else match begin? b with
      | none => .error .start
      | some p => .ok ⟨r.done, some p⟩
  | some p =>
    if p.low ≤ b ∧ b ≤ p.high then
      let bits := p.bits * 64 + (b - 0x80)
      if p.owed ≤ 1 then .ok ⟨Char.ofNat bits :: r.done, none⟩
      else .ok ⟨r.done, some ⟨bits, p.owed - 1, 0x80, 0xBF⟩⟩
    else .error .continuation

/-- The text that the bytes encode. -/
def decode (bytes : Bytes) : Except Malformed Text := do
  let r ← bytes.foldlM Reader.step ⟨[], none⟩
  match r.current with
  | none => .ok r.done.reverse
  | some _ => .error .truncated

end Rsc.Utf8
