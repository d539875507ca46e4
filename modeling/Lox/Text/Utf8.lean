/-
Strict reading of bytes as UTF-8. Every text has one encoding: the shortest,
without surrogates and within the Unicode range. The reader takes the bytes
from left to right and stops at the first that cannot go on.

A fault names the run of bytes that began well and could not be finished, and
what was wrong behind it.
-/

namespace Lox.Text.Utf8

/-- Why a run of bytes is no character. -/
inductive Reason where
  | startByte
  | continuationByte
  | endOfData
deriving DecidableEq

/-- The faulty run: its first byte, where it stands, and how many bytes it has. -/
structure Fault where
  reason : Reason
  first : UInt8
  position : Nat
  length : Nat

def Reason.message : Reason → String
  | .startByte => "invalid start byte"
  | .continuationByte => "invalid continuation byte"
  | .endOfData => "unexpected end of data"

def hexDigit (n : Nat) : Char := (Nat.digitChar n)

/-- A byte in two hexadecimal digits. -/
def hexByte (b : UInt8) : String :=
  String.ofList [hexDigit (b.toNat / 16), hexDigit (b.toNat % 16)]

/-- One byte is shown with its value, several by their positions. -/
def Fault.message (fault : Fault) : String :=
  if fault.length = 1 then
    s!"'utf-8' codec can't decode byte 0x{hexByte fault.first} in position "
      ++ s!"{fault.position}: {fault.reason.message}"
  else
    s!"'utf-8' codec can't decode bytes in position {fault.position}-"
      ++ s!"{fault.position + fault.length - 1}: {fault.reason.message}"

-- ============================================================ one character

/-- The character at the head of a row of bytes: itself and how many bytes it took, or what was
wrong and how many bytes had been good. -/
inductive Head where
  | char (c : Char) (length : Nat)
  | bad (reason : Reason) (length : Nat)

/-- Whether a byte can stand in second place or later. -/
def isContinuation (b : UInt8) : Bool := 0x80 ≤ b && b < 0xC0

/-- Whether a byte can stand in second place behind `b`: behind four leading bytes the range is
narrower, which keeps out long forms, surrogates and code points beyond the last. -/
def isSecond (b second : UInt8) : Bool :=
  isContinuation second
    && (b != 0xE0 || 0xA0 ≤ second) && (b != 0xED || second < 0xA0)
    && (b != 0xF0 || 0x90 ≤ second) && (b != 0xF4 || second < 0x90)

/-- The bits that a byte behind the first one adds to a code point. -/
def low (b : UInt8) : Nat := b.toNat % 0x40

/-- The character that starts with the byte `b`. -/
def head (b : UInt8) (rest : List UInt8) : Head :=
  if b < 0x80 then .char (Char.ofNat b.toNat) 1
  else if b < 0xC2 || 0xF5 ≤ b then .bad .startByte 1
  else if b < 0xE0 then
    match rest with
    | [] => .bad .endOfData 1
    | b2 :: _ =>
      if isContinuation b2 then .char (Char.ofNat (b.toNat % 0x20 * 0x40 + low b2)) 2
      else .bad .continuationByte 1
  else
    match rest with
    | [] => .bad .endOfData 1
    | b2 :: rest =>
      if !isSecond b b2 then .bad .continuationByte 1
      else
        match rest with
        | [] => .bad .endOfData 2
        | b3 :: rest =>
          if !isContinuation b3 then .bad .continuationByte 2
          else if b < 0xF0 then
            .char (Char.ofNat ((b.toNat % 0x10 * 0x40 + low b2) * 0x40 + low b3)) 3
          else
            match rest with
            | [] => .bad .endOfData 3
            | b4 :: _ =>
              if !isContinuation b4 then .bad .continuationByte 3
              else
                .char (Char.ofNat
                  (((b.toNat % 0x08 * 0x40 + low b2) * 0x40 + low b3) * 0x40 + low b4)) 4

-- ============================================================== whole texts

/-- Reads on behind `position` bytes; `skip` bytes belong to the last character read. -/
def decodeFrom (position skip : Nat) : List UInt8 → Except Fault (List Char)
  | [] => .ok []
  | b :: rest =>
    match skip with
    | skip + 1 => decodeFrom (position + 1) skip rest
    | 0 =>
      match head b rest with
      | .bad reason length => .error ⟨reason, b, position, length⟩
      | .char c length => (c :: ·) <$> decodeFrom (position + 1) (length - 1) rest

/-- The text that a row of bytes encodes. -/
def decode (bytes : List UInt8) : Except Fault (List Char) := decodeFrom 0 0 bytes

end Lox.Text.Utf8
