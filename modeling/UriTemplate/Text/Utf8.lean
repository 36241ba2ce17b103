import UriTemplate.Text.Basic

/-!
# UTF-8

* `CodePoint.utf8`, `Text.utf8` — the bytes of a text; a surrogate gets the three bytes of its number;
* `Utf8.pieces` — any byte sequence cut into code points and maximal ill-formed parts;
* `Utf8.decode` — strict reading, with the place of the first fault;
* `Utf8.decodeReplacing` — reading that puts one U+FFFD for every maximal ill-formed part.
-/

namespace UriTemplate

abbrev Bytes := List UInt8

/-- One to four bytes.  Surrogates are written like any other number below U+10000. -/
def CodePoint.utf8 (c : CodePoint) : Bytes :=
  let continuation (k : Nat) : UInt8 := .ofNat (0x80 + c.val / 64 ^ k % 64)
  if c.val < 0x80 then [.ofNat c.val]
  else if c.val < 0x800 then [.ofNat (0xC0 + c.val / 64), continuation 0]
  else if c.val < 0x10000 then [.ofNat (0xE0 + c.val / 64 ^ 2), continuation 1, continuation 0]
  else [.ofNat (0xF0 + c.val / 64 ^ 3), continuation 2, continuation 1, continuation 0]

def Text.utf8 (t : Text) : Bytes := t.flatMap CodePoint.utf8

namespace Utf8

inductive Reason
  | startByte
  | continuationByte
  | endOfData
deriving DecidableEq

def Reason.message : Reason → String
  | .startByte => "invalid start byte"
  | .continuationByte => "invalid continuation byte"
  | .endOfData => "unexpected end of data"

/-- A code point in UTF-8, or a maximal part that no well-formed sequence begins with or goes on from. -/
inductive Piece
  | codePoint (c : CodePoint)
  | illFormed (length : Nat) (first : UInt8) (reason : Reason)
deriving DecidableEq

/-- The number of bytes of a piece. -/
def Piece.length : Piece → Nat
  | .codePoint c => c.utf8.length
  | .illFormed length _ _ => length

/-- A sequence that has begun: its start byte, the bits and the bytes so far, the number of bytes that are
still to come after the next one, and the range of the next one. -/
structure Pending where
  first : UInt8
  value : Nat
  length : Nat
  missing : Nat
  low : UInt8
  high : UInt8

/-- What a start byte begins.  The range of the second byte leaves out overlong forms, surrogates and
numbers beyond U+10FFFF. -/
def start (b : UInt8) : List Piece × Option Pending :=
  let opens (bits missing : Nat) (low high : UInt8) : List Piece × Option Pending :=
    ([], some ⟨b, b.toNat % bits, 1, missing, low, high⟩)
  if b ≤ 0x7F then ([.codePoint (.ofNat b.toNat)], none)
  else if b ≤ 0xC1 then ([.illFormed 1 b .startByte], none)
  else if b ≤ 0xDF then opens 32 0 0x80 0xBF
  else if b = 0xE0 then opens 16 1 0xA0 0xBF
  else if b = 0xED then opens 16 1 0x80 0x9F
  else if b ≤ 0xEF then opens 16 1 0x80 0xBF
  else if b = 0xF0 then opens 8 2 0x90 0xBF
  else if b ≤ 0xF3 then opens 8 2 0x80 0xBF
  else if b = 0xF4 then opens 8 2 0x80 0x8F
  else ([.illFormed 1 b .startByte], none)

/-- The pieces of a byte sequence that stands behind `pending`. -/
def piecesFrom (pending : Option Pending) : Bytes → List Piece
  | [] => (pending.map fun p => .illFormed p.length p.first .endOfData).toList
  | b :: bs =>
    match pending with
    | none => (start b).1 ++ piecesFrom (start b).2 bs
    | some p =>
      if p.low ≤ b && b ≤ p.high then
        let value := p.value * 64 + b.toNat % 64
        match p.missing with
        | 0 => .codePoint (.ofNat value) :: piecesFrom none bs
        | missing + 1 => piecesFrom (some ⟨p.first, value, p.length + 1, missing, 0x80, 0xBF⟩) bs
      else .illFormed p.length p.first .continuationByte :: (start b).1 ++ piecesFrom (start b).2 bs

def pieces (bs : Bytes) : List Piece := piecesFrom none bs

/-- The first ill-formed part of a byte sequence: where it begins, its bytes and what is wrong. -/
structure Fault where
  start : Nat
  length : Nat
  first : UInt8
  reason : Reason
deriving DecidableEq

def Fault.message (e : Fault) : Text :=
  let byte : Text := Text.ofChars (Nat.toDigits 16 e.first.toNat)
  let start := Text.ofNat e.start
  if e.length = 1 then
    ("'utf-8' codec can't decode byte 0x" : Text) ++ byte ++ (" in position " : Text) ++ start
      ++ (": " : Text) ++ (e.reason.message : Text)
  else
    ("'utf-8' codec can't decode bytes in position " : Text) ++ start ++ ("-" : Text)
      ++ Text.ofNat (e.start + e.length - 1) ++ (": " : Text) ++ (e.reason.message : Text)

/-- The text of pieces that begin at position `position`. -/
def textOf (position : Nat) : List Piece → Except Fault Text
  | [] => .ok []
  | .codePoint c :: ps => (c :: ·) <$> textOf (position + c.utf8.length) ps
  | .illFormed length first reason :: _ => .error ⟨position, length, first, reason⟩

/-- Strict reading: the first ill-formed part is a fault. -/
def decode (bs : Bytes) : Except Fault Text := textOf 0 (pieces bs)

def Piece.replaced : Piece → CodePoint
  | .codePoint c => c
  | .illFormed .. => .replacement

/-- Reading in which U+FFFD stands for every maximal ill-formed part. -/
def decodeReplacing (bs : Bytes) : Text := (pieces bs).map Piece.replaced

end Utf8

end UriTemplate
