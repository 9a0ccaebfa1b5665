/-
# Text from bytes

The first byte of a character says how many follow and within which bounds the first of those lies, so that no
character has two spellings.  A fault names the bytes of the sequence up to the one that breaks it.
-/
import AlgoLang.Text.Quoted

namespace AlgoLang.Text

inductive Utf8Reason where
  | start
  | continuation
  | ending
  deriving DecidableEq

def Utf8Reason.message : Utf8Reason → String
  | start => "invalid start byte"
  | continuation => "invalid continuation byte"
  | ending => "unexpected end of data"

/-- Bytes that are not text: the first of them, where it stands, and where they end. -/
structure Utf8Fault where
  byte : Nat
  start : Nat
  stop : Nat
  reason : Utf8Reason
  deriving DecidableEq

def Utf8Fault.message (f : Utf8Fault) : String :=
  let place :=
    if f.stop == f.start + 1 then
      "byte 0x" ++ String.ofList (hexDigits 2 f.byte) ++ " in position " ++ toString f.start
    else "bytes in position " ++ toString f.start ++ "-" ++ toString (f.stop - 1)
  "'utf-8' codec can't decode " ++ place ++ ": " ++ f.reason.message

/-- A character that is not finished: how many bytes it still wants, the bounds of the next one, the
bits so far, its first byte and where that stands. -/
structure Unfinished where
  more : Nat
  low : Nat := 0x80
  high : Nat := 0xBF
  bits : Nat
  byte : Nat
  start : Nat

/-- What a first byte from 0x80 on opens. -/
def openSequence? (b position : Nat) : Option Unfinished :=
  if b < 0xC2 then none
  else if b < 0xE0 then some { more := 1, bits := b % 32, byte := b, start := position }
  else if b < 0xF0 then
    some { more := 2, low := if b == 0xE0 then 0xA0 else 0x80, high := if b == 0xED then 0x9F else 0xBF,
           bits := b % 16, byte := b, start := position }
  else if b < 0xF5 then
    some { more := 3, low := if b == 0xF0 then 0x90 else 0x80, high := if b == 0xF4 then 0x8F else 0xBF,
           bits := b % 8, byte := b, start := position }
  else none

/-- The characters from a position on; `done` are those before it, last first. -/
def decodeFrom (done : List Char) (pending : Option Unfinished) (position : Nat) :
    List UInt8 → Except Utf8Fault (List Char)
  | [] =>
    match pending with
    | none => .ok done.reverse
    | some u => .error ⟨u.byte, u.start, position, .ending⟩
  | x :: xs =>
    let b := x.toNat
    match pending with
    | none =>
      if b < 0x80 then decodeFrom (Char.ofNat b :: done) none (position + 1) xs
      else
        match openSequence? b position with
        | some u => decodeFrom done (some u) (position + 1) xs
        | none => .error ⟨b, position, position + 1, .start⟩
    | some u =>
      if b < u.low || u.high < b then .error ⟨u.byte, u.start, position, .continuation⟩
      else
        let bits := u.bits * 64 + b % 64
        if u.more == 1 then decodeFrom (Char.ofNat bits :: done) none (position + 1) xs
        else decodeFrom done (some { u with more := u.more - 1, low := 0x80, high := 0xBF, bits }) (position + 1) xs

def decode (bytes : List UInt8) : Except Utf8Fault (List Char) :=
  decodeFrom [] none 0 bytes

end AlgoLang.Text
