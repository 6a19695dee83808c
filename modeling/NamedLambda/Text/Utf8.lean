import NamedLambda.Text.Quoted

/-!
This module contains the decoding of octets as UTF-8 text and the normal form of line ends.

The decoder reads one octet at a time. Between characters it waits for a leading octet; inside of one it
knows how many octets are owed and in which range the next one lies, so that overlong forms, surrogates
and numbers beyond the last character are refused at the first octet that shows them.
-/

namespace NamedLambda.Text

inductive DecodeReason where
  | invalidStart
  | invalidContinuation
  | unexpectedEnd
  deriving DecidableEq, Repr, Inhabited

def DecodeReason.text : DecodeReason → String
  | invalidStart => "invalid start byte"
  | invalidContinuation => "invalid continuation byte"
  | unexpectedEnd => "unexpected end of data"

structure DecodeError where
  first : UInt8
  offset : Nat
  length : Nat
  reason : DecodeReason
  deriving DecidableEq, Repr, Inhabited

def DecodeError.message (error : DecodeError) : String :=
  let place :=
    if error.length = 1 then
      "byte 0x" ++ hexadecimal 2 error.first.toNat ++ " in position " ++ toString error.offset
    else
      "bytes in position " ++ toString error.offset ++ "-"
        ++ toString (error.offset + error.length - 1)
  "'utf-8' codec can't decode " ++ place ++ ": " ++ error.reason.text

/--
A character of which octets are still owed: its leading octet and offset, the number of octets read and
owed, the range of the next one, and the bits so far.
-/
structure PartialChar where
  first : UInt8
  offset : Nat
  length : Nat
  owed : Nat
  low : UInt8
  high : UInt8
  bits : Nat
  deriving DecidableEq, Repr, Inhabited

namespace PartialChar

def start? (offset : Nat) (octet : UInt8) : Option PartialChar :=
  let owing (owed : Nat) (low high : UInt8) (mark : Nat) : Option PartialChar :=
    some { first := octet, offset, length := 1, owed, low, high, bits := octet.toNat - mark }
  if octet < 0xC2 then none
  else if octet < 0xE0 then owing 1 0x80 0xBF 0xC0
  else if octet = 0xE0 then owing 2 0xA0 0xBF 0xE0
  else if octet = 0xED then owing 2 0x80 0x9F 0xE0
  else if octet < 0xF0 then owing 2 0x80 0xBF 0xE0
  else if octet = 0xF0 then owing 3 0x90 0xBF 0xF0
  else if octet < 0xF4 then owing 3 0x80 0xBF 0xF0
  else if octet = 0xF4 then owing 3 0x80 0x8F 0xF0
  else none

def push (char : PartialChar) (octet : UInt8) : PartialChar :=
  { char with
    length := char.length + 1
    owed := char.owed - 1
    low := 0x80
    high := 0xBF
    bits := char.bits * 64 + (octet.toNat - 0x80) }

def fail (char : PartialChar) (reason : DecodeReason) : DecodeError where
  first := char.first
  offset := char.offset
  length := char.length
  reason := reason

end PartialChar

def decodeFrom (offset : Nat) (pending : Option PartialChar) :
    List UInt8 → Except DecodeError (List Char)
  | [] =>
    match pending with
    | none => .ok []
    | some char => .error (char.fail .unexpectedEnd)
  | octet :: rest =>
    match pending with
    | none =>
      if octet < 0x80 then
        (decodeFrom (offset + 1) none rest).map (Char.ofNat octet.toNat :: ·)
      else
        match PartialChar.start? offset octet with
        | none => .error { first := octet, offset, length := 1, reason := .invalidStart }
        | some char => decodeFrom (offset + 1) (some char) rest
    | some char =>
      if char.low ≤ octet && octet ≤ char.high then
        let char := char.push octet
        if char.owed = 0 then
          (decodeFrom (offset + 1) none rest).map (Char.ofNat char.bits :: ·)
        else
          decodeFrom (offset + 1) (some char) rest
      else
        .error (char.fail .invalidContinuation)

def decode (octets : List UInt8) : Except DecodeError (List Char) :=
  decodeFrom 0 none octets

def normalizeNewlines : List Char → List Char
  | '\r' :: '\n' :: rest => '\n' :: normalizeNewlines rest
  | '\r' :: rest => '\n' :: normalizeNewlines rest
  | c :: rest => c :: normalizeNewlines rest
  | [] => []

end NamedLambda.Text
