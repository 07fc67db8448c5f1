/-
Reading UTF-8, one octet at a time. Between characters the next octet decides how many more the
character takes and which octets may come second; a fault names the octet at which the character
starts, and how many of its octets were good, unless the text just ends too early.
-/

namespace LetLint.Text.Utf8

/-- Why octets are not UTF-8; `start` counts the octets before the faulty character. -/
inductive Fault where
  /-- The first `length` octets at `start` cannot be continued by what follows. -/
  | invalid (length start : Nat)
  /-- The text ends inside the character at `start`. -/
  | incomplete (start : Nat)
  deriving Repr, DecidableEq

/-- The wording of a fault. -/
def Fault.message : Fault → String
  | .invalid length start =>
    "invalid utf-8 sequence of " ++ toString length ++ " bytes from index " ++ toString start
  | .incomplete start => "incomplete utf-8 byte sequence from index " ++ toString start

/-- A character of which `done` octets are read and `owed` are still to come. -/
structure Pending where
  start : Nat
  done : Nat
  owed : Nat
  /-- The least and the greatest octet that may come next. -/
  low : Nat
  high : Nat
  /-- The bits read so far. -/
  code : Nat

/-- What the first octet of a character of several octets leaves open. -/
def lead? (start octet : Nat) : Option Pending :=
  if 0xC2 ≤ octet ∧ octet ≤ 0xDF then some ⟨start, 1, 1, 0x80, 0xBF, octet - 0xC0⟩
  else if octet = 0xE0 then some ⟨start, 1, 2, 0xA0, 0xBF, 0⟩
  else if octet = 0xED then some ⟨start, 1, 2, 0x80, 0x9F, 0xD⟩
  else if 0xE1 ≤ octet ∧ octet ≤ 0xEF then some ⟨start, 1, 2, 0x80, 0xBF, octet - 0xE0⟩
  else if octet = 0xF0 then some ⟨start, 1, 3, 0x90, 0xBF, 0⟩
  else if 0xF1 ≤ octet ∧ octet ≤ 0xF3 then some ⟨start, 1, 3, 0x80, 0xBF, octet - 0xF0⟩
  else if octet = 0xF4 then some ⟨start, 1, 3, 0x80, 0x8F, 4⟩
  else none

/-- Reads the octets from the octet numbered `place` on, with a character pending or none. -/
def decodeFrom (place : Nat) : Option Pending → List UInt8 → Except Fault (List Char)
  | none, [] => .ok []
  | some pending, [] => .error (.incomplete pending.start)
  | none, octet :: rest =>
    if octet.toNat < 0x80 then
      (decodeFrom (place + 1) none rest).map (Char.ofNat octet.toNat :: ·)
    else
      match lead? place octet.toNat with
      | none => .error (.invalid 1 place)
      | some pending => decodeFrom (place + 1) (some pending) rest
  | some pending, octet :: rest =>
    if pending.low ≤ octet.toNat ∧ octet.toNat ≤ pending.high then
      let code := pending.code * 64 + (octet.toNat - 0x80)
      if pending.owed ≤ 1 then
        (decodeFrom (place + 1) none rest).map (Char.ofNat code :: ·)
      else
        decodeFrom (place + 1)
          (some ⟨pending.start, pending.done + 1, pending.owed - 1, 0x80, 0xBF, code⟩) rest
    else
      .error (.invalid pending.done pending.start)

/-- The text that the octets encode. -/
def decode (octets : List UInt8) : Except Fault String :=
  (decodeFrom 0 none octets).map String.ofList

end LetLint.Text.Utf8
