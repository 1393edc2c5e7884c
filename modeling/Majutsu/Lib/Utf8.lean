import Mathlib.Data.List.Basic

/-!
# Decoding UTF-8 with replacement

Bytes as text when they need not be UTF-8: every longest start of a character that
does not go on as one is replaced by one replacement character. Bytes that are
UTF-8 are decoded as they are, and only these can be got back.
-/

namespace Utf8

def encode (chars : List Char) : List UInt8 := chars.flatMap String.utf8EncodeChar

/-- The character at the start. -/
def decodeChar? (bytes : List UInt8) : Option Char := bytes.toByteArray.utf8DecodeChar? 0

def isContinuation (byte : UInt8) : Bool := 0x80 ≤ byte && byte ≤ 0xBF

/-- The second bytes that a character of three or four bytes can have. -/
def mayFollow (first second : UInt8) : Bool :=
  if first = 0xE0 then 0xA0 ≤ second && second ≤ 0xBF
  else if first = 0xED then 0x80 ≤ second && second ≤ 0x9F
  else if 0xE1 ≤ first && first ≤ 0xEF then isContinuation second
  else if first = 0xF0 then 0x90 ≤ second && second ≤ 0xBF
  else if first = 0xF4 then 0x80 ≤ second && second ≤ 0x8F
  else if 0xF1 ≤ first && first ≤ 0xF3 then isContinuation second
  else false

/-- How much is replaced where no character starts. -/
def invalidLength : List UInt8 → Nat
  | first :: second :: third :: _ =>
    if mayFollow first second then
      if 0xF0 ≤ first && isContinuation third then 3 else 2
    else 1
  | [first, second] => if mayFollow first second then 2 else 1
  | _ => 1

def replacement : Char := Char.ofNat 0xFFFD

def decodeLossyFrom : Nat → List UInt8 → List Char
  | 0, _ => []
  | _ + 1, [] => []
  | fuel + 1, byte :: rest =>
    match decodeChar? (byte :: rest) with
    | some char => char :: decodeLossyFrom fuel ((byte :: rest).drop char.utf8Size)
    | none =>
      replacement :: decodeLossyFrom fuel ((byte :: rest).drop (invalidLength (byte :: rest)))

def decodeLossy (bytes : List UInt8) : List Char := decodeLossyFrom bytes.length bytes

example : decodeLossy [0x61, 0xC3, 0xA9, 0xFF, 0xE2, 0x82, 0x62] =
    ['a', Char.ofNat 0xE9, replacement, replacement, 'b'] := by decide +kernel

theorem mem_of_decodeChar? {bytes : List UInt8} {char : Char} {byte : UInt8}
    (single : String.utf8EncodeChar char = [byte]) (h : decodeChar? bytes = some char) :
    byte ∈ bytes := by
  obtain ⟨rest, split_⟩ := ByteArray.exists_of_utf8DecodeChar?_eq_some h
  have lists := congrArg (fun array => array.data.toList) split_
  simp only [single, ByteArray.data_append, Array.toList_append] at lists
  have start : bytes = [byte] ++ rest.data.toList := by simpa using lists
  rw [start]
  exact List.mem_append_left _ (List.mem_singleton_self _)

theorem mem_of_mem_decodeLossy {bytes : List UInt8} {char : Char} {byte : UInt8}
    (single : String.utf8EncodeChar char = [byte]) (other : char ≠ replacement)
    (inside : char ∈ decodeLossy bytes) : byte ∈ bytes := by
  have loop : ∀ fuel bytes, char ∈ decodeLossyFrom fuel bytes → byte ∈ bytes := by
    intro fuel
    induction fuel with
    | zero => exact fun bytes inside => (by cases inside)
    | succ fuel ih =>
      intro bytes inside
      cases bytes with
      | nil => cases inside
      | cons first rest =>
        rw [decodeLossyFrom] at inside
        split at inside
        · next found decoded =>
          rcases List.mem_cons.mp inside with rfl | later
          · exact mem_of_decodeChar? single decoded
          · exact List.mem_of_mem_drop (ih _ later)
        · rcases List.mem_cons.mp inside with same | later
          · exact absurd same other
          · exact List.mem_of_mem_drop (ih _ later)
  exact loop _ bytes inside

end Utf8
