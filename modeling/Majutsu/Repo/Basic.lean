import Mathlib.Algebra.GroupWithZero.Nat
import Mathlib.Data.List.Basic

/-!
# Bytes and texts

The vocabulary shared by the parts of the repository: byte strings, texts as
lists of characters, and the two operations on texts that several parts use.
-/

namespace Majutsu.Repo

abbrev Bytes := List UInt8
abbrev Text := List Char

def smallBlobMaxSize : Nat := 128 * 1024

def isWhitespace (c : Char) : Bool :=
  c = ' ' || ('\x09' ≤ c && c ≤ '\x0d') || c.toNat = 0x85 || c.toNat = 0xa0 || c.toNat = 0x1680 ||
    (0x2000 ≤ c.toNat && c.toNat ≤ 0x200a) || c.toNat = 0x2028 || c.toNat = 0x2029 ||
    c.toNat = 0x202f || c.toNat = 0x205f || c.toNat = 0x3000

def trim (text : Text) : Text :=
  ((text.dropWhile isWhitespace).reverse.dropWhile isWhitespace).reverse

/-- `str::as_bytes` of a text of ASCII characters. -/
def asciiBytes (text : String) : Bytes := text.toList.map (fun c => c.toNat.toUInt8)

def hexDigit (c : Char) : Option Nat :=
  if '0' ≤ c ∧ c ≤ '9' then some (c.toNat - '0'.toNat)
  else if 'a' ≤ c ∧ c ≤ 'f' then some (c.toNat - 'a'.toNat + 10)
  else if 'A' ≤ c ∧ c ≤ 'F' then some (c.toNat - 'A'.toNat + 10)
  else none

def hexPairs (position : Nat) : Text → Except String Bytes
  | hi :: lo :: rest =>
    match hexDigit hi, hexDigit lo with
    | some h, some l => do .ok ((16 * h + l).toUInt8 :: (← hexPairs (position + 2) rest))
    | none, _ => .error s!"Invalid character '{hi}' at position {position}"
    | _, none => .error s!"Invalid character '{lo}' at position {position + 1}"
  | _ => .ok []

/-- `hex::decode`. -/
def hexDecode (text : Text) : Except String Bytes :=
  if text.length % 2 ≠ 0 then .error "Odd number of digits" else hexPairs 0 text

end Majutsu.Repo
