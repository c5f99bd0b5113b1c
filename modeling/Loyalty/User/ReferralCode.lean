import Loyalty.Text.Numeral

/-!
# Referral codes

The code that a user hands out is short and can stand in a link as it is: eight characters, each
one of 64. Six bits of a byte choose a character, so eight bytes that nobody can guess make a code
that nobody can guess.
-/

namespace Loyalty.ReferralCode

/-- How long a code is. -/
def length : Nat := 8

/-- The characters of which codes consist. -/
def alphabet : List Char :=
  "ABCDEFGHIJKLMNOPQRSTUVWXYZabcdefghijklmnopqrstuvwxyz0123456789-_".toList

/-- The character that the low six bits of a byte choose. -/
def charOf (byte : UInt8) : Char :=
  alphabet.getD (byte.toNat % 64) 'A'

/-- The code that bytes make. -/
def ofBytes (bytes : List UInt8) : String :=
  String.ofList ((bytes.take length).map charOf)

/-- The text has the form of a code. -/
def isWellFormed (s : String) : Bool :=
  s.length = length && s.toList.all alphabet.contains

/-- A code made of enough bytes has the form of a code. -/
theorem isWellFormed_ofBytes {bytes : List UInt8} (h : length ≤ bytes.length) :
    isWellFormed (ofBytes bytes) = true := by
  have charOf_mem : ∀ b : UInt8, charOf b ∈ alphabet := by
    intro b
    have hb : b.toNat % 64 < alphabet.length := by
      have : alphabet.length = 64 := by decide
      omega
    rw [charOf, List.getD_eq_getElem?_getD, List.getElem?_eq_getElem hb]
    exact List.getElem_mem hb
  have hall : ∀ c ∈ (bytes.take length).map charOf, alphabet.contains c = true := by
    intro c hc
    obtain ⟨b, -, rfl⟩ := List.mem_map.1 hc
    exact List.contains_iff_mem.2 (charOf_mem b)
  simpa [isWellFormed, ofBytes, h] using hall

end Loyalty.ReferralCode
