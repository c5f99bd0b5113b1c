import Loyalty.Json.Shape
import Loyalty.Text.Numeral

/-!
# Points

An amount of points is a word of 32 bits. Adding two amounts can fail, and then nothing is added.

The program rewards three actions: a user is rewarded when someone signs up with the user's code,
and the new user is rewarded for signing up, twice as well with somebody's code as without.
-/

namespace Loyalty

/-- An amount of points. -/
abbrev Points : Type := UInt32

namespace Points

/-- The sum of two amounts, `none` when it does not fit. -/
def add? (a b : Points) : Option Points :=
  if a.toNat + b.toNat < Text.word32 then some (a + b) else none

/-- The number that stands for an amount. -/
def toJson (a : Points) : Json :=
  .nat a.toNat

/-- Reads an amount. -/
def ofJson? (j : Json) : Option Points :=
  (j.toNat? Text.word32).map UInt32.ofNat

theorem add?_eq_some_iff {a b c : Points} :
    add? a b = some c ↔ a.toNat + b.toNat = c.toNat := by
  have hc : c.toNat < Text.word32 := UInt32.toNat_lt c
  by_cases h : a.toNat + b.toNat < Text.word32
  · have hadd : (a + b).toNat = a.toNat + b.toNat := by
      rw [UInt32.toNat_add]
      exact Nat.mod_eq_of_lt h
    rw [add?, if_pos h, Option.some.injEq, ← UInt32.toNat_inj, hadd]
  · rw [add?, if_neg h]
    refine ⟨fun hsome => absurd hsome (by simp), fun hsum => ?_⟩
    exact absurd (hsum ▸ hc) h

end Points

/-- An action that earns points. -/
inductive PointsAction where
  /-- someone signed up with the user's code -/
  | referUser
  /-- the user signed up with somebody's code -/
  | signUpWithReferral
  /-- the user signed up without a code -/
  | signUpWithoutReferral
  deriving DecidableEq, Repr

namespace PointsAction

/-- All actions, in their order. -/
def all : List PointsAction :=
  [referUser, signUpWithReferral, signUpWithoutReferral]

/-- The name of an action. -/
def name : PointsAction → String
  | referUser => "ReferUser"
  | signUpWithReferral => "SignUpWithReferral"
  | signUpWithoutReferral => "SignUpWithoutReferral"

/-- The action with the given name. -/
def ofName? (s : String) : Option PointsAction :=
  all.find? fun a => a.name = s

/-- What an action earns. -/
def points : PointsAction → Points
  | referUser => 200
  | signUpWithReferral => 200
  | signUpWithoutReferral => 100

/-- The string that stands for an action. -/
def toJson (a : PointsAction) : Json :=
  .text a.name

/-- Reads an action. -/
def ofJson? : Json → Option PointsAction :=
  Json.toName? ofName?

end PointsAction

end Loyalty
