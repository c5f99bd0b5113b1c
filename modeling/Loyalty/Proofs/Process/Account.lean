import Loyalty.Proofs.Process.Chronicle
import Loyalty.Proofs.Process.Prompt

/-!
# Accounts of what happened

How an activity came to its outcome can be told in two ways. Alone in its surroundings it happens
in the order of its course: `Activity.run`. Among others it lives through whatever there was in
between: `Activity.Lives`. What is put together of parts happens part after part in either way, and
that is all that is needed to tell how often an attempt was repeated, or which commands were given.

An `Account` is such a way of telling. Its states are those of the surroundings in the first case;
in the second they are what has been lived through so far.

Main statement: both are accounts, and in both it is enough that the parts ended.
-/

namespace Loyalty

/-- A way of telling how activities come to their outcomes. -/
structure Account (S : Type) where
  /-- the activity begins in the first state and ends, with the outcome, in the last one -/
  ends : Activity → S → Outcome → S → Prop
  /-- the request is made in the first state and answered, which leads to the last one -/
  answers : (r : Request) → S → r.Answer → S → Prop
  /-- a pause of so many nanoseconds begins in the first state and is over in the last one -/
  rests : Nat → S → S → Prop
  /-- what has ended is over -/
  of_done : ∀ {o p : Outcome} {v w : S}, ends (.done o) v p w → p = o ∧ w = v
  /-- a request is answered first -/
  of_call : ∀ {r : Request} {k : r.Answer → Activity} {v w : S} {o : Outcome},
    ends (.call r k) v o w → ∃ x v', answers r v x v' ∧ ends (k x) v' o w
  /-- a pause is over first -/
  of_pause : ∀ {n : Nat} {a : Activity} {v w : S} {o : Outcome},
    ends (.pause n a) v o w → ∃ v', rests n v v' ∧ ends a v' o w
  /-- the first of two ends, and then the second -/
  of_bind : ∀ {a : Activity} {g : Outcome → Activity} {v w : S} {o : Outcome},
    ends (a.bind g) v o w → ∃ p v', ends a v p v' ∧ ends (g p) v' o w

/-- A pause goes on for its time, up to the longest. -/
def Surroundings.rest {σ : Type} (s : Surroundings σ) (nanos : Nat) (w : σ) : σ :=
  if nanos = 0 then w else s.pass (min nanos Activity.longestSleep) w

theorem Activity.run_pause_rest {σ : Type} (s : Surroundings σ) (n : Nat) (a : Activity) (w : σ) :
    (pause n a).run s w = a.run s (s.rest n w) := by
  rcases Nat.eq_zero_or_pos n with rfl | hn
  · rfl
  · rw [run_pause s hn, Surroundings.rest, if_neg (Nat.pos_iff_ne_zero.1 hn)]

namespace Account

/-- Activities happen alone in their surroundings. -/
def performing {σ : Type} (s : Surroundings σ) : Account σ where
  ends a v o w := a.run s v = (o, w)
  answers r v x w := s.answer r v = (x, w)
  rests n v w := w = s.rest n v
  of_done h := ⟨(congrArg Prod.fst h).symm, (congrArg Prod.snd h).symm⟩
  of_call h := ⟨_, _, rfl, h⟩
  of_pause h := ⟨_, rfl, (Activity.run_pause_rest ..).symm.trans h⟩
  of_bind h := ⟨_, _, rfl, (Activity.run_bind ..).symm.trans h⟩

/-- Activities live through what happens to them. -/
def living : Account Chronicle where
  ends a before o now := ∃ H, now = before ++ H ∧ a.Lives H (.done o)
  answers r before x now := now = before ++ [Chronicle.heard r x]
  rests n before now := now = before ++ [([], .rested n)]
  of_done := by
    rintro o p before now ⟨H, rfl, h⟩
    obtain ⟨rfl, hp⟩ := h.of_done
    cases hp
    exact ⟨rfl, List.append_nil before⟩
  of_call := by
    rintro r k before now o ⟨H, rfl, h⟩
    rcases h.of_call with ⟨-, hdone⟩ | ⟨x, H', rfl, hrest⟩
    · cases hdone
    · exact ⟨x, _, rfl, H', List.append_cons .., hrest⟩
  of_pause := by
    rintro n a before now o ⟨H, rfl, h⟩
    rcases h.of_pause with ⟨-, hdone⟩ | ⟨H', rfl, hrest⟩
    · cases hdone
    · exact ⟨_, rfl, H', List.append_cons .., hrest⟩
  of_bind := by
    rintro a g before now o ⟨H, rfl, h⟩
    obtain ⟨p, first, second, rfl, hfirst, hsecond⟩ := h.of_bind_done
    exact ⟨p, _, ⟨first, rfl, hfirst⟩, second, (List.append_assoc ..).symm, hsecond⟩

/-- What is put together of parts that ended has ended as well. -/
structure Composes {S : Type} (A : Account S) : Prop where
  /-- what has ended is over -/
  done : ∀ (o : Outcome) (v : S), A.ends (.done o) v o v
  /-- the first of two ended, and then the second -/
  bind : ∀ {a : Activity} {g : Outcome → Activity} {v v' w : S} {p o : Outcome},
    A.ends a v p v' → A.ends (g p) v' o w → A.ends (a.bind g) v o w

theorem composes_performing {σ : Type} (s : Surroundings σ) : (performing s).Composes where
  done _ _ := rfl
  bind := by
    intro a g v v' w p o ha hg
    show (a.bind g).run s v = (o, w)
    rw [Activity.run_bind, show a.run s v = (p, v') from ha]
    exact hg

theorem composes_living : living.Composes where
  done _ v := ⟨[], (List.append_nil v).symm, .start⟩
  bind := by
    rintro a g v _ _ p o ⟨H, rfl, ha⟩ ⟨H', rfl, hg⟩
    exact ⟨H ++ H', List.append_assoc .., (ha.bind g).trans hg⟩

variable {S : Type} (A : Account S) {v w : S} {o : Outcome}

theorem of_andThen {a b : Activity} (h : A.ends (a.andThen b) v o w) :
    (∃ f, o = .error f ∧ A.ends a v (.error f) w) ∨
      ∃ v', A.ends a v (.ok ()) v' ∧ A.ends b v' o w := by
  obtain ⟨p, v', hfirst, hsecond⟩ := A.of_bind h
  cases p with
  | ok u => exact .inr ⟨v', hfirst, hsecond⟩
  | error f =>
    obtain ⟨rfl, rfl⟩ := A.of_done hsecond
    exact .inl ⟨f, rfl, hfirst⟩

theorem of_mapFailure {a : Activity} {describe : Failure → Failure}
    (h : A.ends (a.mapFailure describe) v o w) :
    ∃ p, o = p.mapError describe ∧ A.ends a v p w := by
  obtain ⟨p, v', hfirst, hsecond⟩ := A.of_bind h
  cases p with
  | ok u | error f =>
    obtain ⟨rfl, rfl⟩ := A.of_done hsecond
    exact ⟨_, rfl, hfirst⟩

variable {A}

theorem Composes.mapFailure (hA : A.Composes) {a : Activity} (h : A.ends a v o w)
    (describe : Failure → Failure) : A.ends (a.mapFailure describe) v (o.mapError describe) w := by
  refine hA.bind h ?_
  cases o with
  | ok u | error f => exact hA.done _ w

end Account

end Loyalty
