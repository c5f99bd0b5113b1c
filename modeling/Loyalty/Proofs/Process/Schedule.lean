import Mathlib.Logic.Relation
import Loyalty.Process.Schedule
import Loyalty.Proofs.Process.Family

/-!
# The schedule is an interleaving

`Activity.run` lets an activity happen in the order of its course. The same requests can be made in
the same order by moves at places: `Course.Follows` says of a course that at each of its requests
the activity can come to a place where it makes the request, by steps in which nothing is asked.
Pauses are no obstacle, since a pause may be over at any time.

Crowds are left out. The program makes one only when a kind of event has more than thirty handlers.

Main statement: whatever `Activity.run` does, a pool can do by moves of one member.
-/

namespace Loyalty

open Relation (ReflTransGen)

namespace Activity

/-- A step in which nothing is asked. -/
inductive Silent : Activity → Activity → Prop where
  /-- a pause is over -/
  | rested (n : Nat) (a : Activity) : Silent (pause n a) a
  /-- both sides of a fork have ended -/
  | joined (o p : Outcome) (k : Outcome → Activity) : Silent (fork (done o) (done p) k) (k (o.both p))
  /-- a step of the first side -/
  | first {a a' : Activity} (h : Silent a a') (b : Activity) (k : Outcome → Activity) :
    Silent (fork a b k) (fork a' b k)
  /-- a step of the second side -/
  | second (a : Activity) {b b' : Activity} (h : Silent b b') (k : Outcome → Activity) :
    Silent (fork a b k) (fork a b' k)

/-- An activity can make a request next, and how it goes on with the answer. -/
inductive Asks : Activity → (r : Request) → (r.Answer → Activity) → Prop where
  /-- the activity itself makes the request -/
  | here (r : Request) (k : r.Answer → Activity) : Asks (call r k) r k
  /-- the first side does -/
  | first {a : Activity} {r : Request} {k : r.Answer → Activity} (h : Asks a r k) (b : Activity)
    (g : Outcome → Activity) : Asks (fork a b g) r fun x => fork (k x) b g
  /-- the second side does -/
  | second (a : Activity) {b : Activity} {r : Request} {k : r.Answer → Activity} (h : Asks b r k)
    (g : Outcome → Activity) : Asks (fork a b g) r fun x => fork a (k x) g

theorem Silent.outcome?_eq_none {a a' : Activity} (h : Silent a a') : a.outcome? = none := by
  cases h <;> rfl

theorem Asks.outcome?_eq_none {a : Activity} {r : Request} {k : r.Answer → Activity}
    (h : Asks a r k) : a.outcome? = none := by
  cases h <;> rfl

theorem forkOutcome?_of_first {a : Activity} (h : a.outcome? = none) (b : Activity) :
    forkOutcome? a b = none := by
  rw [forkOutcome?, h]
  rfl

theorem forkOutcome?_of_second (a : Activity) {b : Activity} (h : b.outcome? = none) :
    forkOutcome? a b = none := by
  rw [forkOutcome?, h]
  cases a.outcome? <;> rfl

variable {σ : Type} (s : Surroundings σ)

/-- There is a place at which the step is taken. -/
theorem Silent.advance {a a' : Activity} (h : Silent a a') :
    ∃ π, ∀ w : σ, a.advance s w π = .silent a' w := by
  induction h with
  | rested n a => exact ⟨[], fun _ => rfl⟩
  | joined o p k => exact ⟨[], fun _ => rfl⟩
  | first h b k ih =>
    obtain ⟨π, hπ⟩ := ih
    refine ⟨0 :: π, fun w => ?_⟩
    rw [Activity.advance, forkOutcome?_of_first h.outcome?_eq_none]
    simp only [hπ]
    rfl
  | second a h k ih =>
    obtain ⟨π, hπ⟩ := ih
    refine ⟨1 :: π, fun w => ?_⟩
    rw [Activity.advance, forkOutcome?_of_second a h.outcome?_eq_none]
    simp only [hπ]
    rfl

/-- There is a place at which the request is made. -/
theorem Asks.advance {a : Activity} {r : Request} {k : r.Answer → Activity} (h : Asks a r k) :
    ∃ π, ∀ w : σ, (a.advance s w π).activity = k (s.answer r w).1 ∧
      (a.advance s w π).state = (s.answer r w).2 := by
  induction h with
  | here r k => exact ⟨[], fun _ => ⟨rfl, rfl⟩⟩
  | first h b g ih =>
    obtain ⟨π, hπ⟩ := ih
    refine ⟨0 :: π, fun w => ?_⟩
    rw [Activity.advance, forkOutcome?_of_first h.outcome?_eq_none]
    exact ⟨congrArg (fork · b g) (hπ w).1, (hπ w).2⟩
  | second a h g ih =>
    obtain ⟨π, hπ⟩ := ih
    refine ⟨1 :: π, fun w => ?_⟩
    rw [Activity.advance, forkOutcome?_of_second a h.outcome?_eq_none]
    exact ⟨congrArg (fork a · g) (hπ w).1, (hπ w).2⟩

end Activity

/-! ## Courses -/

namespace Course

open Activity (Silent Asks)

/-- A course is one of the orders in which an activity can happen. -/
def Follows : Course → Activity → Prop
  | done o, a => ReflTransGen Silent a (.done o)
  | call r k, a =>
    ∃ b k', ReflTransGen Silent a b ∧ Asks b r k' ∧ ∀ x, (k x).Follows (k' x)
  | alarm _ c, a => c.Follows a
  | wait _ c, a => c.Follows a

theorem Follows.of_silent {c : Course} {a b : Activity} (h : c.Follows b)
    (hab : ReflTransGen Silent a b) : c.Follows a := by
  induction c with
  | done o => exact hab.trans h
  | call r k _ =>
    obtain ⟨b', k', hb, hasks, hk⟩ := h
    exact ⟨b', k', hab.trans hb, hasks, hk⟩
  | alarm n c ih => exact ih h
  | wait n c ih => exact ih h

theorem follows_after {n : Nat} {c : Course} {a : Activity} (h : c.Follows a) :
    (after n c).Follows a := by
  cases n with
  | zero => exact h
  | succ n => exact h

theorem follows_sleep {n : Nat} {c : Course} {a : Activity} (h : c.Follows a) :
    (sleep n c).Follows a := by
  cases n with
  | zero => exact h
  | succ n => exact h

theorem silent_first {a a' : Activity} (h : ReflTransGen Silent a a') (b : Activity)
    (k : Outcome → Activity) : ReflTransGen Silent (.fork a b k) (.fork a' b k) := by
  induction h with
  | refl => exact .refl
  | tail _ h ih => exact ih.tail (.first h b k)

theorem silent_second (a : Activity) {b b' : Activity} (h : ReflTransGen Silent b b')
    (k : Outcome → Activity) : ReflTransGen Silent (.fork a b k) (.fork a b' k) := by
  induction h with
  | refl => exact .refl
  | tail _ h ih => exact ih.tail (.second a h k)

/-- The second side of a fork, while the first one sleeps. -/
theorem follows_besideSleeper {wake : Course → Course} {a : Activity} {k : Outcome → Activity}
    (hwake : ∀ d b, Follows d b → (wake d).Follows (.fork a b k)) {d : Course} {b : Activity}
    (hd : d.Follows b) (n : Nat) : (besideSleeper wake n d).Follows (.fork a b k) := by
  -- The sleeper wakes somewhere along the course of the other side, or when that one has ended.
  induction d generalizing b n with
  | done o => exact follows_after (hwake _ b hd)
  | call r f ih =>
    obtain ⟨b', f', hb, hasks, hf⟩ := hd
    exact ⟨_, _, silent_second a hb k, .second a hasks k, fun x => ih x (hf x) n⟩
  | alarm m d ih => exact ih hd n
  | wait m d ih =>
    rw [besideSleeper]
    split
    · exact follows_after (hwake _ b (follows_after hd))
    · exact ih hd (n - m)

/-- The second side of a fork, when the first one has ended. -/
theorem follows_beside_done {K : Outcome → Course} {k : Outcome → Activity}
    (hk : ∀ o, (K o).Follows (k o)) (o : Outcome) {d : Course} {b : Activity}
    (hd : d.Follows b) : (d.bind fun p => K (o.both p)).Follows (.fork (.done o) b k) := by
  induction d generalizing b with
  | done p =>
    have hjoin := (silent_second (.done o) hd k).tail (.joined o p k)
    exact (hk (o.both p)).of_silent hjoin
  | call r f ih =>
    obtain ⟨b', f', hb, hasks, hf⟩ := hd
    exact ⟨_, _, silent_second _ hb k, .second _ hasks k, fun x => ih x (hf x)⟩
  | alarm m d ih => exact ih hd
  | wait m d ih => exact ih hd

/-- Two sides, each in its order. -/
theorem follows_beside {K : Outcome → Course} {k : Outcome → Activity}
    (hk : ∀ o, (K o).Follows (k o)) {c : Course} {a : Activity} (hc : c.Follows a) {d : Course}
    {b : Activity} (hd : d.Follows b) : (beside K c d).Follows (.fork a b k) := by
  induction c generalizing a d b with
  | done o => exact (follows_beside_done hk o hd).of_silent (silent_first hc b k)
  | call r f ih =>
    obtain ⟨a', f', ha, hasks, hf⟩ := hc
    exact ⟨_, _, silent_first ha b k, .first hasks b k, fun x => ih x (hf x) hd⟩
  | alarm n c ih => exact ih hc hd
  | wait n c ih => exact follows_besideSleeper (fun d b hd => ih hc hd) hd n

end Course

namespace Activity

/-- An activity without crowds. -/
def Uncrowded : Activity → Prop
  | done _ => True
  | call _ k => ∀ x, (k x).Uncrowded
  | pause _ a => a.Uncrowded
  | fork a b k => a.Uncrowded ∧ b.Uncrowded ∧ ∀ o, (k o).Uncrowded
  | crowd .. => False

theorem Uncrowded.bind {a : Activity} (ha : a.Uncrowded) {g : Outcome → Activity}
    (hg : ∀ o, (g o).Uncrowded) : (a.bind g).Uncrowded := by
  induction a with
  | done o => exact hg o
  | call r k ih => exact fun x => ih x (ha x)
  | pause n a ih => exact ih ha
  | fork a b k _ _ ih => exact ⟨ha.1, ha.2.1, fun o => ih o (ha.2.2 o)⟩
  | crowd n members k => exact ha.elim

theorem uncrowded_ofCalls {α : Type} (m : Calls α) {g : α → Activity}
    (hg : ∀ x, (g x).Uncrowded) : (ofCalls m g).Uncrowded := by
  induction m with
  | done a => exact hg a
  | call r k ih => exact ih

theorem family_uncrowded : Family Uncrowded where
  done _ := True.intro
  call _ hk := hk
  pause _ _ ha := ha
  fork ha hb hk := ⟨ha, hb, hk⟩
  bind ha hg := ha.bind hg
  persist _ _ hg := uncrowded_ofCalls _ hg

/-- The course of an activity is one of the orders in which it can happen. -/
theorem follows_course {a : Activity} (ha : a.Uncrowded) : a.course.Follows a := by
  induction a with
  | done o => exact .refl
  | call r k ih => exact ⟨_, k, .refl, .here r k, fun x => ih x (ha x)⟩
  | pause n a ih => exact Course.follows_sleep ((ih ha).of_silent (.single (.rested n a)))
  | fork a b k iha ihb ihk =>
    exact Course.follows_beside (fun o => ihk o (ha.2.2 o)) (iha ha.1) (ihb ha.2.1)
  | crowd n members k => exact ha.elim

end Activity

/-! ## Pools -/

namespace Pool

variable {σ ι : Type} (s : Surroundings σ) (launch : ι → Activity)

/-- By some moves of one member a pool gets to a state in which something else is left for the
member to do. Of the other members nothing changes. -/
def Reaches (P : Pool σ) (i : Nat) (a : Activity) (w : σ) : Prop :=
  ∃ moves, (P.run s launch moves).members = P.members.set i a ∧
    (P.run s launch moves).state = w

variable {s launch}

theorem Reaches.refl {P : Pool σ} {i : Nat} {a : Activity} (ha : P.members[i]? = some a) :
    P.Reaches s launch i a P.state := by
  obtain ⟨hi, rfl⟩ := List.getElem?_eq_some_iff.1 ha
  exact ⟨[], (List.set_getElem_self hi).symm, rfl⟩

theorem Reaches.trans {P : Pool σ} {i : Nat} {a b : Activity} {w w' : σ}
    (h : P.Reaches s launch i a w)
    (h' : ∀ Q : Pool σ, Q.members[i]? = some a → Q.state = w → Q.Reaches s launch i b w')
    (hi : i < P.members.length) : P.Reaches s launch i b w' := by
  obtain ⟨moves, hmembers, hstate⟩ := h
  have hmember : (P.run s launch moves).members[i]? = some a := by
    rw [hmembers, List.getElem?_set_self hi]
  obtain ⟨more, hmembers', hstate'⟩ := h' _ hmember hstate
  refine ⟨moves ++ more, ?_, ?_⟩
  · rw [run, List.foldl_append]
    exact hmembers'.trans (by rw [hmembers, List.set_set])
  · rw [run, List.foldl_append]
    exact hstate'

/-- One step of the member. -/
theorem Reaches.go {P : Pool σ} {i : Nat} {a b : Activity} (ha : P.members[i]? = some a)
    {π : Place} {w : σ} (hactivity : (a.advance s P.state π).activity = b)
    (hstate : (a.advance s P.state π).state = w) : P.Reaches s launch i b w := by
  have hstep : P.run s launch [.go i π] = P.took i (a.advance s P.state π) := by
    rw [run, List.foldl_cons, List.foldl_nil, step, ha]
  exact ⟨[.go i π], by rw [hstep, took, hactivity], by rw [hstep, took, hstate]⟩

/-- Time goes by. -/
theorem Reaches.pass {P : Pool σ} {i : Nat} {a : Activity} (ha : P.members[i]? = some a)
    (nanos : Nat) : P.Reaches s launch i a (s.pass nanos P.state) := by
  obtain ⟨hi, rfl⟩ := List.getElem?_eq_some_iff.1 ha
  exact ⟨[.pass nanos], (List.set_getElem_self hi).symm, rfl⟩

/-- Steps in which nothing is asked. -/
theorem Reaches.silent {P : Pool σ} {i : Nat} {a b : Activity} (ha : P.members[i]? = some a)
    (h : ReflTransGen Activity.Silent a b) : P.Reaches s launch i b P.state := by
  have hi : i < P.members.length := (List.getElem?_eq_some_iff.1 ha).1
  induction h with
  | refl => exact .refl ha
  | tail _ h ih =>
    refine ih.trans (fun Q hQ hstate => ?_) hi
    obtain ⟨π, hπ⟩ := h.advance s
    have hadvance := hπ Q.state
    exact .go hQ (congrArg Activity.Stepped.activity hadvance)
      ((congrArg Activity.Stepped.state hadvance).trans hstate)

/-- The member can follow a course to its end. -/
theorem Reaches.follow {c : Course} {P : Pool σ} {i : Nat} {a : Activity}
    (ha : P.members[i]? = some a) (h : c.Follows a) :
    P.Reaches s launch i (.done (c.run s P.state).1) (c.run s P.state).2 := by
  have hi : i < P.members.length := (List.getElem?_eq_some_iff.1 ha).1
  -- At each request the member comes to its place without a request, and then makes this one.
  induction c generalizing P a with
  | done o => exact .silent ha h
  | call r k ih =>
    obtain ⟨b, k', hb, hasks, hk⟩ := h
    refine (Reaches.silent ha hb).trans (fun Q hQ hstate => ?_) hi
    obtain ⟨π, hπ⟩ := hasks.advance s
    obtain ⟨hactivity, hstate'⟩ := hπ Q.state
    have hQi : i < Q.members.length := (List.getElem?_eq_some_iff.1 hQ).1
    refine (Reaches.go hQ hactivity hstate').trans (fun R hR hRstate => ?_) hQi
    have hRi : i < R.members.length := (List.getElem?_eq_some_iff.1 hR).1
    have hrest := ih _ hR (hk _) hRi
    rw [Course.run, ← hstate, ← hRstate]
    exact hrest
  | alarm n c ih => exact ih ha h hi
  | wait n c ih =>
    refine (Reaches.pass ha n).trans (fun Q hQ hstate => ?_) hi
    have hQi : i < Q.members.length := (List.getElem?_eq_some_iff.1 hQ).1
    rw [Course.run, ← hstate]
    exact ih hQ h hQi

/-- **The schedule is an interleaving.** Whatever `Activity.run` does, a pool can do by moves of one
member. -/
theorem reaches_run {P : Pool σ} {i : Nat} {a : Activity} (ha : P.members[i]? = some a)
    (h : a.Uncrowded) :
    P.Reaches s launch i (.done (a.run s P.state).1) (a.run s P.state).2 :=
  .follow ha (Activity.follows_course h)

end Pool

end Loyalty
