import Loyalty.Process.Course

/-!
# Crowds

Many courses side by side. Those who are awake take turns: each goes on until it waits or ends,
and then it is the turn of the next. When nobody is awake, time goes by until the first alarm goes
off. Those who are woken at the same instant have their turns in the order in which their alarms
were set, whatever their places in the crowd; who has set several of these alarms is woken by the
first of them.

`Crowd.turn` is what happens next in a crowd, and `Crowd.course` makes one course out of it. There
is always an end, since nobody can make requests and pause for ever: `Crowd.Before` relates a crowd
to those that it came from, and is well-founded.

Main statement: what follows a crowd can as well be part of the course that goes on with its
outcome.
-/

namespace Loyalty

/-! ## Getting on -/

namespace Course

/-- A course after its first request, alarm or pause. -/
inductive Next : Course → Course → Prop where
  /-- the request has been answered -/
  | answered (r : Request) (k : r.Answer → Course) (x : r.Answer) : Next (k x) (call r k)
  /-- the alarm is set -/
  | ready (n : Nat) (c : Course) : Next c (alarm n c)
  /-- the pause is over -/
  | rested (n : Nat) (c : Course) : Next c (wait n c)

theorem acc_next (c : Course) : Acc Next c := by
  induction c with
  | done o => exact ⟨_, fun _ h => nomatch h⟩
  | call r k ih => exact ⟨_, fun _ h => by cases h; exact ih _⟩
  | alarm n c ih => exact ⟨_, fun _ h => by cases h; exact ih⟩
  | wait n c ih => exact ⟨_, fun _ h => by cases h; exact ih⟩

/-- One of several courses got on. -/
inductive NextAmong : List Course → List Course → Prop where
  /-- the first one did -/
  | here {c d : Course} (h : Next c d) (cs : List Course) : NextAmong (c :: cs) (d :: cs)
  /-- a later one did -/
  | there (c : Course) {cs ds : List Course} (h : NextAmong cs ds) : NextAmong (c :: cs) (c :: ds)

theorem acc_nextAmong_cons {c : Course} (hc : Acc Next c) {cs : List Course}
    (hcs : Acc NextAmong cs) : Acc NextAmong (c :: cs) := by
  induction hc generalizing cs with
  | intro c _ ihc =>
    induction hcs with
    | intro cs hcs ihcs =>
      refine ⟨_, fun ds h => ?_⟩
      cases h with
      | here h => exact ihc _ h ⟨_, hcs⟩
      | there _ h => exact ihcs _ h

theorem acc_nextAmong (cs : List Course) : Acc NextAmong cs := by
  induction cs with
  | nil => exact ⟨_, fun _ h => nomatch h⟩
  | cons c cs ih => exact acc_nextAmong_cons (acc_next c) ih

theorem nextAmong_set {cs : List Course} {p : Nat} {c d : Course} (hp : cs[p]? = some d)
    (h : Next c d) : NextAmong (cs.set p c) cs := by
  induction cs generalizing p with
  | nil => simp at hp
  | cons b cs ih =>
    cases p with
    | zero =>
      obtain rfl : b = d := by simpa using hp
      exact .here h cs
    | succ p => exact .there b (ih (by simpa using hp))

/-- The outcome of a course that has ended. -/
def outcome : Course → Outcome
  | done o => o
  | _ => .ok ()

end Course

/-! ## Crowds -/

/-- Courses that go on side by side. -/
structure Crowd where
  /-- what each of them has still to do -/
  members : List Course
  /-- the places of those who are awake, in the order of their turns -/
  awake : List Nat
  /-- the alarms, in the order in which they were set: the place of who set it, and in how many
  nanoseconds it goes off -/
  alarms : List (Nat × Nat)

namespace Crowd

/-- A crowd in the beginning: all are awake, and have their turns in the order of their places. -/
def ofList (cs : List Course) : Crowd :=
  ⟨cs, List.range cs.length, []⟩

/-- What happens next. -/
inductive Turn : Type where
  /-- nothing: all have ended -/
  | over
  /-- the one whose turn it is makes a request -/
  | call (r : Request) (next : r.Answer → Crowd)
  /-- the one whose turn it is sets an alarm -/
  | alarm (nanos : Nat) (next : Crowd)
  /-- the one whose turn it is begins to wait or has ended -/
  | pass (next : Crowd)
  /-- nobody is awake until the first alarm goes off -/
  | wait (nanos : Nat) (next : Crowd)

/-- The crowd after so many nanoseconds, when those are awake whose alarms went off. -/
def wake (nanos : Nat) (c : Crowd) : Crowd where
  members := c.members
  awake := ((c.alarms.filter fun a => a.2 ≤ nanos).map Prod.fst).eraseDups
  alarms := (c.alarms.filter fun a => !(a.2 ≤ nanos)).map fun a => (a.1, a.2 - nanos)

/-- What happens next in a crowd. -/
def turn (c : Crowd) : Turn :=
  match c.awake with
  | p :: ps =>
    match c.members[p]? with
    | some (.call r k) => .call r fun x => { c with members := c.members.set p (k x) }
    | some (.alarm n d) =>
      .alarm n { c with members := c.members.set p d, alarms := c.alarms ++ [(p, n)] }
    | some (.wait _ d) => .pass { c with members := c.members.set p d, awake := ps }
    | _ => .pass { c with awake := ps }
  | [] =>
    match (c.alarms.map Prod.snd).min? with
    | none => .over
    | some n => .wait n (c.wake n)

/-- The outcome of a crowd: the failure of the first of its members who failed. -/
def outcome (c : Crowd) : Outcome :=
  c.members.foldr (fun d o => d.outcome.both o) (.ok ())

/-! ## A crowd comes to its end -/

/-- A crowd that another one gets to: a member got on, or an alarm went off, or a turn was over. -/
inductive Before : Crowd → Crowd → Prop where
  /-- a member got on -/
  | next {c d : Crowd} (h : Course.NextAmong c.members d.members) : Before c d
  /-- fewer alarms are set -/
  | woken {c d : Crowd} (hm : c.members = d.members) (h : c.alarms.length < d.alarms.length) :
    Before c d
  /-- fewer members wait for their turns -/
  | turned {c d : Crowd} (hm : c.members = d.members) (hs : c.alarms = d.alarms)
    (h : c.awake.length < d.awake.length) : Before c d

theorem acc_before (members : List Course) (awake : List Nat) (alarms : List (Nat × Nat)) :
    Acc Before ⟨members, awake, alarms⟩ := by
  induction Course.acc_nextAmong members generalizing awake alarms with
  | intro members _ ihm =>
    induction hs : alarms.length using Nat.strongRecOn generalizing awake alarms with
    | ind s ihs =>
      induction ha : awake.length using Nat.strongRecOn generalizing awake with
      | ind a iha =>
        refine ⟨_, fun c h => ?_⟩
        obtain ⟨ms, as, ss⟩ := c
        cases h with
        | next h => exact ihm _ h _ _
        | woken hm h =>
          subst hm
          exact ihs _ (hs ▸ h) _ _ rfl
        | turned hm hs' h =>
          subst hm hs'
          exact iha _ (ha ▸ h) _ rfl

instance : WellFoundedRelation Crowd :=
  ⟨Before, ⟨fun c => acc_before c.members c.awake c.alarms⟩⟩

theorem before_of_call {c : Crowd} {r : Request} {next : r.Answer → Crowd}
    (h : c.turn = .call r next) (x : r.Answer) : Before (next x) c := by
  unfold turn at h
  split at h
  · split at h
    · rename_i hp
      cases h
      exact .next (Course.nextAmong_set hp (.answered _ _ x))
    all_goals cases h
  · split at h <;> cases h

theorem before_of_alarm {c next : Crowd} {n : Nat} (h : c.turn = .alarm n next) :
    Before next c := by
  unfold turn at h
  split at h
  · split at h
    · cases h
    · rename_i hp
      cases h
      exact .next (Course.nextAmong_set hp (.ready _ _))
    all_goals cases h
  · split at h <;> cases h

theorem before_of_pass {c next : Crowd} (h : c.turn = .pass next) : Before next c := by
  unfold turn at h
  split at h
  · rename_i ha
    split at h
    · cases h
    · cases h
    · rename_i hp
      cases h
      exact .next (Course.nextAmong_set hp (.rested _ _))
    · cases h
      exact .turned rfl rfl (by simp [ha])
  · split at h <;> cases h

theorem before_of_wait {c next : Crowd} {n : Nat} (h : c.turn = .wait n next) :
    Before next c := by
  unfold turn at h
  split at h
  · split at h <;> cases h
  · split at h
    · cases h
    · rename_i hn
      cases h
      refine .woken rfl ?_
      obtain ⟨a, ha, rfl⟩ := List.mem_map.1 (List.min?_mem hn)
      rw [wake, List.length_map, List.length_filter_lt_length_iff_exists]
      exact ⟨a, ha, by simp⟩

/-! ## The course of a crowd -/

/-- The course of a crowd, and how it goes on with the outcome. -/
def course (k : Outcome → Course) (c : Crowd) : Course :=
  match h : c.turn with
  | .over => k c.outcome
  | .call r next => .call r fun x =>
    have := before_of_call h x
    (next x).course k
  | .alarm n next =>
    have := before_of_alarm h
    .alarm n (next.course k)
  | .pass next =>
    have := before_of_pass h
    next.course k
  | .wait n next =>
    have := before_of_wait h
    .wait n (next.course k)
termination_by c

theorem course_of_over {c : Crowd} (h : c.turn = .over) (k : Outcome → Course) :
    c.course k = k c.outcome := by
  rw [course]
  split <;> simp_all

theorem course_of_call {c : Crowd} {r : Request} {next : r.Answer → Crowd}
    (h : c.turn = .call r next) (k : Outcome → Course) :
    c.course k = .call r fun x => (next x).course k := by
  rw [course]
  split
  case h_2 h' =>
    cases h.symm.trans h'
    rfl
  all_goals simp_all

theorem course_of_alarm {c next : Crowd} {n : Nat} (h : c.turn = .alarm n next)
    (k : Outcome → Course) : c.course k = .alarm n (next.course k) := by
  rw [course]
  split <;> simp_all

theorem course_of_pass {c next : Crowd} (h : c.turn = .pass next) (k : Outcome → Course) :
    c.course k = next.course k := by
  rw [course]
  split <;> simp_all

theorem course_of_wait {c next : Crowd} {n : Nat} (h : c.turn = .wait n next)
    (k : Outcome → Course) : c.course k = .wait n (next.course k) := by
  rw [course]
  split <;> simp_all

/-- What follows a crowd can be part of how its course goes on with the outcome. -/
theorem course_bind (k g : Outcome → Course) (c : Crowd) :
    (c.course k).bind g = c.course fun o => (k o).bind g := by
  induction c using course.induct with
  | case1 c h => rw [course_of_over h, course_of_over h]
  | case2 c r next h ih =>
    rw [course_of_call h, course_of_call h]
    exact congrArg (Course.call r) (funext ih)
  | case3 c n next h _ ih =>
    rw [course_of_alarm h, course_of_alarm h]
    exact congrArg (Course.alarm n) ih
  | case4 c next h _ ih => rw [course_of_pass h, course_of_pass h, ih]
  | case5 c n next h _ ih =>
    rw [course_of_wait h, course_of_wait h]
    exact congrArg (Course.wait n) ih

end Crowd

end Loyalty
