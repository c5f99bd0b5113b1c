import Loyalty.Process.Activity

/-!
# Transcripts

When processes go on side by side, what one of them has still to do depends on nothing but what it
asked and what it was answered. `Calls.After p heard q` says that `p` has made the requests of
`heard`, was given the answers of `heard`, and is left with `q`. It speaks of the tree alone, so it
holds whatever others did in between.

Main statement: what a process that consists of two has heard is what the first of them heard
and, when the first one has ended, what the second one heard with the result of the first.
-/

namespace Loyalty

/-- A request and its answer. -/
structure Exchange where
  /-- what was asked for -/
  request : Request
  /-- what came back -/
  answer : request.Answer

namespace Calls

variable {α β : Type}

/-- A process that has heard so much is left with the last process. -/
inductive After : Calls α → List Exchange → Calls α → Prop where
  /-- the process has not begun -/
  | start (p : Calls α) : After p [] p
  /-- the process has heard one more answer, at the beginning -/
  | heard {r : Request} {k : r.Answer → Calls α} {x : r.Answer} {heard : List Exchange}
      {q : Calls α} (h : After (k x) heard q) : After (call r k) (⟨r, x⟩ :: heard) q

/-- A process that has ended hears nothing any more. -/
theorem After.of_done {a : α} {heard : List Exchange} {q : Calls α} (h : After (done a) heard q) :
    heard = [] ∧ q = done a := by
  cases h with
  | start => exact ⟨rfl, rfl⟩

/-- A process that makes a request has either heard nothing or the answer to it. -/
theorem After.of_call {r : Request} {k : r.Answer → Calls α} {heard : List Exchange}
    {q : Calls α} (h : After (call r k) heard q) :
    (heard = [] ∧ q = call r k) ∨
      ∃ x rest, heard = ⟨r, x⟩ :: rest ∧ After (k x) rest q := by
  cases h with
  | start => exact .inl ⟨rfl, rfl⟩
  | heard h => exact .inr ⟨_, _, rfl, h⟩

/-- The next answer is heard behind the others. -/
theorem After.next {p : Calls α} {heard : List Exchange} {r : Request} {k : r.Answer → Calls α}
    (h : After p heard (call r k)) (x : r.Answer) : After p (heard ++ [⟨r, x⟩]) (k x) := by
  generalize hq : call r k = q at h
  induction h with
  | start p =>
    subst hq
    exact .heard (.start _)
  | heard _ ih => exact .heard (ih hq)

/-- What a process that consists of two has heard: a part of the first of them, or all of it and a
part of the second. -/
theorem After.of_bind {p : Calls α} {g : α → Calls β} {heard : List Exchange} {q : Calls β}
    (h : After (p >>= g) heard q) :
    (∃ p', After p heard p' ∧ q = p' >>= g) ∨
      ∃ a first second, heard = first ++ second ∧ After p first (done a) ∧
        After (g a) second q := by
  -- What has been heard is used up along the first process, and what is left over at its end was
  -- heard by the second.
  induction p generalizing heard with
  | done a => exact .inr ⟨a, [], heard, rfl, .start _, h⟩
  | call r k ih =>
    rcases h.of_call with ⟨rfl, rfl⟩ | ⟨x, rest, rfl, hrest⟩
    · exact .inl ⟨call r k, .start _, rfl⟩
    · rcases ih x hrest with ⟨p', hp', rfl⟩ | ⟨a, first, second, rfl, hfirst, hsecond⟩
      · exact .inl ⟨p', .heard hp', rfl⟩
      · exact .inr ⟨a, ⟨r, x⟩ :: first, second, rfl, .heard hfirst, hsecond⟩

/-- A process that consists of two and is about to make a request: the first of them is about to
make it, or has ended and the second is. -/
theorem After.of_bind_call {p : Calls α} {g : α → Calls β} {heard : List Exchange} {r : Request}
    {k : r.Answer → Calls β} (h : After (p >>= g) heard (call r k)) :
    (∃ k', After p heard (call r k')) ∨
      ∃ a first second, heard = first ++ second ∧ After p first (done a) ∧
        After (g a) second (call r k) := by
  rcases h.of_bind with ⟨p', hp', hq⟩ | ⟨a, first, second, rfl, hfirst, hsecond⟩
  · cases p' with
    | done a => exact .inr ⟨a, heard, [], by simp, hp', by simpa [hq] using After.start (g a)⟩
    | call r' k' =>
      cases hq
      exact .inl ⟨k', hp'⟩
  · exact .inr ⟨a, first, second, rfl, hfirst, hsecond⟩

/-- A process that consists of two and has ended: both have ended. -/
theorem After.of_bind_done {p : Calls α} {g : α → Calls β} {heard : List Exchange} {b : β}
    (h : After (p >>= g) heard (done b)) :
    ∃ a first second, heard = first ++ second ∧ After p first (done a) ∧
      After (g a) second (done b) := by
  rcases h.of_bind with ⟨p', hp', hq⟩ | ⟨a, first, second, rfl, hfirst, hsecond⟩
  · cases p' with
    | done a => exact ⟨a, heard, [], by simp, hp', by simpa [hq] using After.start (g a)⟩
    | call r' k' => cases hq
  · exact ⟨a, first, second, rfl, hfirst, hsecond⟩

/-- A process that makes one request hears its answer and ends with it. -/
theorem After.of_ask_done {r : Request} {heard : List Exchange} {x : r.Answer}
    (h : After (ask r) heard (done x)) : heard = [⟨r, x⟩] := by
  rcases h.of_call with ⟨-, hq⟩ | ⟨y, rest, rfl, hrest⟩
  · cases hq
  · obtain ⟨rfl, hq⟩ := hrest.of_done
    cases hq
    rfl

/-! ## Which requests a process makes -/

/-- A process makes no requests but those allowed, whatever it is answered. -/
def Only (allowed : Request → Prop) : Calls α → Prop
  | done _ => True
  | call r k => allowed r ∧ ∀ x, (k x).Only allowed

theorem Only.mono {allowed allowed' : Request → Prop} {p : Calls α} (hp : p.Only allowed)
    (h : ∀ r, allowed r → allowed' r) : p.Only allowed' := by
  induction p with
  | done a => exact True.intro
  | call r k ih => exact ⟨h r hp.1, fun x => ih x (hp.2 x)⟩

theorem Only.bind {allowed : Request → Prop} {p : Calls α} (hp : p.Only allowed)
    {g : α → Calls β} (hg : ∀ a, (g a).Only allowed) : (p >>= g).Only allowed := by
  induction p with
  | done a => exact hg a
  | call r k ih => exact ⟨hp.1, fun x => ih x (hp.2 x)⟩

theorem After.allowed {allowed : Request → Prop} {p : Calls α} (hp : p.Only allowed)
    {heard : List Exchange} {r : Request} {k : r.Answer → Calls α}
    (h : After p heard (call r k)) : allowed r := by
  induction p generalizing heard with
  | done a => cases h.of_done.2
  | call r' k' ih =>
    rcases h.of_call with ⟨-, hq⟩ | ⟨x, rest, -, hrest⟩
    · cases hq
      exact hp.1
    · exact ih x (hp.2 x) hrest

end Calls

/-! ## Attempts -/

namespace Attempt

variable {α β : Type}

/-- How an attempt goes on after another one. -/
def onSuccess (g : α → Attempt β) : Except Failure α → Calls (Except Failure β)
  | .ok a => (g a).run
  | .error f => .done (.error f)

theorem run_bind (m : Attempt α) (g : α → Attempt β) : (m >>= g).run = m.run >>= onSuccess g :=
  congrArg (m.run >>= ·) (funext fun x => by cases x <;> rfl)

/-- How an attempt goes on that takes what is not there for `a`. -/
def onAbsence (a : α) : Except Failure α → Calls (Except Failure α)
  | .ok b => .done (.ok b)
  | .error f => .done (if f.isNotFound then .ok a else .error f)

theorem run_orAbsent (a : α) (m : Attempt α) :
    (orAbsent a m).run = m.run >>= onAbsence a := by
  refine congrArg (m.run >>= ·) (funext fun x => ?_)
  cases x with
  | ok b => rfl
  | error f =>
    simp only [onAbsence]
    split <;> rfl

/-- An attempt that consists of two and is about to make a request. -/
theorem after_bind_call {m : Attempt α} {g : α → Attempt β} {heard : List Exchange} {r : Request}
    {k : r.Answer → Calls (Except Failure β)} (h : (m >>= g).run.After heard (.call r k)) :
    (∃ k', m.run.After heard (.call r k')) ∨
      ∃ a first second, heard = first ++ second ∧ m.run.After first (.done (.ok a)) ∧
        (g a).run.After second (.call r k) := by
  rw [run_bind] at h
  rcases h.of_bind_call with ⟨k', hk'⟩ | ⟨x, first, second, rfl, hfirst, hsecond⟩
  · exact .inl ⟨k', hk'⟩
  · cases x with
    | ok a => exact .inr ⟨a, first, second, rfl, hfirst, hsecond⟩
    | error f => cases hsecond.of_done.2

/-- An attempt that consists of two and has succeeded. -/
theorem after_bind_ok {m : Attempt α} {g : α → Attempt β} {heard : List Exchange} {b : β}
    (h : (m >>= g).run.After heard (.done (.ok b))) :
    ∃ a first second, heard = first ++ second ∧ m.run.After first (.done (.ok a)) ∧
      (g a).run.After second (.done (.ok b)) := by
  rw [run_bind] at h
  obtain ⟨x, first, second, rfl, hfirst, hsecond⟩ := h.of_bind_done
  cases x with
  | ok a => exact ⟨a, first, second, rfl, hfirst, hsecond⟩
  | error f => cases hsecond.of_done.2

theorem only_bind {allowed : Request → Prop} {m : Attempt α} (hm : m.run.Only allowed)
    {g : α → Attempt β} (hg : ∀ a, (g a).run.Only allowed) : (m >>= g).run.Only allowed := by
  rw [run_bind]
  refine hm.bind fun x => ?_
  cases x with
  | ok a => exact hg a
  | error f => exact True.intro

theorem only_orAbsent {allowed : Request → Prop} (a : α) {m : Attempt α}
    (hm : m.run.Only allowed) : (orAbsent a m).run.Only allowed := by
  rw [run_orAbsent]
  refine hm.bind fun x => ?_
  cases x with
  | ok b => exact True.intro
  | error f => exact True.intro

end Attempt

end Loyalty
