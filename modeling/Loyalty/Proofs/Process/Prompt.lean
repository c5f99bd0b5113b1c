import Loyalty.Proofs.Process.Family
import Loyalty.Proofs.Process.Hearing

/-!
# Activities that do not pause

Two activities side by side take turns where they pause. When the first of them never pauses it has
ended before the second begins, and the two might as well have been put one after the other.
`Activity.Prompt` says that in a given state an activity comes to its end without a pause.

`Activity.Keeps` says of an activity that pauses as it likes that whatever holds before it happens
holds afterwards.

Main statements: a fork whose first side does not pause is its first side and then its second; and
what every attempt at something keeps, repeating it as a policy says keeps, too.
-/

namespace Loyalty.Activity

variable {σ : Type} (s : Surroundings σ)

/-! ## One after the other -/

theorem run_ofCalls {α : Type} (m : Calls α) (g : α → Activity) (w : σ) :
    (ofCalls m g).run s w = (g (m.run s w).1).run s (m.run s w).2 := by
  induction m generalizing w with
  | done a => rfl
  | call r k ih => exact ih _ _

theorem run_ofAttempt (m : Attempt Unit) (w : σ) :
    (ofAttempt m).run s w = Calls.run s m.run w :=
  run_ofCalls s m.run done w

theorem run_andThen_of_ok {a : Activity} {w w' : σ} (h : a.run s w = (.ok (), w'))
    (b : Activity) : (a.andThen b).run s w = b.run s w' := by
  rw [andThen, run_bind, h]

/-- Nothing comes after. -/
theorem run_andThen_idle (a : Activity) (w : σ) : (a.andThen idle).run s w = a.run s w := by
  rw [andThen, run_bind]
  obtain ⟨o, w'⟩ := a.run s w
  cases o with
  | ok u => rfl
  | error f => rfl

theorem run_mapFailure (describe : Failure → Failure) (a : Activity) (w : σ) :
    (a.mapFailure describe).run s w = ((a.run s w).1.mapError describe, (a.run s w).2) := by
  rw [mapFailure, run_bind]
  obtain ⟨o, w'⟩ := a.run s w
  cases o with
  | ok u => rfl
  | error f => rfl

/-- What succeeds at the first attempt is not tried again. -/
theorem run_retrying_of_ok {a : Activity} {w w' : σ}
    (h : a.run s (s.answer .stopwatch w).2 = (.ok (), w')) (p : RetryPolicy) :
    (p.retrying a).run s w = (.ok (), w') := by
  rw [RetryPolicy.retrying, run_call]
  cases p.maxRetry with
  | zero => exact h
  | succ retries =>
    rw [RetryPolicy.repeating, run_bind, h]
    rfl

/-- What fails in the same way at every attempt fails in this way, however often it is tried. -/
theorem run_retrying_of_error {a : Activity} {I : σ → Prop} {f : Failure}
    (ha : ∀ w, I w → ∃ w', a.run s w = (.error f, w') ∧ I w') (hpass : ∀ n w, I w → I (s.pass n w))
    (hwatch : ∀ w, I w → I (s.answer .stopwatch w).2) (p : RetryPolicy) {w : σ} (hw : I w) :
    ∃ w', (p.retrying a).run s w = (.error f, w') ∧ I w' := by
  have hrepeating : ∀ (start retries pause : Nat) (w : σ), I w →
      ∃ w', (p.repeating a start retries pause).run s w = (.error f, w') ∧ I w' := by
    intro start retries
    induction retries with
    | zero => exact fun _ => ha
    | succ retries ih =>
      intro pause w hw
      obtain ⟨w', hrun, hw'⟩ := ha w hw
      rw [RetryPolicy.repeating, run_bind, hrun]
      simp only [run_call]
      split
      · cases pause with
        | zero => exact ih _ _ (hwatch w' hw')
        | succ n =>
          rw [run_pause s n.succ_pos]
          exact ih _ _ (hpass _ _ (hwatch w' hw'))
      · exact ⟨_, rfl, hwatch w' hw'⟩
  exact hrepeating _ _ _ _ (hwatch w hw)

/-! ## Without a pause -/

/-- In the state `w` the activity comes without a pause to the outcome `o` and the state `w'`. -/
inductive Prompt : Activity → σ → Outcome → σ → Prop where
  /-- it has ended -/
  | done (o : Outcome) (w : σ) : Prompt (.done o) w o w
  /-- it makes a request first -/
  | call {r : Request} {k : r.Answer → Activity} {w w' : σ} {o : Outcome}
    (h : Prompt (k (s.answer r w).1) (s.answer r w).2 o w') : Prompt (.call r k) w o w'

variable {s}

theorem Prompt.run_eq {a : Activity} {w w' : σ} {o : Outcome} (h : a.Prompt s w o w') :
    a.run s w = (o, w') := by
  induction h with
  | done o w => rfl
  | call _ ih => exact ih

/-- What becomes of the surroundings comes of what they were asked. -/
theorem Prompt.hears {a : Activity} {w w' : σ} {o : Outcome} (h : a.Prompt s w o w') :
    ∃ heard, s.Hears w heard w' := by
  induction h with
  | done o w => exact ⟨[], .start w⟩
  | call _ ih =>
    obtain ⟨heard, hhears⟩ := ih
    exact ⟨_, ((Surroundings.Hears.start _).answered _).trans hhears⟩

theorem Prompt.bind {a : Activity} {g : Outcome → Activity} {w w' w'' : σ} {o p : Outcome}
    (h : a.Prompt s w o w') (hg : (g o).Prompt s w' p w'') : (a.bind g).Prompt s w p w'' := by
  induction h with
  | done o w => exact hg
  | call _ ih => exact .call (ih hg)

theorem Prompt.ofCalls {α : Type} {m : Calls α} {g : α → Activity} {w w' : σ} {o : Outcome}
    (h : (g (m.run s w).1).Prompt s (m.run s w).2 o w') : (ofCalls m g).Prompt s w o w' := by
  induction m generalizing w with
  | done a => exact h
  | call r k ih => exact .call (ih _ h)

/-- An attempt makes requests and does not pause. -/
theorem Prompt.ofAttempt {m : Attempt Unit} {w w' : σ} {o : Outcome}
    (h : Calls.run s m.run w = (o, w')) : (ofAttempt m).Prompt s w o w' := by
  refine .ofCalls ?_
  rw [h]
  exact .done o w'

theorem Prompt.andThen {a b : Activity} {w w' w'' : σ} {o : Outcome}
    (ha : a.Prompt s w (.ok ()) w') (hb : b.Prompt s w' o w'') : (a.andThen b).Prompt s w o w'' :=
  Prompt.bind ha hb

theorem Prompt.mapFailure {a : Activity} {w w' : σ} (h : a.Prompt s w (.ok ()) w')
    (describe : Failure → Failure) : (a.mapFailure describe).Prompt s w (.ok ()) w' :=
  Prompt.bind h (.done _ _)

theorem Prompt.retrying {a : Activity} {w w' : σ}
    (h : a.Prompt s (s.answer .stopwatch w).2 (.ok ()) w') (p : RetryPolicy) :
    (p.retrying a).Prompt s w (.ok ()) w' := by
  refine .call ?_
  cases p.maxRetry with
  | zero => exact h
  | succ retries => exact Prompt.bind h (.done _ _)

/-- **Side by side with an activity that does not pause.** The first side has ended before the
second begins. -/
theorem Prompt.run_fork {a : Activity} {w w' : σ} {o : Outcome} (h : a.Prompt s w o w')
    (b : Activity) (k : Outcome → Activity) :
    (fork a b k).run s w = (b.bind fun p => k (o.both p)).run s w' := by
  induction h with
  | done o w =>
    rw [run, run, course_bind]
    rfl
  | call _ ih => exact ih

/-! ## What is kept -/

variable (s) in
/-- Whatever holds before an activity happens holds afterwards. -/
def Keeps (I : σ → Prop) (a : Activity) : Prop :=
  ∀ w, I w → I (a.run s w).2

variable {I : σ → Prop}

/-- What every answer keeps, and time too, every activity keeps. -/
theorem keeps (hr : ∀ r w, I w → I (s.answer r w).2) (hpass : ∀ n w, I w → I (s.pass n w))
    (a : Activity) : a.Keeps s I := by
  have hcourse : ∀ (c : Course) (w : σ), I w → I (c.run s w).2 := by
    intro c
    induction c with
    | done o => exact fun _ hw => hw
    | call r k ih => exact fun w hw => ih _ _ (hr r w hw)
    | alarm n c ih => exact ih
    | wait n c ih => exact fun w hw => ih _ (hpass n w hw)
  exact hcourse a.course

theorem keeps_done (o : Outcome) : (done o).Keeps s I :=
  fun _ hw => hw

theorem keeps_call {r : Request} {k : r.Answer → Activity} (hr : ∀ w, I w → I (s.answer r w).2)
    (hk : ∀ x, (k x).Keeps s I) : (call r k).Keeps s I :=
  fun w hw => hk _ _ (hr w hw)

theorem Keeps.pause {a : Activity} (ha : a.Keeps s I) (hpass : ∀ n w, I w → I (s.pass n w))
    (n : Nat) : (pause n a).Keeps s I := by
  intro w hw
  cases n with
  | zero => exact ha w hw
  | succ n =>
    rw [run_pause s n.succ_pos]
    exact ha _ (hpass _ w hw)

theorem Keeps.bind {a : Activity} {g : Outcome → Activity} (ha : a.Keeps s I)
    (hg : ∀ o, (g o).Keeps s I) : (a.bind g).Keeps s I := by
  intro w hw
  rw [run_bind]
  exact hg _ _ (ha w hw)

theorem Keeps.andThen {a b : Activity} (ha : a.Keeps s I) (hb : b.Keeps s I) :
    (a.andThen b).Keeps s I := by
  refine ha.bind fun o => ?_
  cases o with
  | ok u => exact hb
  | error f => exact keeps_done _

theorem Keeps.mapFailure {a : Activity} (ha : a.Keeps s I) (describe : Failure → Failure) :
    (a.mapFailure describe).Keeps s I := by
  intro w hw
  rw [run_mapFailure]
  exact ha w hw

/-- What every attempt keeps is kept however often it is repeated. -/
theorem Keeps.retrying {a : Activity} (ha : a.Keeps s I) (hpass : ∀ n w, I w → I (s.pass n w))
    (hwatch : ∀ w, I w → I (s.answer .stopwatch w).2) (p : RetryPolicy) :
    (p.retrying a).Keeps s I :=
  p.retrying_of_closed keeps_done (keeps_call hwatch) (fun n _ ha => ha.pause hpass n) Keeps.bind ha

end Loyalty.Activity
