import Loyalty.Proofs.Process.Account
import Loyalty.Simulation.Run

/-!
# How often a delivery is tried

A delivery is tried again after a failure that may pass, while there are retries left and while
less than the longest retry time has gone by since it was first tried. All three are looked at in
the instant of the failure: the pause comes afterwards.

`RetryPolicy.Tries` says this of the list of all tries at something. Which of them is the last one
is decided by how it ended, and by nothing that comes later. What was tried is left open, and so is
whether others went on at the same time (see `Account`). Catching up is a part of a try, so a
handler that cannot catch up uses up the same retries as one that cannot handle the event.

Pauses are doubled in single precision. Where this is exact, the pauses are the powers of two of the
first pause, up to the longest. Where it is not, each of them is what `nextPause` makes of the one
before.

Main statement: a delivery is tried as its policy says, and ends as the last try did, with a failure
that names the handler and the event.
-/

namespace Loyalty

open Simulation

variable {S : Type}

/-- One of several tries at something. -/
structure Try (S : Type) where
  /-- where it began -/
  began : S
  /-- how it ended -/
  outcome : Outcome
  /-- where it ended -/
  ended : S
  /-- what the stopwatch showed when it had ended, if somebody looked -/
  shown : Option Nat

/-- Where a try leads: to its end or, if somebody looked at the stopwatch then, to where that
leads. -/
def Account.leaves (A : Account S) (t : Try S) (w : S) : Prop :=
  match t.shown with
  | none => w = t.ended
  | some now => A.answers .stopwatch t.ended now w

namespace RetryPolicy

variable (p : RetryPolicy)

/-- The pause after the try with a number, counted from 0, where the first pause is given. -/
def pauses (first k : Nat) : Nat :=
  p.nextPause^[k] first

/-- The try with a number is not the last one: it failed in a way that may pass, with retries left
and while the time since the start was short enough. -/
def GoesOn (start retries k : Nat) (t : Try S) : Prop :=
  ∃ f now, t.outcome = .error f ∧ t.shown = some now ∧ k < retries ∧ f.isRetryable = true ∧
    now - start < p.maxElapsedTime.nanos

/-- All tries at an activity, which began at `v` and came to the outcome `o` and to `w`. The
stopwatch showed `start` before the first of them; so many retries were left, and the first pause is
given. -/
structure Tries (A : Account S) (a : Activity) (start retries first : Nat) (v : S)
    (ts : List (Try S)) (o : Outcome) (w : S) : Prop where
  /-- the first of them -/
  begins : ∃ t, ts[0]? = some t ∧ t.began = v
  /-- each is one run of the activity -/
  runs : ∀ t ∈ ts, A.ends a t.began t.outcome t.ended
  /-- the stopwatch is looked at after a failure when there are retries left -/
  looks_iff : ∀ {k : Nat} {t : Try S}, ts[k]? = some t →
    (t.shown.isSome ↔ k < retries ∧ ∃ f, t.outcome = .error f)
  /-- whether there is a further try -/
  further_iff : ∀ {k : Nat} {t : Try S}, ts[k]? = some t →
    (k + 1 < ts.length ↔ p.GoesOn start retries k t)
  /-- it comes after a pause -/
  pause : ∀ {k : Nat} {t t' : Try S}, ts[k]? = some t → ts[k + 1]? = some t' →
    ∃ u, A.leaves t u ∧ A.rests (p.pauses first k) u t'.began
  /-- the last of them decides the outcome -/
  last : ∃ t, ts.getLast? = some t ∧ o = t.outcome ∧ A.leaves t w

namespace Tries

variable {p} {A : Account S} {a : Activity} {start retries first : Nat} {v w : S}
  {ts : List (Try S)} {o : Outcome}

/-- The only try. -/
theorem single {t : Try S} (hbegan : t.began = v) (hruns : A.ends a t.began t.outcome t.ended)
    (hlooks : t.shown.isSome ↔ 0 < retries ∧ ∃ f, t.outcome = .error f)
    (hlast : ¬ p.GoesOn start retries 0 t) (hw : A.leaves t w) :
    p.Tries A a start retries first v [t] t.outcome w where
  begins := ⟨t, rfl, hbegan⟩
  runs t' ht' := by
    obtain rfl := List.mem_singleton.1 ht'
    exact hruns
  looks_iff {k t'} ht' := by
    cases k with
    | zero =>
      cases ht'
      exact hlooks
    | succ k => cases ht'
  further_iff {k t'} ht' := by
    cases k with
    | zero =>
      cases ht'
      exact ⟨fun h => absurd h (by simp), fun h => absurd h hlast⟩
    | succ k => cases ht'
  pause {k t' t''} ht' ht'' := by cases ht''
  last := ⟨t, rfl, rfl, hw⟩

theorem goesOn_succ {k : Nat} {t : Try S} :
    p.GoesOn start (retries + 1) (k + 1) t ↔ p.GoesOn start retries k t := by
  simp only [GoesOn, Nat.add_lt_add_iff_right]

/-- One more try, before the others. -/
theorem cons {t : Try S} (hbegan : t.began = v) (hruns : A.ends a t.began t.outcome t.ended)
    (hgoesOn : p.GoesOn start (retries + 1) 0 t) {u v' : S} (hu : A.leaves t u)
    (hrests : A.rests first u v')
    (h : p.Tries A a start retries (p.nextPause first) v' ts o w) :
    p.Tries A a start (retries + 1) first v (t :: ts) o w where
  begins := ⟨t, rfl, hbegan⟩
  runs t' ht' := by
    rcases List.mem_cons.1 ht' with rfl | ht'
    · exact hruns
    · exact h.runs t' ht'
  looks_iff {k t'} ht' := by
    cases k with
    | zero =>
      cases ht'
      obtain ⟨f, now, hf, hnow, -⟩ := hgoesOn
      simp [hf, hnow]
    | succ k => simpa using h.looks_iff ht'
  further_iff {k t'} ht' := by
    cases k with
    | zero =>
      cases ht'
      obtain ⟨t', ht', -⟩ := h.begins
      have hpos : 0 < ts.length := (List.getElem?_eq_some_iff.1 ht').1
      exact ⟨fun _ => hgoesOn, fun _ => by simpa using hpos⟩
    | succ k =>
      rw [goesOn_succ, List.length_cons, Nat.add_lt_add_iff_right]
      exact h.further_iff ht'
  pause {k t' t''} ht' ht'' := by
    cases k with
    | zero =>
      cases ht'
      obtain ⟨t', ht', rfl⟩ := h.begins
      obtain rfl : t' = t'' := Option.some.inj (ht'.symm.trans ht'')
      exact ⟨u, hu, hrests⟩
    | succ k => exact h.pause ht' ht''
  last := by
    obtain ⟨t', ht', ho, hw⟩ := h.last
    exact ⟨t', by rw [List.getLast?_cons, ht', Option.getD_some], ho, hw⟩

/-- Every try leads somewhere. -/
theorem exists_leaves (h : p.Tries A a start retries first v ts o w) {k : Nat} {t : Try S}
    (ht : ts[k]? = some t) : ∃ u, A.leaves t u := by
  have hk : k < ts.length := (List.getElem?_eq_some_iff.1 ht).1
  rcases Nat.lt_or_ge (k + 1) ts.length with hfurther | hlast
  · obtain ⟨u, hu, -⟩ := h.pause ht (List.getElem?_eq_getElem hfurther)
    exact ⟨u, hu⟩
  · obtain ⟨t', ht', -, hw⟩ := h.last
    have hkth : ts.length - 1 = k := by omega
    rw [List.getLast?_eq_getElem?, hkth] at ht'
    obtain rfl : t = t' := Option.some.inj (ht.symm.trans ht')
    exact ⟨w, hw⟩

/-- There is one try more than there are retries, at most. -/
theorem length_le (h : p.Tries A a start retries first v ts o w) : ts.length ≤ retries + 1 := by
  by_contra hlong
  have hk : retries < ts.length := by omega
  obtain ⟨-, -, -, -, hlt, -⟩ := (h.further_iff (List.getElem?_eq_getElem hk)).1 (by omega)
  exact Nat.lt_irrefl _ hlt

/-- Where no time is given to retries there are none. -/
theorem length_eq_one (h : p.Tries A a start retries first v ts o w)
    (hzero : p.maxElapsedTime.nanos = 0) : ts.length = 1 := by
  obtain ⟨t, ht, -⟩ := h.begins
  have hpos : 0 < ts.length := (List.getElem?_eq_some_iff.1 ht).1
  by_contra hlong
  obtain ⟨-, now, -, -, -, -, hshort⟩ := (h.further_iff ht).1 (by omega)
  omega

/-- What pauses keep, and each try brings from one number to the next, holds of all tries: with its
number at the beginning of each, and with their number at the end. -/
theorem keeps (h : p.Tries A a start retries first v ts o w) {I : Nat → S → Prop} (hv : I 0 v)
    (htry : ∀ {k : Nat} {t : Try S}, ts[k]? = some t → I k t.began → I (k + 1) t.ended)
    (hlook : ∀ {k now : Nat} {u u' : S}, A.answers .stopwatch u now u' → I k u → I k u')
    (hrests : ∀ {k n : Nat} {u u' : S}, A.rests n u u' → I k u → I k u') :
    (∀ {k : Nat} {t : Try S}, ts[k]? = some t → I k t.began) ∧ I ts.length w := by
  have hleaves {k : Nat} {t : Try S} {u : S} (hu : A.leaves t u) (ht : I k t.ended) : I k u := by
    rw [Account.leaves] at hu
    split at hu
    · exact hu ▸ ht
    · exact hlook hu ht
  have hbegan {k : Nat} {t : Try S} (ht : ts[k]? = some t) : I k t.began := by
    induction k generalizing t with
    | zero =>
      obtain ⟨t', ht', rfl⟩ := h.begins
      exact Option.some.inj (ht'.symm.trans ht) ▸ hv
    | succ k ih =>
      have hk : k < ts.length := Nat.lt_of_succ_lt (List.getElem?_eq_some_iff.1 ht).1
      have hbefore := List.getElem?_eq_getElem hk
      obtain ⟨u, hu, hrest⟩ := h.pause hbefore ht
      exact hrests hrest (hleaves hu (htry hbefore (ih hbefore)))
  refine ⟨hbegan, ?_⟩
  obtain ⟨t, ht, -, hw⟩ := h.last
  obtain ⟨before, rfl⟩ := List.getLast?_eq_some_iff.1 ht
  have hlast : (before ++ [t])[before.length]? = some t := List.getElem?_concat_length
  rw [List.length_append]
  exact hleaves hw (htry hlast (hbegan hlast))

end Tries

variable {p} {A : Account S} {a : Activity} {start : Nat} {v w : S} {o : Outcome}

/-- What is repeated is tried as often as the policy says. -/
theorem tries_of_repeating {retries first : Nat}
    (h : A.ends (p.repeating a start retries first) v o w) :
    ∃ ts, p.Tries A a start retries first v ts o w := by
  induction retries generalizing first v with
  | zero =>
    have hnone : ¬ p.GoesOn start 0 0 (⟨v, o, w, none⟩ : Try S) := fun ⟨_, _, _, hnow, _⟩ => by
      cases hnow
    exact ⟨_, .single (t := ⟨v, o, w, none⟩) rfl h (by simp) hnone rfl⟩
  | succ retries ih =>
    obtain ⟨q, v', hfirst, hrest⟩ := A.of_bind h
    cases q with
    | ok u =>
      obtain ⟨rfl, rfl⟩ := A.of_done hrest
      have hok : ¬ p.GoesOn start (retries + 1) 0 (⟨v, .ok (), w, none⟩ : Try S) :=
        fun ⟨_, _, hf, _⟩ => by cases hf
      exact ⟨_, .single (t := ⟨v, .ok (), w, none⟩) rfl hfirst (by simp) hok rfl⟩
    | error f =>
      obtain ⟨now, u, hnow, hrest⟩ := A.of_call hrest
      by_cases hconsiders : p.considers f (now - start)
      · simp only [hconsiders, if_true] at hrest
        obtain ⟨hretryable, hshort⟩ : f.isRetryable = true ∧ now - start < p.maxElapsedTime.nanos := by
          simpa [considers] using hconsiders
        obtain ⟨v'', hrests, hagain⟩ := A.of_pause hrest
        obtain ⟨ts, hts⟩ := ih hagain
        have hgoesOn : p.GoesOn start (retries + 1) 0 (⟨v, .error f, v', some now⟩ : Try S) :=
          ⟨f, now, rfl, rfl, retries.succ_pos, hretryable, hshort⟩
        exact ⟨_, .cons (t := ⟨v, .error f, v', some now⟩) rfl hfirst hgoesOn hnow hrests hts⟩
      · simp only [hconsiders] at hrest
        obtain ⟨rfl, rfl⟩ := A.of_done hrest
        have hlast : ¬ p.GoesOn start (retries + 1) 0 (⟨v, .error f, v', some now⟩ : Try S) := by
          rintro ⟨f', now', hf, hnow', -, hretryable, hshort⟩
          cases hf
          cases hnow'
          exact hconsiders (by simp [considers, hretryable, hshort])
        exact ⟨_, .single (t := ⟨v, .error f, v', some now⟩) rfl hfirst (by simp) hlast hnow⟩

/-! ## Pauses -/

/-- The pauses are doubled exactly. -/
def DoublesExactly (p : RetryPolicy) : Prop :=
  ∀ k, p.initialInterval.nanos * 2 ^ k < p.longestPause →
    Pause.twice (p.initialInterval.nanos * 2 ^ k) = 2 * (p.initialInterval.nanos * 2 ^ k)

/-- So are those of a policy that counts in eighths of a second. -/
theorem doublesExactly_of_eighths {n : Nat} (hn : p.initialInterval.nanos = n * 125000000)
    (hlongest : p.longestPause ≤ 16777216 * 125000000) : p.DoublesExactly := by
  intro k hk
  have hscaled : p.initialInterval.nanos * 2 ^ k = n * 2 ^ k * 125000000 := by
    rw [hn, Nat.mul_right_comm]
  rw [hscaled] at hk ⊢
  exact Pause.twice_eighths (by omega)

/-- Pauses that are doubled exactly, up to the longest. -/
theorem DoublesExactly.pauses_eq (h : p.DoublesExactly) (k : Nat) :
    p.pauses p.initialInterval.nanos k = min (p.initialInterval.nanos * 2 ^ k) p.longestPause := by
  induction k with
  | zero =>
    have hle : p.initialInterval.nanos ≤ p.longestPause := Nat.le_max_right ..
    simpa [pauses] using hle
  | succ k ih =>
    have hdouble : p.initialInterval.nanos * 2 ^ (k + 1) = 2 * (p.initialInterval.nanos * 2 ^ k) := by
      rw [Nat.pow_succ']
      exact Nat.mul_left_comm ..
    have hnext : p.pauses p.initialInterval.nanos (k + 1) =
        p.nextPause (p.pauses p.initialInterval.nanos k) := Function.iterate_succ_apply' ..
    rw [hnext, ih, hdouble, nextPause]
    rcases Nat.lt_or_ge (p.initialInterval.nanos * 2 ^ k) p.longestPause with hshort | hlong
    · rw [Nat.min_eq_left (Nat.le_of_lt hshort), if_pos hshort, h k hshort]
    · rw [Nat.min_eq_right hlong, if_neg (Nat.lt_irrefl _)]
      omega

end RetryPolicy

/-! ## Deliveries -/

namespace Bus

/-- A delivery that came to the outcome `o` was tried as the policy says: the stopwatch was looked
at, and then there were so many tries. -/
def Tried (b : Bus) (A : Account S) (e : Event) (s : Subscription) (v : S) (o : Outcome) (w : S) :
    Prop :=
  ∃ start v' ts q, A.answers .stopwatch v start v' ∧
    b.policy.Tries A (s.attempt e) start b.policy.maxRetry b.policy.initialInterval.nanos v' ts q w ∧
    ts.length ≤ b.policy.maxRetry + 1 ∧
    (b.policy.maxElapsedTime.nanos = 0 → ts.length = 1) ∧
    o = q.mapError (.publish s.handler.name e.type e.aggregateId)

theorem tried_of_deliver (b : Bus) {A : Account S} {e : Event} {s : Subscription} {v w : S}
    {o : Outcome} (h : A.ends (b.deliver e s) v o w) : b.Tried A e s v o w := by
  obtain ⟨q, ho, hretrying⟩ := A.of_mapFailure h
  obtain ⟨start, v', hstart, hrepeating⟩ := A.of_call hretrying
  obtain ⟨ts, hts⟩ := RetryPolicy.tries_of_repeating hrepeating
  exact ⟨start, v', ts, q, hstart, hts, hts.length_le, hts.length_eq_one, ho⟩

/-- How an event is delivered through a subscription. -/
structure Retries (b : Bus) (e : Event) (s : Subscription) : Prop where
  /-- alone in whatever surroundings -/
  performed : ∀ {σ : Type} (u : Surroundings σ) (w : σ),
    b.Tried (.performing u) e s w ((b.deliver e s).run u w).1 ((b.deliver e s).run u w).2
  /-- and whatever else goes on -/
  interleaved : ∀ {H : Chronicle} {o : Outcome}, (b.deliver e s).Lives H (.done o) →
    b.Tried .living e s [] o H
  /-- the pause after each try -/
  pause_eq : b.policy.DoublesExactly → ∀ k,
    b.policy.pauses b.policy.initialInterval.nanos k =
      min (b.policy.initialInterval.nanos * 2 ^ k)
        (max b.policy.maxElapsedTime.nanos b.policy.initialInterval.nanos)

/-- **How often a delivery is tried.** A delivery is tried again after a try if and only if that
one failed in a way that may pass, with retries left and within the longest retry time; the pause
between two tries is the next one of the policy; and the delivery ends as the last try did. -/
theorem deliver_retries (b : Bus) (e : Event) (s : Subscription) : b.Retries e s where
  performed _ _ := b.tried_of_deliver rfl
  interleaved h := b.tried_of_deliver ⟨_, rfl, h⟩
  pause_eq h := h.pauses_eq

/-- A bus that waits for a quarter of a second before it tries again. -/
def patient : Bus where
  policy := {
    initialInterval := .ofMillis 250 (by decide)
    maxElapsedTime := .ofMillis 750 (by decide)
    maxRetry := 4 }
  handlers := [scriptedHandler "busy" [.pointsEarned] 0 false]

/-- Pauses are doubled until they are as long as the longest retry time. -/
theorem patient_retries :
    patient.policy.DoublesExactly ∧
      (List.range 4).map (patient.policy.pauses patient.policy.initialInterval.nanos) =
        [250000000, 500000000, 750000000, 750000000] := by
  have hexact : patient.policy.DoublesExactly :=
    RetryPolicy.doublesExactly_of_eighths (n := 2) rfl (by decide)
  let e : Event := .ofChange "kim" 1 (.pointsEarned 5) (Supply.standard.time 0)
  let s : Subscription := ⟨0, scriptedHandler "busy" [.pointsEarned] 0 false⟩
  have hpause := (deliver_retries patient e s).pause_eq hexact
  exact ⟨hexact, (List.map_congr_left fun k _ => hpause k).trans (by decide)⟩

end Bus

end Loyalty
