import Loyalty.Proofs.Delivery.Retrying
import Loyalty.Proofs.Delivery.Seclusion
import Loyalty.Proofs.Simulation.Passage

/-!
# Tries that begin late

Whether there is a further try is decided in the instant of the failure, and it begins after the
pause. So the longest retry time bounds the failures that are followed by a try. It does not bound
the tries: one that fails just in time is followed by another one that begins a whole pause later.

A policy is `Punctual` when no retry begins later than its longest retry time allows, whatever the
handler does and however long that takes. The tries are those of deliveries in a simulated world
whose stopwatch shows the time.

Main statement: each retry begins exactly a pause after the failure before it; and the punctual
policies are those under which there are no retries, or no pauses before them.
-/

namespace Loyalty

open Simulation

namespace Simulation.World

/-- The stopwatch shows the time. -/
theorem answer_stopwatch {w : World} (hw : w.stopwatchRuns = true) :
    w.answer .stopwatch = (w.time, w) := by
  simp [answer, hw]

/-- It goes on running. -/
theorem stopwatchRuns_run (a : Activity) {w : World} (hw : w.stopwatchRuns = true) :
    (a.run surroundings w).2.stopwatchRuns = true := by
  have hanswer (r : Request) (w : World) (hw : w.stopwatchRuns = true) :
      (w.answer r).2.stopwatchRuns = true :=
    (congrArg Prod.snd (clock_answer w r)).trans hw
  exact Activity.keeps (s := surroundings) (I := fun w => w.stopwatchRuns = true) hanswer
    (fun _ _ hw => hw) a w hw

theorem clock_rest (n : Nat) (w : World) :
    (surroundings.rest n w).clock = (w.time + min n Activity.longestSleep, w.stopwatchRuns) := by
  rw [Surroundings.rest]
  split
  · next hn => simp [clock, hn]
  · rfl

end Simulation.World

namespace RetryPolicy

variable (p : RetryPolicy)

/-- All tries of a delivery in a world, whose stopwatch runs. -/
def TriesIn (w : World) (e : Event) (s : Subscription) (ts : List (Try World)) : Prop :=
  w.stopwatchRuns = true ∧
    ∃ o w', p.Tries (.performing World.surroundings) (s.attempt e) w.time p.maxRetry
      p.initialInterval.nanos w ts o w'

/-- Every retry begins before the longest retry time has gone by since the first try began. -/
def Punctual : Prop :=
  ∀ {w : World} {e : Event} {s : Subscription} {ts : List (Try World)}, p.TriesIn w e s ts →
    ∀ t ∈ ts.tail, t.began.time < w.time + p.maxElapsedTime.nanos

/-- Whoever is told of an event has his tries. -/
theorem exists_triesIn {w : World} (hw : w.stopwatchRuns = true) (e : Event) (s : Subscription) :
    ∃ ts, p.TriesIn w e s ts := by
  have h : (Account.performing World.surroundings).ends
      (p.repeating (s.attempt e) w.time p.maxRetry p.initialInterval.nanos) w _ _ := rfl
  obtain ⟨ts, hts⟩ := tries_of_repeating h
  exact ⟨ts, hw, _, _, hts⟩

variable {p}

/-! ## When tries begin -/

section Times

variable {a : Activity} {start retries first : Nat} {v w : World} {ts : List (Try World)}
  {o : Outcome}

theorem clock_of_leaves {t : Try World} {u : World}
    (h : (Account.performing World.surroundings).leaves t u) : u.clock = t.ended.clock := by
  rw [Account.leaves] at h
  split at h
  · rw [h]
  · next now _ =>
    obtain rfl : (t.ended.answer .stopwatch).2 = u := congrArg Prod.snd h
    exact World.clock_answer ..

/-- The stopwatch runs all the time. -/
theorem Tries.stopwatchRuns
    (h : p.Tries (.performing World.surroundings) a start retries first v ts o w)
    (hv : v.stopwatchRuns = true) {k : Nat} {t : Try World} (ht : ts[k]? = some t) :
    t.ended.stopwatchRuns = true := by
  have hended {k : Nat} {t : Try World} (ht : ts[k]? = some t)
      (hbegan : t.began.stopwatchRuns = true) : t.ended.stopwatchRuns = true := by
    have hrun : (a.run World.surroundings t.began).2 = t.ended :=
      congrArg Prod.snd (h.runs t (List.mem_of_getElem? ht))
    rw [← hrun]
    exact World.stopwatchRuns_run a hbegan
  refine hended ht ((h.keeps (I := fun _ u => u.stopwatchRuns = true) hv hended ?_ ?_).1 ht)
  · intro _ now u u' hlook hu
    obtain rfl : (u.answer .stopwatch).2 = u' := congrArg Prod.snd hlook
    exact (congrArg Prod.snd (World.clock_answer u .stopwatch)).trans hu
  · intro _ n u u' hrest hu
    have hrest : u' = World.surroundings.rest n u := hrest
    rw [hrest]
    exact (congrArg Prod.snd (World.clock_rest n u)).trans hu

/-- Where somebody looked at the stopwatch, it showed when the try had ended. -/
theorem Tries.shown_eq
    (h : p.Tries (.performing World.surroundings) a start retries first v ts o w)
    (hv : v.stopwatchRuns = true) {k : Nat} {t : Try World} (ht : ts[k]? = some t) {now : Nat}
    (hshown : t.shown = some now) : now = t.ended.time := by
  obtain ⟨u, hu⟩ := h.exists_leaves ht
  rw [Account.leaves, hshown] at hu
  have hnow : (t.ended.answer .stopwatch).1 = now := congrArg Prod.fst hu
  rw [World.answer_stopwatch (h.stopwatchRuns hv ht)] at hnow
  exact hnow.symm

/-- A retry begins a pause after a failure, which came in time. -/
theorem Tries.retry_time
    (h : p.Tries (.performing World.surroundings) a start retries first v ts o w)
    (hv : v.stopwatchRuns = true) {k : Nat} {t t' : Try World} (ht : ts[k]? = some t)
    (ht' : ts[k + 1]? = some t') :
    t.ended.time < start + p.maxElapsedTime.nanos ∧
      t'.began.time = t.ended.time + min (p.pauses first k) Activity.longestSleep := by
  obtain ⟨u, hu, hrest⟩ := h.pause ht ht'
  have hrest : t'.began = World.surroundings.rest (p.pauses first k) u := hrest
  constructor
  · have hfurther := (h.further_iff ht).1 (List.getElem?_eq_some_iff.1 ht').1
    obtain ⟨f, now, -, hshown, -, -, hshort⟩ := hfurther
    have hnow := h.shown_eq hv ht hshown
    omega
  · have hclock := congrArg Prod.fst (World.clock_rest (p.pauses first k) u)
    rw [← hrest] at hclock
    exact hclock.trans (congrArg (· + _) (congrArg Prod.fst (clock_of_leaves hu)))

end Times

/-! ## Punctual policies -/

/-- Where the first pause has no length, none has. -/
theorem pauses_zero (p : RetryPolicy) (hzero : p.initialInterval.nanos = 0) (k : Nat) :
    p.pauses p.initialInterval.nanos k = 0 := by
  have hnext : p.nextPause 0 = 0 := by
    have htwice : Pause.twice 0 = 0 := Pause.twice_eighths (n := 0) (by decide)
    rw [nextPause, htwice]
    split <;> omega
  induction k with
  | zero => exact hzero
  | succ k ih =>
    rw [hzero] at ih ⊢
    exact (Function.iterate_succ_apply' ..).trans ((congrArg p.nextPause ih).trans hnext)

theorem punctual_of_iff (h : p.maxRetry = 0 ∨ p.maxElapsedTime.nanos = 0 ∨
    p.initialInterval.nanos = 0) : p.Punctual := by
  rintro w e s ts ⟨hw, o, w', hts⟩ t ht
  obtain ⟨k, hk⟩ := List.mem_iff_getElem?.1 ht
  rw [List.getElem?_tail] at hk
  have hlong : k + 1 < ts.length := (List.getElem?_eq_some_iff.1 hk).1
  have hbefore := List.getElem?_eq_getElem (Nat.lt_of_succ_lt hlong)
  obtain ⟨htime, hbegan⟩ := hts.retry_time hw hbefore hk
  rcases h with hnone | hnone | hnone
  · have hfew := hts.length_le
    omega
  · have hone := hts.length_eq_one hnone
    omega
  · rw [p.pauses_zero hnone] at hbegan
    omega

/-! ### A handler that fails at the last moment -/

/-- An activity after so many pauses of a nanosecond. -/
def waiting : Nat → Activity → Activity
  | 0, a => a
  | n + 1, a => .pause 1 (waiting n a)

theorem run_waiting (n : Nat) (a : Activity) (w : World) :
    (waiting n a).run World.surroundings w = a.run World.surroundings (w.pass n) := by
  induction n generalizing w with
  | zero => rfl
  | succ n ih =>
    have hone : min 1 Activity.longestSleep = 1 := by decide
    rw [waiting, Activity.run_pause _ Nat.one_pos, hone, ih]
    exact congrArg _ ((World.pass_pass 1 n w).trans (by rw [Nat.add_comm]))

/-- A handler that works for so many nanoseconds and then fails. -/
def slacker (n : Nat) : EventHandler where
  name := "slacker"
  types := [.pointsEarned]
  handle _ := waiting n (.fail (.readModel "row locked"))
  sync _ := .idle

theorem run_attempt_slacker (n number : Nat) (e : Event) (w : World) :
    ∃ w', ((⟨number, slacker n⟩ : Subscription).attempt e).run World.surroundings w =
      (.error (.readModel "row locked"), w') ∧ w'.time = w.time + n := by
  have hhandle {u : World} (hu : u.time = w.time) :
      ∃ w', ((slacker n).handle e).run World.surroundings u =
        (.error (.readModel "row locked"), w') ∧ w'.time = w.time + n :=
    ⟨u.pass n, run_waiting .., congrArg (· + n) hu⟩
  rw [Subscription.attempt, Activity.run_call]
  split
  · exact hhandle rfl
  · exact hhandle rfl

/-- With a retry left and a nanosecond too, this handler is told once more, after a pause. -/
theorem exists_retry (p : RetryPolicy) (hretry : p.maxRetry ≠ 0)
    (helapsed : p.maxElapsedTime.nanos ≠ 0) :
    ∃ w e s ts, p.TriesIn w e s ts ∧ ∃ t ∈ ts.tail, t.began.time =
      w.time + (p.maxElapsedTime.nanos - 1) + min p.initialInterval.nanos Activity.longestSleep := by
  let w : World := { stopwatchRuns := true }
  let e : Event := .ofChange "kim" 1 (.pointsEarned 5) (w.supply.time 0)
  let s : Subscription := ⟨0, slacker (p.maxElapsedTime.nanos - 1)⟩
  obtain ⟨ts, hw, o, w', htries⟩ := p.exists_triesIn (w := w) rfl e s
  obtain ⟨t, ht, hbegan⟩ := htries.begins
  -- The first try fails at the last moment.
  obtain ⟨v, hrun, hv⟩ := run_attempt_slacker (p.maxElapsedTime.nanos - 1) 0 e w
  have hruns := htries.runs t (List.mem_of_getElem? ht)
  rw [hbegan] at hruns
  obtain ⟨houtcome, hended⟩ := Prod.mk.inj (hruns.symm.trans hrun)
  have hsome := (htries.looks_iff ht).2 ⟨Nat.pos_of_ne_zero hretry, _, houtcome⟩
  obtain ⟨now, hshown⟩ := Option.isSome_iff_exists.1 hsome
  have hshort : now - w.time < p.maxElapsedTime.nanos := by
    rw [htries.shown_eq hw ht hshown, hended, hv]
    omega
  -- So there is a second one.
  have hfurther := (htries.further_iff ht).2
    ⟨_, now, houtcome, hshown, Nat.pos_of_ne_zero hretry, rfl, hshort⟩
  have hsecond := List.getElem?_eq_getElem hfurther
  refine ⟨w, e, s, ts, ⟨hw, o, w', htries⟩, ts[1], ?_, ?_⟩
  · exact List.mem_of_getElem? (i := 0) (List.getElem?_tail.trans hsecond)
  · rw [(htries.retry_time hw ht hsecond).2, hended, hv]
    rfl

theorem not_punctual (hretry : p.maxRetry ≠ 0) (helapsed : p.maxElapsedTime.nanos ≠ 0)
    (hinterval : p.initialInterval.nanos ≠ 0) : ¬ p.Punctual := by
  intro hpunctual
  obtain ⟨w, e, s, ts, hts, t, ht, hlate⟩ := p.exists_retry hretry helapsed
  have hearly := hpunctual hts t ht
  have hsleep : 0 < Activity.longestSleep := by decide
  omega

/-- **Tries that begin late.** A retry begins a pause after the failure before it, and only that
failure has to come in time. So a retry can begin too late unless there are no retries, or no time
for them, or no pauses. -/
theorem lateness (p : RetryPolicy) :
    (∀ {w : World} {e : Event} {s : Subscription} {ts : List (Try World)}, p.TriesIn w e s ts →
      ∀ {k : Nat} {t t' : Try World}, ts[k]? = some t → ts[k + 1]? = some t' →
        t.ended.time < w.time + p.maxElapsedTime.nanos ∧
          t'.began.time =
            t.ended.time + min (p.pauses p.initialInterval.nanos k) Activity.longestSleep) ∧
      (p.Punctual ↔ p.maxRetry = 0 ∨ p.maxElapsedTime.nanos = 0 ∨ p.initialInterval.nanos = 0) := by
  refine ⟨fun ⟨hw, _, _, hts⟩ => hts.retry_time hw, fun h => ?_, punctual_of_iff⟩
  by_contra hnone
  simp only [not_or] at hnone
  exact not_punctual hnone.1 hnone.2.1 hnone.2.2 h

/-- With an eighth of a second as the longest retry time and as the pause, the second call comes when
that time is over. -/
example :
    let b : Bus := {
      policy := ⟨.ofMillis 125 (by decide), .ofMillis 125 (by decide), 1⟩
      handlers := [scriptedHandler "busy" [.pointsEarned] 0 true] }
    let w : World := {
      stopwatchRuns := true
      scripts := fun _ => { always := some (.handler "busy" "not now") } }
    let e : Event := .ofChange "kim" 1 (.pointsEarned 5) (w.supply.time 0)
    (World.perform (b.publish [e]) w).2.callsTo "busy" =
      [(.handle e, 0, false), (.handle e, 125000000, false)] := by
  decide +kernel

end RetryPolicy

end Loyalty
