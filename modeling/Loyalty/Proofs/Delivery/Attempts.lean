import Loyalty.Proofs.Process.Account

/-!
# Attempts among all that happens

Whether a subscription has caught up on an aggregate is asked and noted by the attempts to deliver an
event, and by nobody else: handlers cannot get at this memory, though they may publish events
themselves, and so make attempts within an attempt. `Delivering` says this of an activity, and
`Subscription.Progress` says how far an attempt can have come.

In a chronicle an attempt shows where the memory is asked. What happened afterwards at the same place
and inwards is what the attempt lived through, as far as it has come; and where something is noted,
an attempt is behind it that was told to catch up and has done so.

That a handler is called does not show by itself. So a handler may be known by a name outside the
program, to which it announces each call before it does anything else. An activity then has a *call*,
of which the announcement is its beginning, or none; and only an attempt passes a call on.

Main statement: so it is in whatever an activity has lived through that makes attempts, and each
announced call comes right after the answer or the note by which the attempt was free to make it.
-/

namespace Loyalty

/-! ## How far an attempt has come -/

namespace Subscription

open Activity (Lives)
open Chronicle (heard)

variable (s : Subscription) (e : Event)

/-- So much has happened to an attempt to deliver an event, and the activity is left to be done. -/
inductive Progress : Chronicle → Activity → Prop where
  /-- nothing has happened -/
  | unbegun : Progress [] (s.attempt e)
  /-- the subscription has caught up before, and the handler reacts to the event -/
  | handling {H : Chronicle} {b : Activity} (h : (s.handler.handle e).Lives H b) :
    Progress (heard (.isSynced s.number e.aggregateId) true :: H) b
  /-- the handler catches up -/
  | syncing {H : Chronicle} {b : Activity} (h : (s.handler.sync e.aggregateId).Lives H b)
    (hb : ∀ o, b ≠ .done o) :
    Progress (heard (.isSynced s.number e.aggregateId) false :: H)
      (b.andThen (.call (.markSynced s.number e.aggregateId) fun _ => s.handler.handle e))
  /-- the handler could not catch up, and the attempt has failed -/
  | unsynced {H : Chronicle} {f : Failure}
    (h : (s.handler.sync e.aggregateId).Lives H (.done (.error f))) :
    Progress (heard (.isSynced s.number e.aggregateId) false :: H) (.done (.error f))
  /-- the handler has caught up, which is about to be noted -/
  | synced {H : Chronicle} (h : (s.handler.sync e.aggregateId).Lives H (.done (.ok ()))) :
    Progress (heard (.isSynced s.number e.aggregateId) false :: H)
      (.call (.markSynced s.number e.aggregateId) fun _ => s.handler.handle e)
  /-- the handler has caught up, which was noted, and reacts to the event -/
  | caughtUp {H H' : Chronicle} {b : Activity}
    (hsync : (s.handler.sync e.aggregateId).Lives H (.done (.ok ())))
    (h : (s.handler.handle e).Lives H' b) :
    Progress (heard (.isSynced s.number e.aggregateId) false ::
      (H ++ heard (.markSynced s.number e.aggregateId) () :: H')) b

variable {s e}

/-- An attempt comes through these stages and no others. -/
theorem progress_of_lives {H : Chronicle} {b : Activity} (h : (s.attempt e).Lives H b) :
    s.Progress e H b := by
  rcases h.of_call with ⟨rfl, rfl⟩ | ⟨x, H, rfl, hrest⟩
  · exact .unbegun
  cases x with
  | true => exact .handling hrest
  | false =>
    rcases Lives.of_bind hrest with ⟨c, hsync, rfl⟩ | ⟨o, first, second, rfl, hsync, hafter⟩
    · cases c with
      | done o =>
        cases o with
        | ok u => exact .synced hsync
        | error f => exact .unsynced hsync
      | call | pause | fork | crowd => exact .syncing hsync fun o ho => by cases ho
    · cases o with
      | error f =>
        obtain ⟨rfl, rfl⟩ := hafter.of_done
        rw [List.append_nil]
        exact .unsynced hsync
      | ok u =>
        rcases hafter.of_call with ⟨rfl, rfl⟩ | ⟨x, second, rfl, hhandle⟩
        · rw [List.append_nil]
          exact .synced hsync
        · exact .caughtUp hsync hhandle

end Subscription

/-! ## Who makes attempts -/

/-- Who may be called through the registration with a number, and the name to which calls through it
are announced. Handlers that publish events themselves have the bus within them, on which they are
registered again, so that there may be one for each depth. -/
structure Registered where
  /-- the handlers -/
  who : Nat → EventHandler → Prop
  /-- their names outside the program, if they have one there -/
  name? : Nat → Option String

/-- Calls are announced to this name. -/
def Registered.Announced (R : Registered) (name : String) : Prop :=
  ∃ n, R.name? n = some name

/-- A request that neither asks what a subscription remembers, or has it noted, nor announces a call
of a handler. -/
def Registered.IsPlain (R : Registered) : Request → Prop
  | .isSynced .. | .markSynced .. => False
  | .outside name _ => ¬ R.Announced name
  | _ => True

/-- What a handler was called for, through the registration with a number. -/
abbrev HandlerCall : Type := Nat × Errand

/-- An activity that asks what subscriptions remember, has it noted, and calls handlers, in attempts
only. It may be a call itself, which then is announced first of all. -/
inductive Delivering (R : Registered) : Option HandlerCall → Activity → Prop where
  /-- the end -/
  | done (o : Outcome) : Delivering R none (.done o)
  /-- any other request -/
  | call {r : Request} {k : r.Answer → Activity} (hr : R.IsPlain r)
    (hk : ∀ x, Delivering R none (k x)) : Delivering R none (.call r k)
  /-- the call is announced -/
  | announce {n : Nat} {name : String} (hname : R.name? n = some name) (errand : Errand)
    {k : Outcome → Activity} (hk : ∀ o, Delivering R none (k o)) :
    Delivering R (some (n, errand)) (.call (.outside name errand) k)
  /-- a pause -/
  | pause (n : Nat) {c : Option HandlerCall} {a : Activity} (ha : Delivering R c a) :
    Delivering R c (.pause n a)
  /-- two sides -/
  | fork {a b : Activity} {k : Outcome → Activity} (ha : Delivering R none a)
    (hb : Delivering R none b) (hk : ∀ o, Delivering R none (k o)) : Delivering R none (.fork a b k)
  /-- many sides -/
  | crowd {n : Nat} {members : Fin n → Activity} {k : Outcome → Activity}
    (hmembers : ∀ i, Delivering R none (members i)) (hk : ∀ o, Delivering R none (k o)) :
    Delivering R none (.crowd n members k)
  /-- one activity after the other -/
  | bind {c : Option HandlerCall} {a : Activity} {g : Outcome → Activity} (ha : Delivering R c a)
    (hg : ∀ o, Delivering R none (g o)) : Delivering R c (a.bind g)
  /-- an attempt to deliver an event, which calls the handler -/
  | attempt {s : Subscription} (hs : R.who s.number s.handler) {e : Event}
    (hhandle : Delivering R (some (s.number, .handle e)) (s.handler.handle e))
    (hsync : Delivering R (some (s.number, .sync e.aggregateId)) (s.handler.sync e.aggregateId)) :
    Delivering R none (s.attempt e)
  /-- a call of a handler that is not known outside the program -/
  | unannounced {c : Option HandlerCall} {a : Activity} (ha : Delivering R none a) : Delivering R c a

theorem Delivering.closed (R : Registered) : Activity.Closed R.IsPlain (Delivering R none) where
  done := .done
  call := .call
  pause n _ ha := .pause n ha
  fork := .fork
  bind := .bind

/-! ## Attempts in a chronicle -/

/-- Something holds of every entry of a list, given what stands before and after it. -/
def AtEach {α : Type} (P : List α → α → List α → Prop) (l : List α) : Prop :=
  ∀ (before : List α) (x : α) (after : List α), l = before ++ x :: after → P before x after

namespace AtEach

variable {α : Type} {P Q : List α → α → List α → Prop} {l l' : List α}

theorem nil : AtEach P [] :=
  fun _ _ _ h => absurd h.symm (by simp)

theorem mono (h : AtEach P l) (hPQ : ∀ before x after, P before x after → Q before x after) :
    AtEach Q l :=
  fun _ _ _ hl => hPQ _ _ _ (h _ _ _ hl)

theorem append (h : AtEach (fun before x after => P before x (after ++ l')) l)
    (h' : AtEach (fun before x after => P (l ++ before) x after) l') : AtEach P (l ++ l') := by
  intro before x after hl
  rcases List.append_eq_append_iff.1 hl with ⟨mid, rfl, hmid⟩ | ⟨mid, rfl, hmid⟩
  · exact h' _ _ _ hmid
  · cases mid with
    | nil => simpa using h' [] _ _ hmid.symm
    | cons y mid =>
      obtain ⟨rfl, rfl⟩ := List.cons.inj hmid
      exact h _ _ _ rfl

theorem cons {x : α} (hx : P [] x l) (h : AtEach (fun before y after => P (x :: before) y after) l) :
    AtEach P (x :: l) := by
  refine append (l := [x]) (fun before y after hl => ?_) h
  cases before with
  | nil =>
    obtain ⟨rfl, rfl⟩ := List.cons.inj hl
    exact hx
  | cons z before => simp at hl

end AtEach

/-- What a subscription was answered last when it is free to call the handler: that it has caught up,
or that this was noted, when it hands the event over, and that it has not, when it lets the handler
catch up. -/
inductive Exchange.Permits (n : Nat) : Exchange → Errand → Prop where
  /-- it has caught up before -/
  | known (e : Event) : Permits n ⟨.isSynced n e.aggregateId, true⟩ (.handle e)
  /-- it has done so now -/
  | noted (e : Event) : Permits n ⟨.markSynced n e.aggregateId, ()⟩ (.handle e)
  /-- it has not -/
  | unknown (id : String) : Permits n ⟨.isSynced n id, false⟩ (.sync id)

namespace Chronicle

/-- A question about what a subscription remembers began an attempt. What happened later at its
place and inwards happened to the attempt, which either has ended meanwhile or is still going on, and
then so is the whole. -/
def Begins (R : Registered) (going : Prop) (after : Chronicle) (x : Place × Happening) : Prop :=
  ∀ (n : Nat) (id : String) (known : Bool), x.2 = .answered ⟨.isSynced n id, known⟩ →
    ∃ h e story c, R.who n h ∧ e.aggregateId = id ∧
      (⟨n, h⟩ : Subscription).Progress e (heard (.isSynced n id) known :: story) c ∧
      ((∃ o, c = .done o) ∧ story <+: after.under x.1 ∨ going ∧ story = after.under x.1)

/-- Where it is noted that a subscription has caught up, it had been asked and had not, and after the
question the handler has caught up. -/
def Notes (R : Registered) (before : Chronicle) (x : Place × Happening) : Prop :=
  ∀ (n : Nat) (id : String), x.2 = .answered ⟨.markSynced n id, ()⟩ →
    ∃ (h : EventHandler) (before' mid : Chronicle), R.who n h ∧
      before = before' ++ (x.1, .answered ⟨.isSynced n id, false⟩) :: mid ∧
      (h.sync id).Lives (mid.under x.1) (.done (.ok ()))

/-- A call that is announced is what the whole was called for, which has asked for nothing before; or
it was permitted, and nothing was asked for since then at its place or inwards. -/
def Calls (R : Registered) (c : Option HandlerCall) (before : Chronicle) (x : Place × Happening) :
    Prop :=
  ∀ (name : String) (errand : Errand) (o : Outcome), R.Announced name →
    x.2 = .answered ⟨.outside name errand, o⟩ →
      ∃ n, R.name? n = some name ∧ (c = some (n, errand) ∧ x.1 = [] ∧ before.exchanges = [] ∨
        ∃ (y : Exchange) (before' mid : Chronicle), y.Permits n errand ∧
          before = before' ++ (x.1, .answered y) :: mid ∧ exchanges (mid.under x.1) = [])

/-- The attempts that show in a chronicle, where the activity is left to be done, and the calls. -/
structure Attempts (R : Registered) (c : Option HandlerCall) (H : Chronicle) (b : Activity) :
    Prop where
  /-- questions -/
  begins : AtEach (fun _ x after => Begins R (∀ o, b ≠ .done o) after x) H
  /-- notes -/
  notes : AtEach (fun before x _ => Notes R before x) H
  /-- calls -/
  calls : AtEach (fun before x _ => Calls R c before x) H

variable {R : Registered} {c : Option HandlerCall} {H H' : Chronicle} {b b' : Activity}

theorem Begins.append {going going' : Prop} {after later : Chronicle} {x : Place × Happening}
    (hbegins : Begins R going after x) (hended : ¬ going) :
    Begins R going' (after ++ later) x := by
  intro n id known hx
  obtain ⟨h, e, story, b, hR, he, hprogress, ⟨hb, hstory⟩ | ⟨hgoing, -⟩⟩ := hbegins n id known hx
  · refine ⟨h, e, story, b, hR, he, hprogress, .inl ⟨hb, ?_⟩⟩
    rw [Placed.under_append]
    exact hstory.trans (List.prefix_append _ _)
  · exact absurd hgoing hended

theorem Notes.append (earlier : Chronicle) {before : Chronicle} {x : Place × Happening}
    (hnotes : Notes R before x) : Notes R (earlier ++ before) x := by
  intro n id hx
  obtain ⟨h, before', mid, hR, rfl, hsync⟩ := hnotes n id hx
  exact ⟨h, earlier ++ before', mid, hR, by rw [List.append_assoc], hsync⟩

/-- What is not a call itself, or not from its beginning on, had its calls permitted. -/
theorem Calls.append (earlier : Chronicle) {before : Chronicle} {x : Place × Happening}
    (hcalls : Calls R none before x) : Calls R c (earlier ++ before) x := by
  intro name errand o hname hx
  obtain ⟨n, hn, ⟨⟨⟩, -⟩ | ⟨y, before', mid, hy, rfl, hmid⟩⟩ := hcalls name errand o hname hx
  exact ⟨n, hn, .inr ⟨y, earlier ++ before', mid, hy, by rw [List.append_assoc], hmid⟩⟩

/-- After a pause it is the same. -/
theorem Calls.rested (nanos : Nat) {before : Chronicle} {x : Place × Happening}
    (hcalls : Calls R c before x) : Calls R c (([], .rested nanos) :: before) x := by
  intro name errand o hname hx
  obtain ⟨n, hn, hfirst | ⟨y, before', mid, hy, rfl, hmid⟩⟩ := hcalls name errand o hname hx
  · exact ⟨n, hn, .inl hfirst⟩
  · exact ⟨n, hn, .inr ⟨y, _ :: before', mid, hy, rfl, hmid⟩⟩

/-- What was called for has its beginning permitted by what the whole was answered before. -/
theorem Calls.permitted {n : Nat} {errand : Errand} {y : Exchange} (hy : y.Permits n errand)
    (earlier : Chronicle) {before : Chronicle} {x : Place × Happening}
    (hcalls : Calls R (some (n, errand)) before x) :
    Calls R none (earlier ++ ([], .answered y) :: before) x := by
  intro name errand' o hname hx
  obtain ⟨m, hm, ⟨hcall, hplace, hbefore⟩ | ⟨z, before', mid, hz, rfl, hmid⟩⟩ :=
    hcalls name errand' o hname hx
  · cases hcall
    refine ⟨n, hm, .inr ⟨y, earlier, before, hy, ?_, ?_⟩⟩
    · rw [hplace]
    · rwa [hplace]
  · refine ⟨m, hm, .inr ⟨z, earlier ++ ([], .answered y) :: before', mid, hz, ?_, hmid⟩⟩
    rw [List.append_assoc, List.cons_append]

namespace Attempts

theorem nil : Attempts R c [] b :=
  ⟨.nil, .nil, .nil⟩

/-- It makes no difference how the activity goes on, unless it has ended. -/
theorem left (h : Attempts R c H b) (hb : (∀ o, b ≠ .done o) → ∀ o, b' ≠ .done o) :
    Attempts R c H b' where
  begins := h.begins.mono fun _ _ _ h n id known hx => by
    obtain ⟨h, e, story, a, hR, he, hprogress, hend⟩ := h n id known hx
    exact ⟨h, e, story, a, hR, he, hprogress, hend.imp_right fun hgoing => ⟨hb hgoing.1, hgoing.2⟩⟩
  notes := h.notes
  calls := h.calls

/-- What is no call may be one that is not announced. -/
theorem unannounced (h : Attempts R none H b) : Attempts R c H b where
  begins := h.begins
  notes := h.notes
  calls := h.calls.mono fun _ _ _ h => h.append []

/-- One after the other. -/
theorem append {o : Outcome} (h : Attempts R c H (.done o)) (h' : Attempts R none H' b) :
    Attempts R c (H ++ H') b where
  begins := .append (h.begins.mono fun _ _ _ h => h.append fun hgoing => hgoing o rfl) h'.begins
  notes := .append h.notes (h'.notes.mono fun _ _ _ h => h.append H)
  calls := .append h.calls (h'.calls.mono fun _ _ _ h => h.append H)

/-- A request that says nothing of attempts was made first. -/
theorem cons {r : Request} {x : r.Answer} (hasked : ∀ n id, r ≠ .isSynced n id)
    (hnoted : ∀ n id, r ≠ .markSynced n id) (hcalls : Calls R c [] (heard r x))
    (h : Attempts R none H b) : Attempts R c (heard r x :: H) b where
  begins := by
    refine .cons (fun n id _ hx => ?_) h.begins
    cases hx
    exact absurd rfl (hasked n id)
  notes := by
    refine .cons (fun n id hx => ?_) (h.notes.mono fun _ _ _ h => h.append [_])
    cases hx
    exact absurd rfl (hnoted n id)
  calls := .cons hcalls (h.calls.mono fun _ _ _ h => h.append [_])

/-- A pause was over first. -/
theorem rested (nanos : Nat) (h : Attempts R c H b) :
    Attempts R c (([], .rested nanos) :: H) b where
  begins := .cons (fun _ _ _ hx => by cases hx) h.begins
  notes := .cons (fun _ _ hx => by cases hx) (h.notes.mono fun _ _ _ h => h.append [_])
  calls := .cons (fun _ _ _ _ hx => by cases hx) (h.calls.mono fun _ _ _ h => h.rested nanos)

/-- Side by side. -/
theorem apart {n : Nat} {origins now : Fin n → Activity} (hapart : Activity.Apart origins now H)
    (hall : ∀ i : Fin n, Attempts R none (H.side i) (now i))
    (hb : Activity.Ended now ∨ ∀ o, b ≠ .done o) : Attempts R none H b where
  begins before x after hH m id known hx := by
    obtain ⟨i, ρ, hplace, hside⟩ := hapart.exists_side_eq hH
    obtain ⟨h, e, story, c, hR, he, hprogress, hend⟩ := (hall i).begins _ _ _ hside m id known hx
    rw [hplace]
    refine ⟨h, e, story, c, hR, he, hprogress, hend.imp_right fun hgoing => ⟨?_, hgoing.2⟩⟩
    rcases hb with hended | hb
    · obtain ⟨o, ho⟩ := hended i
      exact absurd ho (hgoing.1 o)
    · exact hb
  notes before x after hH m id hx := by
    obtain ⟨i, ρ, hplace, hside⟩ := hapart.exists_side_eq hH
    obtain ⟨h, before', mid, hR, hbefore, hsync⟩ := (hall i).notes _ _ _ hside m id hx
    obtain ⟨before'', mid', rfl, -, rfl⟩ := Placed.exists_of_side_eq hbefore
    rw [hplace]
    exact ⟨h, before'', mid', hR, rfl, hsync⟩
  calls before x after hH name errand o hname hx := by
    obtain ⟨i, ρ, hplace, hside⟩ := hapart.exists_side_eq hH
    obtain ⟨m, hm, ⟨⟨⟩, -⟩ | ⟨y, before', mid, hy, hbefore, hmid⟩⟩ :=
      (hall i).calls _ _ _ hside name errand o hname hx
    obtain ⟨before'', mid', rfl, -, rfl⟩ := Placed.exists_of_side_eq hbefore
    rw [hplace]
    exact ⟨m, hm, .inr ⟨y, before'', mid', hy, rfl, hmid⟩⟩

end Attempts

section Attempt

variable {s : Subscription} {e : Event} (hs : R.who s.number s.handler)

include hs

/-- The question with which an attempt begins. -/
theorem begins_of_progress {known : Bool}
    (hprogress : s.Progress e (heard (.isSynced s.number e.aggregateId) known :: H) b) :
    Begins R (∀ o, b ≠ .done o) H (heard (.isSynced s.number e.aggregateId) known) := by
  intro n id known' hx
  cases hx
  refine ⟨s.handler, e, H, b, hs, rfl, hprogress, ?_⟩
  by_cases hb : ∃ o, b = .done o
  · exact .inl ⟨hb, List.prefix_rfl⟩
  · exact .inr ⟨not_exists.1 hb, rfl⟩

/-- The question, and what came of the call that it permitted while nothing was noted. -/
theorem Attempts.question {known : Bool} {errand : Errand}
    (hprogress : s.Progress e (heard (.isSynced s.number e.aggregateId) known :: H) b)
    (hpermits : Exchange.Permits s.number ⟨.isSynced s.number e.aggregateId, known⟩ errand)
    (hall : Attempts R (some (s.number, errand)) H b')
    (hb : (∀ o, b' ≠ .done o) → ∀ o, b ≠ .done o) :
    Attempts R none (heard (.isSynced s.number e.aggregateId) known :: H) b where
  begins := .cons (begins_of_progress hs hprogress) (hall.left hb).begins
  notes := .cons (fun _ _ hx => by cases hx) (hall.notes.mono fun _ _ _ h => h.append [_])
  calls := by
    refine .cons (fun _ _ _ _ hx => by cases hx) (hall.calls.mono fun _ _ _ h => ?_)
    exact h.permitted hpermits []

/-- The question, catching up, the note and what came after it. -/
theorem Attempts.caughtUp
    (hsync : (s.handler.sync e.aggregateId).Lives H (.done (.ok ())))
    (hhandle : (s.handler.handle e).Lives H' b)
    (hall : Attempts R (some (s.number, .sync e.aggregateId)) H (.done (.ok ())))
    (hall' : Attempts R (some (s.number, .handle e)) H' b) :
    Attempts R none (heard (.isSynced s.number e.aggregateId) false ::
      (H ++ heard (.markSynced s.number e.aggregateId) () :: H')) b := by
  have hquestion : Attempts R none (heard (.isSynced s.number e.aggregateId) false :: H)
      (.call (.markSynced s.number e.aggregateId) fun _ => s.handler.handle e) :=
    hall.question hs (.synced hsync) (.unknown _) fun h => absurd rfl (h _)
  refine ⟨?_, ?_, ?_⟩
  · refine .cons (begins_of_progress hs (.caughtUp hsync hhandle)) (.append ?_ ?_)
    · exact hall.begins.mono fun _ _ _ h => h.append fun hgoing => hgoing _ rfl
    · exact .cons (fun _ _ _ hx => by cases hx) hall'.begins
  · have hnote : Notes R (heard (.isSynced s.number e.aggregateId) false :: H)
        (heard (.markSynced s.number e.aggregateId) ()) := by
      intro n id hx
      cases hx
      exact ⟨s.handler, [], H, hs, rfl, hsync⟩
    have hlater : AtEach
        (fun before x _ => Notes R (heard (.isSynced s.number e.aggregateId) false :: H ++ before) x)
        (heard (.markSynced s.number e.aggregateId) () :: H') := by
      refine .cons ?_ (hall'.notes.mono fun _ _ _ h => (h.append [_]).append _)
      rwa [List.append_nil]
    exact AtEach.append (P := fun before x _ => Notes R before x) hquestion.notes hlater
  · have hlater : AtEach
        (fun before x _ => Calls R none
          (heard (.isSynced s.number e.aggregateId) false :: H ++ before) x)
        (heard (.markSynced s.number e.aggregateId) () :: H') := by
      refine .cons (fun _ _ _ _ hx => by cases hx) (hall'.calls.mono fun _ _ _ h => ?_)
      exact h.permitted (.noted e) _
    exact AtEach.append (P := fun before x _ => Calls R none before x) hquestion.calls hlater

end Attempt

/-- An activity shows its attempts, and the calls, in whatever happens to it. -/
def Shows (R : Registered) (c : Option HandlerCall) (a : Activity) : Prop :=
  ∀ (H : Chronicle) (b : Activity), a.Lives H b → Attempts R c H b

theorem shows_call {r : Request} (hr : R.IsPlain r) {k : r.Answer → Activity}
    (hk : ∀ x, Shows R none (k x)) : Shows R none (.call r k) := by
  intro H b h
  rcases h.of_call with ⟨rfl, rfl⟩ | ⟨x, H, rfl, hrest⟩
  · exact .nil
  · refine (hk x H b hrest).cons (fun n id hx => ?_) (fun n id hx => ?_) ?_
    · exact (hx ▸ hr : R.IsPlain (.isSynced n id))
    · exact (hx ▸ hr : R.IsPlain (.markSynced n id))
    · intro name errand o hname hx
      cases hx
      exact absurd hname hr

theorem shows_announce {n : Nat} {name : String} (hname : R.name? n = some name) (errand : Errand)
    {k : Outcome → Activity} (hk : ∀ o, Shows R none (k o)) :
    Shows R (some (n, errand)) (.call (.outside name errand) k) := by
  intro H b h
  rcases h.of_call with ⟨rfl, rfl⟩ | ⟨o, H, rfl, hrest⟩
  · exact .nil
  · refine (hk o H b hrest).cons (by simp) (by simp) fun name' errand' o' _ hx => ?_
    cases hx
    exact ⟨n, hname, .inl ⟨rfl, rfl, rfl⟩⟩

theorem Shows.pause (n : Nat) {a : Activity} (ha : Shows R c a) : Shows R c (.pause n a) := by
  intro H b h
  rcases h.of_pause with ⟨rfl, rfl⟩ | ⟨H, rfl, hrest⟩
  · exact .nil
  · exact (ha H b hrest).rested n

theorem Shows.bind {a : Activity} {g : Outcome → Activity} (ha : Shows R c a)
    (hg : ∀ o, Shows R none (g o)) : Shows R c (a.bind g) := by
  intro H b h
  rcases h.of_bind with ⟨a', ha', rfl⟩ | ⟨o, first, second, rfl, hfirst, hsecond⟩
  · refine (ha H a' ha').left fun hgoing o ho => ?_
    obtain ⟨p, rfl, -⟩ := Activity.eq_done_of_bind ho
    exact hgoing p rfl
  · exact (ha first _ hfirst).append (hg o second b hsecond)

theorem Shows.fork {a b : Activity} {k : Outcome → Activity} (ha : Shows R none a)
    (hb : Shows R none b) (hk : ∀ o, Shows R none (k o)) : Shows R none (.fork a b k) := by
  have hsides {now : Fin 2 → Activity} {H : Chronicle}
      (hapart : Activity.Apart (Activity.sides a b) now H) (i : Fin 2) :
      Attempts R none (H.side i) (now i) := by
    revert i
    exact Fin.forall_fin_two.2 ⟨ha _ _ (hapart.lives 0), hb _ _ (hapart.lives 1)⟩
  intro H b' h
  rcases h.of_fork with ⟨a', b', rfl, hapart⟩ | ⟨now, o, first, second, rfl, hapart, hended, hrest⟩
  · exact .apart hapart (hsides hapart) (.inr fun o ho => by cases ho)
  · have hfirst : Attempts R none first (.done o) := .apart hapart (hsides hapart) (.inl hended)
    exact hfirst.append (hk o second b' hrest)

theorem Shows.crowd {n : Nat} {members : Fin n → Activity} {k : Outcome → Activity}
    (hmembers : ∀ i, Shows R none (members i)) (hk : ∀ o, Shows R none (k o)) :
    Shows R none (.crowd n members k) := by
  intro H b h
  rcases h.of_crowd with ⟨now, rfl, hapart⟩ | ⟨now, o, first, second, rfl, hapart, hended, hrest⟩
  · exact .apart hapart (fun i => hmembers i _ _ (hapart.lives i)) (.inr fun o ho => by cases ho)
  · have hfirst : Attempts R none first (.done o) :=
      .apart hapart (fun i => hmembers i _ _ (hapart.lives i)) (.inl hended)
    exact hfirst.append (hk o second b hrest)

theorem Shows.attempt {s : Subscription} (hs : R.who s.number s.handler) {e : Event}
    (hhandle : Shows R (some (s.number, .handle e)) (s.handler.handle e))
    (hsync : Shows R (some (s.number, .sync e.aggregateId)) (s.handler.sync e.aggregateId)) :
    Shows R none (s.attempt e) := by
  intro H b h
  cases Subscription.progress_of_lives h with
  | unbegun => exact .nil
  | handling h' => exact (hhandle _ _ h').question hs (.handling h') (.known e) id
  | syncing h' hb =>
    refine (hsync _ _ h').question hs (.syncing h' hb) (.unknown _) fun hgoing o ho => ?_
    obtain ⟨p, rfl, -⟩ := Activity.eq_done_of_bind ho
    exact hgoing p rfl
  | unsynced h' => exact (hsync _ _ h').question hs (.unsynced h') (.unknown _) id
  | synced h' =>
    exact (hsync _ _ h').question hs (.synced h') (.unknown _) fun hgoing => absurd rfl (hgoing _)
  | caughtUp hsync' h' => exact (hsync _ _ hsync').caughtUp hs hsync' h' (hhandle _ _ h')

end Chronicle

/-- **Attempts among all that happens.** Whatever happens to an activity that makes attempts, each
question about what a subscription remembers began one, each note was made by one that has caught
up, and each call that is announced was made by one that was free to. -/
theorem Delivering.shows {R : Registered} {c : Option HandlerCall} {a : Activity}
    (ha : Delivering R c a) : Chronicle.Shows R c a := by
  induction ha with
  | done o =>
    intro H b h
    obtain ⟨rfl, rfl⟩ := h.of_done
    exact .nil
  | call hr _ ih => exact Chronicle.shows_call hr ih
  | announce hname errand _ ih => exact Chronicle.shows_announce hname errand ih
  | pause n _ ih => exact ih.pause n
  | fork _ _ _ iha ihb ihk => exact iha.fork ihb ihk
  | crowd _ _ ihmembers ihk => exact Chronicle.Shows.crowd ihmembers ihk
  | bind _ _ iha ihg => exact iha.bind ihg
  | attempt hs _ _ ihhandle ihsync => exact ihhandle.attempt hs ihsync
  | unannounced _ ih => exact fun H b h => (ih H b h).unannounced

end Loyalty
