import Loyalty.Proofs.User.Resumption
import Loyalty.User.InPlace

/-!
# Where a replay stops

A replay that fails stops before one event, the first in the order of the history that cannot be
applied. The user who is left behind is the one to whom the events before it lead; it makes no
difference what comes after it, nor whether that could be applied.

That nothing is left of the event itself is plain where an event makes a new user. It is a property
of the changes where they write into a user kept in one place: a change that fails must fail before
it has written anything. `InPlace.run_change` says that they all do, and `InPlace.run_replay` carries
it through a history.

Main statement: where a replay stops, what it leaves behind, and that it comes to the same in place.
-/

namespace Loyalty

open Simulation.Supply (clock)

/-! ## In place -/

namespace InPlace

/-- How a replay ends for a user who is kept in one place. -/
def ending (r : User.Replayed) : EStateM.Result Failure User Unit :=
  match r.failure? with
  | none => .ok () r.user
  | some f => .error f r.user

/-- A change that fails has written nothing. -/
theorem run_change (u : User) (e : Event) (c : Change) :
    (change e c).run u =
      match u.change e.eventAt c with
      | .ok v => .ok () v
      | .error reason => .error (.invalidPayload e.aggregateId c.type reason) u := by
  cases c with
  | created | deleted | referralCreated => rfl
  | referralCompleted id =>
    rw [User.change]
    cases hk : u.referrals.findIdx? fun r => r.id = id with
    | none =>
      simp only [change, EStateM.run_bind, EStateM.run_get, hk, EStateM.run_throw]
      rfl
    | some i =>
      -- Two fields of the same referral are written, one after the other.
      simp only [change, EStateM.run_bind, EStateM.run_get, hk, EStateM.run_modify,
        List.modify_modify_eq]
      rfl
  | pointsEarned n =>
    rw [User.change]
    cases htotal : u.points.add? n with
    | none =>
      simp only [change, EStateM.run_bind, EStateM.run_get, htotal, EStateM.run_throw]
      rfl
    | some total =>
      simp only [change, EStateM.run_bind, EStateM.run_get, htotal, EStateM.run_modify]

/-- So has an event that cannot be applied. -/
theorem run_applyEvent (u : User) (e : Event) :
    (applyEvent e).run u =
      match u.applyEvent e with
      | .ok v => .ok () v
      | .error f => .error f u := by
  cases hc : e.decode with
  | error f =>
    rw [applyEvent, User.applyEvent, hc]
    rfl
  | ok c =>
    rw [User.applyEvent_of_decode hc, applyEvent, hc]
    simp only [EStateM.run_bind, run_change, Event.type_of_decode hc]
    cases u.change e.eventAt c with
    | error reason => rfl
    | ok v => rfl

/-- A replay in place leaves behind what the replay comes to. -/
theorem run_replay (u : User) (history : List Event) :
    (replay history).run u = ending (u.apply history) := by
  rw [replay, User.apply]
  generalize History.sorted history = es
  induction es generalizing u with
  | nil => rfl
  | cons e es ih =>
    have hcons : (e :: es).forM applyEvent = (applyEvent e >>= fun _ => es.forM applyEvent) := rfl
    rw [hcons, EStateM.run_bind, run_applyEvent, User.applyInOrder]
    cases u.applyEvent e with
    | error f => rfl
    | ok v => exact ih v

end InPlace

/-! ## The first event that cannot be applied -/

namespace User

/-- A replay of `history` onto `u` stops before `e` with the failure `f` and leaves `v` behind. -/
structure StopsBefore (u : User) (history before : List Event) (e : Event) (after : List Event)
    (v : User) (f : Failure) : Prop where
  /-- where the event stands in the order of the history -/
  inOrder : History.InOrder history (before ++ e :: after)
  /-- the events before it can be applied, each to what those before it have led to -/
  applied : before.foldlM applyEvent u = .ok v
  /-- the event itself cannot -/
  refused : v.applyEvent e = .error f

theorem applyInOrder_eq_ok_iff {u v : User} {es : List Event} :
    u.applyInOrder es = ⟨v, none⟩ ↔ es.foldlM applyEvent u = .ok v := by
  induction es generalizing u with
  | nil => simp [applyInOrder, pure, Except.pure]
  | cons e es ih =>
    rw [applyInOrder, List.foldlM_cons]
    cases u.applyEvent e with
    | error f => simp [bind, Except.bind]
    | ok w => exact ih

theorem applyInOrder_eq_error_iff {u v : User} {es : List Event} {f : Failure} :
    u.applyInOrder es = ⟨v, some f⟩ ↔ ∃ before e after, es = before ++ e :: after ∧
      before.foldlM applyEvent u = .ok v ∧ v.applyEvent e = .error f := by
  constructor
  · intro h
    induction es generalizing u with
    | nil => simp [applyInOrder] at h
    | cons e es ih =>
      rw [applyInOrder] at h
      split at h
      · next w hw =>
        obtain ⟨before, e', after, rfl, hbefore, he'⟩ := ih h
        refine ⟨e :: before, e', after, rfl, ?_, he'⟩
        rw [List.foldlM_cons, hw]
        exact hbefore
      · next g hg =>
        cases h
        exact ⟨[], e, es, rfl, rfl, hg⟩
  · rintro ⟨before, e, after, rfl, hbefore, he⟩
    rw [applyInOrder_append, applyInOrder_eq_ok_iff.2 hbefore]
    show v.applyInOrder (e :: after) = _
    rw [applyInOrder, he]

/-- A replay that fails stops before an event. -/
theorem apply_eq_error_iff {u v : User} {history : List Event} {f : Failure} :
    u.apply history = ⟨v, some f⟩ ↔
      ∃ before e after, u.StopsBefore history before e after v f := by
  rw [apply, applyInOrder_eq_error_iff]
  constructor
  · rintro ⟨before, e, after, hsorted, happlied, hrefused⟩
    exact ⟨before, e, after, History.inOrder_iff.2 hsorted.symm, happlied, hrefused⟩
  · rintro ⟨before, e, after, hinOrder, happlied, hrefused⟩
    exact ⟨before, e, after, hinOrder.eq_sorted.symm, happlied, hrefused⟩

namespace StopsBefore

variable {u v : User} {history before after : List Event} {e : Event} {f : Failure}

/-- The events before it are a history of their own, and can be replayed. -/
theorem apply_before (h : u.StopsBefore history before e after v f) :
    u.apply before = ⟨v, none⟩ := by
  have hascending := (List.pairwise_append.1 h.inOrder.ascending).1
  rw [apply, History.sorted_eq_self hascending]
  exact applyInOrder_eq_ok_iff.2 h.applied

/-- Whatever else comes after it, the replay stops there. -/
theorem apply_of_inOrder (h : u.StopsBefore history before e after v f)
    {history' later : List Event} (horder : History.InOrder history' (before ++ e :: later)) :
    u.apply history' = ⟨v, some f⟩ :=
  apply_eq_error_iff.2 ⟨before, e, later, horder, h.applied, h.refused⟩

/-- Nothing is applied beyond an event that cannot be applied. -/
theorem eq_nil_of_applied (h : u.StopsBefore history before e after v f) {rest after' : List Event}
    {e' : Event} {v' : User} (hrest : (before ++ rest).foldlM applyEvent u = .ok v')
    (hlist : e :: after = rest ++ e' :: after') : rest = [] := by
  cases rest with
  | nil => rfl
  | cons x rest =>
    obtain ⟨rfl, -⟩ := List.cons.inj hlist
    rw [List.foldlM_append, h.applied] at hrest
    have hfirst : (e :: rest).foldlM applyEvent v = .error f := by
      rw [List.foldlM_cons, h.refused]
      rfl
    cases hfirst.symm.trans hrest

/-- There is only one event before which a replay stops. -/
theorem unique (h : u.StopsBefore history before e after v f) {before' after' : List Event}
    {e' : Event} {v' : User} {f' : Failure} (h' : u.StopsBefore history before' e' after' v' f') :
    before' = before ∧ e' = e ∧ after' = after := by
  have hlist : before ++ e :: after = before' ++ e' :: after' :=
    h.inOrder.eq_sorted.trans h'.inOrder.eq_sorted.symm
  rcases List.append_eq_append_iff.1 hlist with ⟨rest, rfl, hrest⟩ | ⟨rest, rfl, hrest⟩
  · obtain rfl := h.eq_nil_of_applied h'.applied hrest
    obtain ⟨rfl, rfl⟩ := List.cons.inj hrest
    exact ⟨List.append_nil before, rfl, rfl⟩
  · obtain rfl := h'.eq_nil_of_applied h.applied hrest
    obtain ⟨rfl, rfl⟩ := List.cons.inj hrest
    exact ⟨(List.append_nil before').symm, rfl, rfl⟩

end StopsBefore

end User

/-- **Where a replay stops.** A replay fails exactly when there is an event before which it stops:
the events before it in the order of the history can be applied one after the other, they lead to
the user who is left behind, and the event cannot be applied to that user. Replaying the events
before it alone leads to the same user; the event leaves that user untouched even in place; whatever
comes after the event, the replay stops there with the same failure; and there is only one such
event. A replay in place comes to the same as a replay. -/
theorem replay_stops (u : User) (history : List Event) :
    (InPlace.replay history).run u = InPlace.ending (u.apply history) ∧
    ∀ v f, (u.apply history = ⟨v, some f⟩ ↔
        ∃ before e after, u.StopsBefore history before e after v f) ∧
      ∀ before e after, u.StopsBefore history before e after v f →
        u.apply before = ⟨v, none⟩ ∧
        (InPlace.applyEvent e).run v = .error f v ∧
        (∀ history' later, History.InOrder history' (before ++ e :: later) →
          u.apply history' = ⟨v, some f⟩) ∧
        ∀ before' e' after' v' f', u.StopsBefore history before' e' after' v' f' →
          before' = before ∧ e' = e ∧ after' = after := by
  refine ⟨InPlace.run_replay u history, fun v f => ⟨User.apply_eq_error_iff,
    fun before e after h => ⟨h.apply_before, ?_, fun history' later horder => ?_,
      fun before' e' after' v' f' h' => h.unique h'⟩⟩⟩
  · rw [InPlace.run_applyEvent, h.refused]
  · exact h.apply_of_inOrder horder

/-- Two more events that cannot be applied, the second of which cannot even be read. -/
def History.unseen : List Event :=
  [.ofChange "u" 5 (.referralCompleted "s") (clock 6),
    ⟨"u", .pointsEarned, 6, clock 7, some "\x7b\"pointsEarned\":0\x7d"⟩]

/-- A history with three events that cannot be applied, of which the first is `Event.excess`. -/
def History.spoilt : List Event :=
  beginning.reverse ++ (windfall ++ .excess :: unseen).reverse

theorem spoilt_stops :
    (User.new "u").StopsBefore History.spoilt (History.beginning ++ History.windfall) .excess
        History.unseen .brimful .tooManyPoints ∧
      (User.new "u").apply History.spoilt = ⟨.brimful, some .tooManyPoints⟩ ∧
      (User.new "u").apply (History.beginning ++ History.windfall) = ⟨.brimful, none⟩ ∧
      (InPlace.applyEvent .excess).run .brimful = .error .tooManyPoints .brimful ∧
      History.InOrder (History.beginning ++ History.windfall ++ [.excess])
        (History.beginning ++ History.windfall ++ [.excess]) ∧
      (User.new "u").apply (History.beginning ++ History.windfall ++ [.excess]) =
        ⟨.brimful, some .tooManyPoints⟩ := by
  have hsorted : History.sorted History.spoilt =
      History.beginning ++ History.windfall ++ .excess :: History.unseen := by
    rw [History.spoilt, History.sorted_append (by decide), History.sorted_reverse (by decide),
      History.sorted_reverse (by decide), List.append_assoc]
  have hstops : (User.new "u").StopsBefore History.spoilt
      (History.beginning ++ History.windfall) .excess History.unseen .brimful .tooManyPoints :=
    ⟨History.inOrder_iff.2 hsorted.symm, by decide +kernel, by decide +kernel⟩
  have hcut : History.InOrder (History.beginning ++ History.windfall ++ [.excess])
      (History.beginning ++ History.windfall ++ [.excess]) :=
    History.inOrder_iff.2 (History.sorted_eq_self (by decide)).symm
  have hreplay := (replay_stops (User.new "u") History.spoilt).2 .brimful .tooManyPoints
  obtain ⟨hbefore, hplace, hlater, -⟩ := hreplay.2 _ _ _ hstops
  exact ⟨hstops, hreplay.1.2 ⟨_, _, _, hstops⟩, hbefore, hplace, hcut, hlater _ [] hcut⟩

end Loyalty
