import Mathlib.Algebra.GroupWithZero.Nat
import Mathlib.Data.List.Induction
import Loyalty.Proofs.Event.Payload
import Loyalty.Proofs.EventStore
import Loyalty.User.Replay

/-!
# What a replay tells

A gapless history is replayed event by event, so a replay of one event more is the replay of the
others and then that event. `User.Reflects` says what of a history can be seen in the user that it
replays to: the version is the length, the user has left exactly when a deletion stands in the
history, each referral was created by an event of it, and the balance is the sum of all points.

Main statements: what a gapless history replays to reflects it; a change that a rule may decide
upon can be applied unless the points do not fit.
-/

namespace Loyalty

/-- Two things in a row have succeeded when both have. -/
theorem eq_ok_of_bind {ε α β : Type} {x : Except ε α} {g : α → Except ε β} {b : β}
    (h : x >>= g = .ok b) : ∃ a, x = .ok a ∧ g a = .ok b := by
  cases x with
  | ok a => exact ⟨a, rfl, h⟩
  | error e => cases h

/-! ## What an event says -/

namespace Change

/-- What is read for a kind is a change of that kind. -/
theorem type_of_ofJson? {t : EventType} {j : Json} {c : Change} (h : ofJson? t j = some c) :
    c.type = t := by
  cases t with
  | userCreated | userReferralCreated =>
    obtain ⟨x, -, rfl⟩ := Option.map_eq_some_iff.1 h
    rfl
  | userDeleted | userReferralCompleted | pointsEarned =>
    obtain ⟨fs, -, h⟩ := Option.bind_eq_some_iff.1 h
    obtain ⟨x, -, rfl⟩ := Option.map_eq_some_iff.1 h
    rfl

theorem checked_eq_ok_iff {c d : Change} : c.checked = .ok d ↔ c.fault? = none ∧ c = d := by
  rw [checked]
  cases c.fault? with
  | none => simp
  | some f => simp

/-- What is required is there when nothing that is required is blank. -/
theorem requireFields_eq_none_iff {fields : List (String × String)} :
    requireFields fields = none ↔ ∀ f ∈ fields, Text.isBlank f.2 = false := by
  rw [requireFields, Option.map_eq_none_iff]
  induction fields with
  | nil => simp [firstBlank]
  | cons f fields ih =>
    rw [firstBlank]
    cases hf : Text.isBlank f.2 with
    | true => simp [hf]
    | false => simpa [hf] using ih

theorem checked_of_decode {t : EventType} {payload : Option String} {c : Change}
    (h : decode t payload = .ok c) : c.checked = .ok c := by
  cases payload with
  | none => cases h
  | some payload =>
    rw [decode] at h
    split at h
    · cases h
    · next d hd =>
      obtain ⟨-, rfl⟩ := checked_eq_ok_iff.1 h
      exact h

theorem type_of_decode {t : EventType} {payload : Option String} {c : Change}
    (h : decode t payload = .ok c) : c.type = t := by
  cases payload with
  | none => cases h
  | some payload =>
    rw [decode] at h
    split at h
    · cases h
    · next d hd =>
      obtain ⟨j, -, hj⟩ := Option.bind_eq_some_iff.1 hd
      obtain ⟨-, rfl⟩ := checked_eq_ok_iff.1 h
      exact type_of_ofJson? hj

/-- How many points a change gives. -/
def points : Change → Nat
  | pointsEarned n => n.toNat
  | _ => 0

@[simp] theorem points_carried (c : Change) : c.carried.points = c.points := by
  cases c <;> rfl

end Change

namespace Event

theorem type_of_decode {e : Event} {c : Change} (h : e.decode = .ok c) : c.type = e.type := by
  rw [decode] at h
  split at h
  · next d hd =>
    cases h
    exact Change.type_of_decode hd
  · cases h

/-- What an event says has passed the gate. -/
theorem fault?_of_decode {e : Event} {c : Change} (h : e.decode = .ok c) : c.fault? = none := by
  rw [decode] at h
  split at h
  · next d hd =>
    cases h
    exact (Change.checked_eq_ok_iff.1 (Change.checked_of_decode hd)).1
  · cases h

/-- How many points an event gives. -/
def points (e : Event) : Nat :=
  match e.decode with
  | .ok c => c.points
  | .error _ => 0

theorem points_eq {e : Event} {c : Change} (h : e.decode = .ok c) : e.points = c.points := by
  rw [points, h]

end Event

/-- How many points a history gives. -/
def History.points (es : List Event) : Nat :=
  (es.map Event.points).sum

theorem History.points_append (es : List Event) (e : Event) :
    points (es ++ [e]) = points es + e.points := by
  simp [points]

/-! ## One event more -/

/-- Where an element stands in a list with one more element at the end. -/
theorem History.split_concat {α : Type} {es before after : List α} {x e : α}
    (h : es ++ [x] = before ++ e :: after) :
    (after = [] ∧ before = es ∧ e = x) ∨
      ∃ after', after = after' ++ [x] ∧ es = before ++ e :: after' := by
  rcases List.eq_nil_or_concat after with rfl | ⟨after', y, rfl⟩
  · obtain ⟨rfl, hlast⟩ := List.append_inj' h rfl
    cases hlast
    exact .inl ⟨rfl, rfl, rfl⟩
  · rw [List.concat_eq_append, ← List.cons_append, ← List.append_assoc] at h
    obtain ⟨rfl, hlast⟩ := List.append_inj' h rfl
    cases hlast
    exact .inr ⟨after', List.concat_eq_append, rfl⟩

namespace User

/-- What an event does to a user when it is known what it says. -/
theorem applyEvent_of_decode {u : User} {e : Event} {c : Change} (hc : e.decode = .ok c) :
    u.applyEvent e =
      match u.change e.eventAt c with
      | .error reason => .error (.invalidPayload e.aggregateId e.type reason)
      | .ok v => .ok { v with updatedAt := some e.eventAt, version := e.version } := by
  rw [applyEvent, hc]
  rfl

/-- What an event did to a user. -/
theorem applyEvent_eq_ok_iff {u v : User} {e : Event} :
    u.applyEvent e = .ok v ↔
      ∃ c w, e.decode = .ok c ∧ u.change e.eventAt c = .ok w ∧
        v = { w with updatedAt := some e.eventAt, version := e.version } := by
  rw [applyEvent]
  cases e.decode with
  | error f => exact ⟨nofun, fun ⟨_, _, hc, _⟩ => nomatch hc⟩
  | ok c =>
    simp only [bind, Except.bind]
    cases hw : u.change e.eventAt c with
    | error reason =>
      refine ⟨nofun, ?_⟩
      rintro ⟨_, w, hc, hw', -⟩
      cases hc
      cases hw.symm.trans hw'
    | ok w =>
      constructor
      · intro h
        exact ⟨c, w, rfl, hw, (Except.ok.inj h).symm⟩
      · rintro ⟨_, w', hc, hw', rfl⟩
        cases hc
        cases hw.symm.trans hw'
        rfl

/-- An event that cannot be applied is at fault with what it says. -/
theorem exists_invalidPayload_of_applyEvent {u : User} {e : Event} {f : Failure}
    (h : u.applyEvent e = .error f) : ∃ reason, f = .invalidPayload e.aggregateId e.type reason := by
  rw [applyEvent, Event.decode] at h
  split at h
  · next c _ =>
    simp only [bind, Except.bind] at h
    split at h
    · next reason _ =>
      cases h
      exact ⟨reason, rfl⟩
    · cases h
  · next fault _ =>
    cases h
    exact ⟨fault.message, rfl⟩

/-- So is one of the events of a history that cannot be replayed. -/
theorem exists_invalidPayload_of_ofHistory {id : String} {es : List Event} {f : Failure}
    (h : ofHistory id es = .error f) :
    ∃ (e : Event) (reason : String), f = .invalidPayload e.aggregateId e.type reason := by
  rw [ofHistory, apply] at h
  generalize History.sorted es = sorted at h
  generalize new id = u at h
  induction sorted generalizing u with
  | nil => cases h
  | cons e es ih =>
    rw [applyInOrder] at h
    split at h
    · exact ih _ h
    · next f' hf' =>
      cases h
      exact ⟨e, exists_invalidPayload_of_applyEvent hf'⟩

theorem result_applyInOrder_append (u : User) (es : List Event) (e : Event) :
    (u.applyInOrder (es ++ [e])).result =
      (u.applyInOrder es).result >>= fun v => v.applyEvent e := by
  rw [applyInOrder_append]
  cases h : (u.applyInOrder es).failure? with
  | none =>
    have hresult : (u.applyInOrder es).result = .ok (u.applyInOrder es).user := by
      rw [Replayed.result, h]
    rw [hresult]
    show ((u.applyInOrder es).user.applyInOrder [e]).result = (u.applyInOrder es).user.applyEvent e
    rw [applyInOrder]
    cases (u.applyInOrder es).user.applyEvent e with
    | ok v => rfl
    | error f => rfl
  | some f =>
    have hresult : (u.applyInOrder es).result = .error f := by
      rw [Replayed.result, h]
    rw [hresult]
    rfl

/-- A gapless history is replayed as it stands. -/
theorem ofHistory_of_gapless (id : String) {es : List Event} (h : History.Gapless es) :
    ofHistory id es = ((new id).applyInOrder es).result := by
  rw [ofHistory, apply, h.sorted_eq]

/-- A replay of one event more. -/
theorem ofHistory_append {id : String} {es : List Event} {e : Event}
    (h : History.Gapless (es ++ [e])) :
    ofHistory id (es ++ [e]) = ofHistory id es >>= fun u => u.applyEvent e := by
  rw [ofHistory_of_gapless id h, ofHistory_of_gapless id h.of_append]
  exact result_applyInOrder_append _ _ _

theorem ofHistory_append_of_ok {id : String} {es : List Event} {e : Event} {u : User}
    (h : History.Gapless (es ++ [e])) (hu : ofHistory id es = .ok u) :
    ofHistory id (es ++ [e]) = u.applyEvent e := by
  rw [ofHistory_append h, hu]
  rfl

theorem ofHistory_nil (id : String) : ofHistory id [] = .ok (new id) := by
  rw [ofHistory_of_gapless id History.gapless_nil]
  rfl

/-! ## What can be seen in a user -/

/-- What of a history can be seen in a user. -/
structure Reflects (u : User) (id : String) (es : List Event) : Prop where
  /-- whose history it is -/
  id_eq : u.id = id
  /-- how many events there are -/
  version_eq : u.version = es.length
  /-- whether there is a deletion -/
  isDeleted_iff : u.isDeleted = true ↔ ∃ e ∈ es, e.type = .userDeleted
  /-- the events that created referrals -/
  referrals : ∀ r ∈ u.referrals, ∃ e ∈ es, ∃ i, e.decode = .ok (.referralCreated i) ∧
    i.referralId = r.id
  /-- how many points were given -/
  points_eq : u.points.toNat = History.points es

theorem reflects_new (id : String) : (new id).Reflects id [] where
  id_eq := rfl
  version_eq := rfl
  isDeleted_iff := by simp [isDeleted, new]
  referrals := by simp [new]
  points_eq := rfl

/-- What a change does to the parts of a user that tell of the history. -/
structure Effect (u : User) (c : Change) (w : User) : Prop where
  /-- the user stays the same -/
  id_eq : w.id = u.id
  /-- a deletion makes the user one that has left, and nothing undoes that -/
  isDeleted_iff : w.isDeleted = true ↔ u.isDeleted = true ∨ c.type = .userDeleted
  /-- a referral was there before, or is the one that the change creates -/
  referrals : ∀ r ∈ w.referrals, (∃ r' ∈ u.referrals, r'.id = r.id) ∨
    ∃ i, c = .referralCreated i ∧ i.referralId = r.id
  /-- points are added -/
  points_eq : w.points.toNat = u.points.toNat + c.points

theorem effect_change {u w : User} {t : Time.Timestamp} {c : Change} (h : u.change t c = .ok w) :
    u.Effect c w := by
  cases c with
  | created s =>
    cases h
    exact ⟨rfl, by simp [isDeleted, Change.type], fun r hr => .inl ⟨r, hr, rfl⟩, rfl⟩
  | deleted deletedAt =>
    cases h
    exact ⟨rfl, by simp [isDeleted, Change.type], fun r hr => .inl ⟨r, hr, rfl⟩, rfl⟩
  | referralCreated i =>
    cases h
    refine ⟨rfl, by simp [isDeleted, Change.type], fun r hr => ?_, rfl⟩
    rcases List.mem_append.1 hr with hr | hr
    · exact .inl ⟨r, hr, rfl⟩
    · obtain rfl := List.mem_singleton.1 hr
      exact .inr ⟨i, rfl, rfl⟩
  | referralCompleted id =>
    rw [change] at h
    split at h
    · cases h
    · cases h
      refine ⟨rfl, by simp [isDeleted, Change.type], fun r hr => ?_, rfl⟩
      obtain ⟨i, hi⟩ := List.mem_iff_getElem?.1 hr
      rw [List.getElem?_modify] at hi
      obtain ⟨r', hr', rfl⟩ := Option.map_eq_some_iff.1 hi
      refine .inl ⟨r', List.mem_of_getElem? hr', ?_⟩
      split <;> rfl
  | pointsEarned n =>
    rw [change] at h
    split at h
    · cases h
    · next total htotal =>
      cases h
      refine ⟨rfl, by simp [isDeleted, Change.type], fun r hr => .inl ⟨r, hr, rfl⟩, ?_⟩
      exact (Points.add?_eq_some_iff.1 htotal).symm

/-- What is reflected stays so when one more event is applied. -/
theorem Reflects.applyEvent {u v : User} {id : String} {es : List Event} {e : Event}
    (hu : u.Reflects id es) (hversion : e.version = es.length + 1)
    (h : u.applyEvent e = .ok v) : v.Reflects id (es ++ [e]) := by
  obtain ⟨c, w, hc, hw, rfl⟩ := applyEvent_eq_ok_iff.1 h
  have heffect : u.Effect c w := effect_change hw
  refine ⟨heffect.id_eq.trans hu.id_eq, ?_, ?_, fun r hr => ?_, ?_⟩
  · simpa using hversion
  · refine heffect.isDeleted_iff.trans ?_
    rw [hu.isDeleted_iff, Event.type_of_decode hc]
    constructor
    · rintro (⟨e', he', htype⟩ | htype)
      · exact ⟨e', List.mem_append_left _ he', htype⟩
      · exact ⟨e, List.mem_append_right _ (List.mem_singleton_self e), htype⟩
    · rintro ⟨e', he', htype⟩
      rcases List.mem_append.1 he' with he' | he'
      · exact .inl ⟨e', he', htype⟩
      · obtain rfl := List.mem_singleton.1 he'
        exact .inr htype
  · rcases heffect.referrals r hr with ⟨r', hr', hid⟩ | ⟨i, rfl, hid⟩
    · obtain ⟨e', he', i, hi, hid'⟩ := hu.referrals r' hr'
      exact ⟨e', List.mem_append_left _ he', i, hi, hid'.trans hid⟩
    · exact ⟨e, List.mem_append_right _ (List.mem_singleton_self e), i, hc, hid⟩
  · rw [History.points_append, Event.points_eq hc, ← hu.points_eq]
    exact heffect.points_eq

/-- What a gapless history replays to reflects it. -/
theorem reflects_of_ofHistory {id : String} {es : List Event} (hes : History.Gapless es) {u : User}
    (h : ofHistory id es = .ok u) : u.Reflects id es := by
  -- The induction is from the end of the history: the last event is applied to what the others
  -- replay to.
  induction es using List.reverseRecOn generalizing u with
  | nil =>
    rw [ofHistory_nil] at h
    cases h
    exact reflects_new id
  | append_singleton es e ih =>
    rw [ofHistory_append hes] at h
    obtain ⟨v, hbefore, hv⟩ := eq_ok_of_bind h
    have hlast : (es ++ [e])[es.length]? = some e := List.getElem?_concat_length
    exact (ih hes.of_append hbefore).applyEvent (hes.version_eq hlast) hv

end User

end Loyalty
