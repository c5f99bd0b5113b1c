import Loyalty.Event.Stored
import Loyalty.Proofs.Json.Record

/-!
# Reading back a payload

What a rule decides is kept as text and read again whenever the history is replayed. What is read is
the change that the text shows, and the gate is asked about that change once more. A change that has
passed the gate is shown as one that passes it, so its event never becomes unreadable.

Only a time can be shown as another, and the time of a deletion is the only one that stands in a
payload. So all other changes are what their events say, for ever.
-/

namespace Loyalty

theorem SignUp.ofJson?_toJson (s : SignUp) : SignUp.ofJson? s.toJson = some s := by
  obtain ⟨username, email, code, referredBy⟩ := s
  cases referredBy with
  | none =>
    rw [SignUp.ofJson?, SignUp.toJson, Json.fields?_record ["username", "email", "referralCode"]
      rfl (by decide) (by decide)]
    simp
  | some referredByCode =>
    rw [SignUp.ofJson?, SignUp.toJson, Json.fields?_record SignUp.fieldNames rfl (by decide)
      (by decide)]
    rfl

theorem Invitation.ofJson?_toJson (i : Invitation) : Invitation.ofJson? i.toJson = some i := by
  rw [Invitation.ofJson?, Invitation.toJson, Json.fields?_record Invitation.fieldNames rfl
    (by decide) (by decide)]
  simp

namespace Change

/-! ## The change that is shown -/

/-- The times that stand in a change. -/
def times : Change → List Time.Timestamp
  | deleted t => [t]
  | created _ | referralCreated _ | referralCompleted _ | pointsEarned _ => []

/-- The change that is shown. -/
def carried : Change → Change
  | deleted t => .deleted t.carried
  | created s => .created s
  | referralCreated i => .referralCreated i
  | referralCompleted id => .referralCompleted id
  | pointsEarned n => .pointsEarned n

theorem carried_eq_self_iff {c : Change} : c.carried = c ↔ ∀ t ∈ c.times, t.Regular := by
  cases c <;> simp [carried, times, Time.Timestamp.carried_eq_self_iff]

@[simp] theorem type_carried (c : Change) : c.carried.type = c.type := by
  cases c <;> rfl

/-- What the gate lets pass is shown as what it lets pass. -/
theorem checked_carried {c : Change} (hc : c.checked = .ok c) :
    c.carried.checked = .ok c.carried := by
  cases c with
  | deleted t =>
    cases ht : t.isAfterEpoch with
    | true => simp [carried, checked, fault?, Time.Timestamp.isAfterEpoch_carried ht]
    | false => simp [checked, fault?, ht] at hc
  | created | referralCreated | referralCompleted | pointsEarned => exact hc

/-! ## Reading what was written -/

/-- The value of a change is read as the change that is shown. -/
theorem ofJson?_toJson (c : Change) : ofJson? c.type c.toJson = some c.carried := by
  cases c with
  | created s => rw [type, toJson, ofJson?, SignUp.ofJson?_toJson, Option.map_some, carried]
  | deleted t =>
    rw [type, toJson, ofJson?, Json.fields?_record ["deletedAt"] rfl (by decide) (by decide)]
    simp [carried]
  | referralCreated i =>
    rw [type, toJson, ofJson?, Invitation.ofJson?_toJson, Option.map_some, carried]
  | referralCompleted id =>
    rw [type, toJson, ofJson?, Json.fields?_record ["referralId"] rfl (by decide) (by decide)]
    simp [carried]
  | pointsEarned p =>
    rw [type, toJson, ofJson?, Json.fields?_record ["pointsEarned"] rfl (by decide) (by decide)]
    simp [carried]

/-- The payload of a change is read as the change that is shown, if that passes the gate. -/
theorem decode_encode (c : Change) : decode c.type (some c.encode) = c.carried.checked := by
  rw [decode, encode, Json.parse?_toText, Option.bind_some, ofJson?_toJson]

/-- The value of a change in which a time stands is read as one with a regular time. -/
theorem times_of_ofJson? {t : EventType} {j : Json} {c : Change} (h : ofJson? t j = some c) :
    ∀ t ∈ c.times, t.Regular := by
  cases t with
  | userDeleted =>
    simp only [ofJson?, Option.bind_eq_bind, Option.bind_eq_some_iff, Option.map_eq_some_iff] at h
    obtain ⟨fs, -, deletedAt, hdeletedAt, rfl⟩ := h
    exact List.forall_mem_singleton.2
      (Json.Fields.of_required Time.Rfc3339.regular_of_ofJson? hdeletedAt)
  | userCreated | userReferralCreated =>
    obtain ⟨_, -, rfl⟩ := Option.map_eq_some_iff.1 h
    exact List.forall_mem_nil _
  | userReferralCompleted | pointsEarned =>
    simp only [ofJson?, Option.bind_eq_bind, Option.bind_eq_some_iff, Option.map_eq_some_iff] at h
    obtain ⟨fs, -, _, -, rfl⟩ := h
    exact List.forall_mem_nil _

/-- So is a payload. -/
theorem carried_of_decode {t : EventType} {payload : Option String} {c : Change}
    (h : decode t payload = .ok c) : c.carried = c := by
  cases payload with
  | none => cases h
  | some text =>
    rw [decode] at h
    split at h
    · cases h
    · next shown hshown =>
      obtain ⟨j, -, hj⟩ := Option.bind_eq_some_iff.1 hshown
      rw [checked] at h
      split at h
      · cases h
        exact carried_eq_self_iff.2 (times_of_ofJson? hj)
      · cases h

end Change

/-- An event says the change that is shown of what it was made to say, if that passes the gate. -/
theorem Event.decode_ofChange {c : Change} (hc : c.checked = .ok c) (id : String) (version : Nat)
    (eventAt : Time.Timestamp) : (Event.ofChange id version c eventAt).decode = .ok c.carried := by
  simp only [Event.decode, Event.ofChange, Change.decode_encode, Change.checked_carried hc]

end Loyalty
