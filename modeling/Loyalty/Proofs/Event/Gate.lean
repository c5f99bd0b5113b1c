import Loyalty.Proofs.User.Replay

/-!
# The gate, from both sides

A change is looked at when it is built and looked at again whenever its payload is read. If the
second look could be harsher than the first, a change could be recorded that is refused on every
later reading, and the history it stands in could never be replayed.

It is milder in one case. A deletion may be refused for a time within the first second of 1970 whose
nanoseconds hold a full second more, and what is written of that time is the second after it.

What the gate refuses is said here without the gate: `Change.Refused` names the fields that are
required of each kind and takes the first of them that trimming leaves empty, and it has one case
each for points and for deletions.

Main statement: reading the payload of a change comes to building the change that is shown, and to
building the change itself, acceptance and fault alike, unless it shows another time that is
acceptable; and what is read has passed the gate and is read from its own payload once more.
-/

namespace Loyalty

open Time

namespace Change

/-- The fields of a change that must be filled in, in the order in which they are looked at. -/
def requiredFields : Change → List (String × String)
  | created s =>
    [("username", s.username), ("email", s.email), ("referralCode", s.referralCode)]
  | referralCreated i =>
    [("referralId", i.referralId), ("referralCode", i.referralCode),
      ("referredUserEmail", i.referredUserEmail)]
  | referralCompleted id => [("referralId", id)]
  | deleted _ | pointsEarned _ => []

/-- A change must be refused, with this fault. -/
inductive Refused : Change → PayloadFault → Prop
  /-- nothing is left of a required field, and something of each before it -/
  | blank {c : Change} {before after : List (String × String)} {name value : String}
      (hfields : c.requiredFields = before ++ (name, value) :: after)
      (hvalue : Text.trim value = "") (hbefore : ∀ f ∈ before, Text.trim f.2 ≠ "") :
      Refused c (.blankField name)
  /-- no points are given -/
  | zeroPoints : Refused (.pointsEarned 0) .zeroPoints
  /-- the deletion is not after the first second of 1970 -/
  | invalidDeletedAt {t : Timestamp} (ht : ¬ Timestamp.epoch < t.toSeconds) :
      Refused (.deleted t) .invalidDeletedAt

/-! ## The gate refuses what must be refused -/

theorem firstBlank_eq (fields : List (String × String)) :
    firstBlank fields = (fields.find? fun f => Text.isBlank f.2).map Prod.fst := by
  induction fields with
  | nil => rfl
  | cons f fields ih =>
    rw [firstBlank, List.find?_cons]
    cases Text.isBlank f.2 with
    | true => rfl
    | false => exact ih

/-- The field that is named is blank, and none before it is. -/
theorem requireFields_eq_some_iff {fields : List (String × String)} {fault : PayloadFault} :
    requireFields fields = some fault ↔
      ∃ before name value after, fields = before ++ (name, value) :: after ∧
        Text.trim value = "" ∧ (∀ f ∈ before, Text.trim f.2 ≠ "") ∧ fault = .blankField name := by
  simp only [requireFields, firstBlank_eq, Option.map_eq_some_iff,
    List.find?_eq_some_iff_append, ne_eq, ← Text.isBlank_iff_trim_eq_empty, Bool.not_eq_true',
    Bool.not_eq_true]
  constructor
  · rintro ⟨_, ⟨⟨name, value⟩, ⟨hvalue, before, after, hfields, hbefore⟩, rfl⟩, rfl⟩
    exact ⟨before, name, value, after, hfields, hvalue, hbefore, rfl⟩
  · rintro ⟨before, name, value, after, hfields, hvalue, hbefore, rfl⟩
    exact ⟨name, ⟨(name, value), ⟨hvalue, before, after, hfields, hbefore⟩, rfl⟩, rfl⟩

/-- A change with fields to be filled in is refused for one of these, if at all. -/
theorem requireFields_iff_refused {c : Change} {fault : PayloadFault}
    (h : c.requiredFields ≠ []) :
    requireFields c.requiredFields = some fault ↔ c.Refused fault := by
  rw [requireFields_eq_some_iff]
  constructor
  · rintro ⟨before, name, value, after, hfields, hvalue, hbefore, rfl⟩
    exact .blank hfields hvalue hbefore
  · intro hrefused
    cases hrefused with
    | blank hfields hvalue hbefore => exact ⟨_, _, _, _, hfields, hvalue, hbefore, rfl⟩
    | zeroPoints => exact absurd rfl h
    | invalidDeletedAt => exact absurd rfl h

theorem refused_deleted_iff {t : Timestamp} {fault : PayloadFault} :
    (deleted t).Refused fault ↔ ¬ Timestamp.epoch < t.toSeconds ∧ fault = .invalidDeletedAt := by
  constructor
  · intro h
    cases h with
    | blank hfields => simp [requiredFields] at hfields
    | invalidDeletedAt ht => exact ⟨ht, rfl⟩
  · rintro ⟨ht, rfl⟩
    exact .invalidDeletedAt ht

theorem refused_pointsEarned_iff {n : Points} {fault : PayloadFault} :
    (pointsEarned n).Refused fault ↔ n = 0 ∧ fault = .zeroPoints := by
  constructor
  · intro h
    cases h with
    | blank hfields => simp [requiredFields] at hfields
    | zeroPoints => exact ⟨rfl, rfl⟩
  · rintro ⟨rfl, rfl⟩
    exact .zeroPoints

/-- The gate finds the fault for which a change must be refused. -/
theorem fault?_eq_some_iff {c : Change} {fault : PayloadFault} :
    c.fault? = some fault ↔ c.Refused fault := by
  cases c with
  | created s => exact requireFields_iff_refused (c := .created s) (List.cons_ne_nil _ _)
  | referralCreated i =>
    exact requireFields_iff_refused (c := .referralCreated i) (List.cons_ne_nil _ _)
  | referralCompleted id =>
    exact requireFields_iff_refused (c := .referralCompleted id) (List.cons_ne_nil _ _)
  | deleted t =>
    rw [refused_deleted_iff, fault?, Timestamp.isAfterEpoch]
    by_cases ht : Timestamp.epoch < t.toSeconds
    · simp [ht]
    · simp [ht, eq_comm]
  | pointsEarned n =>
    rw [refused_pointsEarned_iff, fault?]
    by_cases hn : n = 0
    · simp [hn, eq_comm]
    · simp [hn]

theorem checked_eq_error_iff {c : Change} {fault : PayloadFault} :
    c.checked = .error fault ↔ c.Refused fault := by
  rw [checked, ← fault?_eq_some_iff]
  cases c.fault? <;> simp

theorem checked_eq_ok_iff_not_refused {c : Change} :
    c.checked = .ok c ↔ ∀ fault, ¬ c.Refused fault := by
  simp only [checked_eq_ok_iff, and_true, Option.eq_none_iff_forall_ne_some, ne_eq,
    fault?_eq_some_iff]

/-- What must be refused of the change that is shown must be refused of the change. -/
theorem refused_of_carried {c : Change} {fault : PayloadFault} (h : c.carried.Refused fault) :
    c.Refused fault := by
  cases c with
  | deleted t =>
    obtain ⟨ht, hfault⟩ := refused_deleted_iff.1 h
    refine refused_deleted_iff.2 ⟨fun hafter => ht ?_, hfault⟩
    have hshown : t.carried.isAfterEpoch = true :=
      Timestamp.isAfterEpoch_carried (decide_eq_true hafter)
    exact of_decide_eq_true hshown
  | created | referralCreated | referralCompleted | pointsEarned => exact h

/-- When the gate says the same of a change and of the one that is shown. -/
theorem checked_carried_eq_iff {c : Change} :
    c.carried.checked = c.checked ↔
      (∀ t ∈ c.times, t.Regular) ∨ ∃ fault, c.carried.Refused fault := by
  rw [← carried_eq_self_iff]
  constructor
  · intro h
    cases hshown : c.carried.checked with
    | error fault => exact .inr ⟨fault, checked_eq_error_iff.1 hshown⟩
    | ok shown =>
      obtain ⟨-, rfl⟩ := checked_eq_ok_iff.1 hshown
      exact .inl (checked_eq_ok_iff.1 (h.symm.trans hshown)).2.symm
  · rintro (h | ⟨fault, h⟩)
    · rw [h]
    · rw [checked_eq_error_iff.2 h, checked_eq_error_iff.2 (refused_of_carried h)]

end Change

/-! ## Building and reading come to the same -/

/-- **Payload and gate.** Reading the payload of any change says what the gate says of the change
that is shown. It is what the gate says of the change itself, that it is this change or the fault
for which it must be refused, exactly if the times in it are regular or what is shown must be
refused too. An event of a change that was accepted says the change that is shown, and one that
shows a change that must be refused never says anything else than why. Whatever was read from a
payload has passed the gate, and is read again from its own payload. -/
theorem payload_meets_gate :
    (∀ c : Change, Change.decode c.type (some c.encode) = c.carried.checked ∧
      (Change.decode c.type (some c.encode) = c.checked ↔
        (∀ t ∈ c.times, t.Regular) ∨ ∃ fault, c.carried.Refused fault) ∧
      (c.checked = .ok c ↔ ∀ fault, ¬ c.Refused fault) ∧
      ∀ fault, c.checked = .error fault ↔ c.Refused fault) ∧
    (∀ (c : Change) (id : String) (version : Nat) (eventAt : Timestamp),
      (c.checked = .ok c → (Event.ofChange id version c eventAt).decode = .ok c.carried ∧
        ((Event.ofChange id version c eventAt).decode = .ok c ↔ ∀ t ∈ c.times, t.Regular)) ∧
      ∀ fault, c.carried.Refused fault → (Event.ofChange id version c eventAt).decode =
        .error (.invalidPayload id c.type fault.message)) ∧
    ∀ (t : EventType) (payload : Option String) (c : Change), Change.decode t payload = .ok c →
      c.type = t ∧ c.checked = .ok c ∧ Change.decode t (some c.encode) = .ok c := by
  refine ⟨fun c => ⟨c.decode_encode, ?_, Change.checked_eq_ok_iff_not_refused,
    fun fault => Change.checked_eq_error_iff⟩, fun c id version eventAt => ⟨fun hc => ?_,
    fun fault hc => ?_⟩, fun t payload c h => ⟨Change.type_of_decode h,
    Change.checked_of_decode h, ?_⟩⟩
  · rw [c.decode_encode]
    exact Change.checked_carried_eq_iff
  · have hread := Event.decode_ofChange hc id version eventAt
    exact ⟨hread, by rw [hread, Except.ok.injEq, Change.carried_eq_self_iff]⟩
  · simp only [Event.decode, Event.ofChange, Change.decode_encode,
      Change.checked_eq_error_iff.2 hc]
  · rw [← Change.type_of_decode h, Change.decode_encode, Change.carried_of_decode h]
    exact Change.checked_of_decode h

/-- The last moment at which nobody can have left yet. -/
def Time.firstSecond : Timestamp :=
  (Rfc3339.read? "1970-01-01T00:00:00.999999999Z").get (by decide +kernel)

/-- A sign-up whose texts begin with white space or hold what must be escaped. -/
def Change.untidy : Change :=
  .created ⟨"Zoë \"Z\"\n", "\tz@x", "\u2003A", some ""⟩

/-- The same sign-up as another hand might write it. -/
def Change.untidyText : String :=
  " \x7b\"email\":\"\\tz@x\", \"username\":\"\\u005aoë \\\"Z\\\"\\n\", \"note\":[null]," ++
    "\"referredByCode\":\"\", \"referralCode\":\"\\u2003A\"\x7d "

theorem untidy_meets_gate :
    (Change.untidy.checked = .ok .untidy ∧
      (Event.ofChange "u" 1 .untidy firstSecond).decode = .ok .untidy) ∧
    ((Change.deleted firstSecond).carried.Refused .invalidDeletedAt ∧
      (Event.ofChange "u" 2 (.deleted firstSecond) firstSecond).decode =
        .error (.invalidPayload "u" .userDeleted "deletedAt must be after the Unix epoch")) ∧
    (Change.decode .userCreated (some Change.untidyText) = .ok .untidy ∧
      Change.decode .userCreated (some Change.untidy.encode) = .ok .untidy) := by
  have haccepted : Change.untidy.checked = .ok .untidy := by decide +kernel
  have hrefused : (Change.deleted firstSecond).carried.Refused .invalidDeletedAt :=
    .invalidDeletedAt (by decide +kernel)
  have hread : Change.decode .userCreated (some Change.untidyText) = .ok .untidy := by
    decide +kernel
  exact ⟨⟨haccepted, ((payload_meets_gate.2.1 .untidy "u" 1 firstSecond).1 haccepted).1⟩,
    ⟨hrefused, (payload_meets_gate.2.1 _ "u" 2 firstSecond).2 _ hrefused⟩,
    hread, (payload_meets_gate.2.2 _ _ _ hread).2.2⟩

/-- The first second of 1970, and half a second more than it has. -/
def Time.firstSecondAndMore : Timestamp :=
  { firstSecond with nano := 1500000000, nano_lt := by decide }

/-- A deletion at that time must be refused, and yet its payload is read, as one in the second
after. -/
theorem firstSecondAndMore_misses_gate :
    (Change.deleted firstSecondAndMore).checked = .error .invalidDeletedAt ∧
      Change.decode .userDeleted (some (Change.deleted firstSecondAndMore).encode) =
        .ok (.deleted firstSecondAndMore.carried) := by
  have hread : Change.decode .userDeleted (some (Change.deleted firstSecondAndMore).encode) =
      (Change.deleted firstSecondAndMore).carried.checked :=
    Change.decode_encode (.deleted firstSecondAndMore)
  rw [hread]
  decide +kernel

end Loyalty
