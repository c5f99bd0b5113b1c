import Loyalty.Command
import Loyalty.Delivery.Policy
import Loyalty.Event.Stored
import Loyalty.Proofs.Json.Record
import Loyalty.ReadModel

/-!
# What is written is read back

Events, records, referrals, users, profiles, commands and retry policies all have a form in JSON.
`Json.RoundTrips` says what that form is good for: what is written of a value is read as that
value, so nothing is lost in a text, and a text that could be read may be replaced by what is
written of its value.

There is one thing that a text cannot show. The full second that the nanoseconds of a timestamp may
hold is written as a second number 60 after the 59th second of a minute, and it is lost in the count
of the seconds after any other. So each form has a list of the `times` that stand in a value, and
values are read as they are `carried`. A value all of whose times are regular is its own carried
value. No text is read as any other.

Versions and numbers of retries are natural numbers here, and only those of 64 bits are read. So a
round trip is promised to the values whose numbers fit in such words, and what was read is always
one of them.

Main statement: all seven forms are read as they are written where the times are regular, and only
there.
-/

namespace Loyalty

open Text Time

namespace Json

/-- Reading is the inverse of writing, for values that fit and up to seconds among the
nanoseconds. -/
structure RoundTrips {α : Type} (write : α → Json) (read : Json → Option α) (fits : α → Prop)
    (times : α → List Timestamp) (carried : α → α) : Prop where
  /-- what is written of a value is read as the value that it shows -/
  read_write : ∀ a, fits a → (parse? (write a).toText).bind read = some (carried a)
  /-- which is that value itself when its times are regular, and only then -/
  exact_iff : ∀ a, fits a →
    ((parse? (write a).toText).bind read = some a ↔ ∀ t ∈ times a, t.Regular)
  /-- what was read from any text is read again from the text that is written of it -/
  read_again : ∀ text a, (parse? text).bind read = some a →
    (parse? (write a).toText).bind read = some a

/-- A form is read as it is written when its JSON values are, and only values that fit and whose
times are regular are read. -/
theorem roundTrips {α : Type} {write : α → Json} {read : Json → Option α} {fits : α → Prop}
    {times : α → List Timestamp} {carried : α → α}
    (hwrite : ∀ a, fits a → read (write a) = some (carried a))
    (hcarried : ∀ a, carried a = a ↔ ∀ t ∈ times a, t.Regular)
    (hread : ∀ j a, read j = some a → fits a ∧ ∀ t ∈ times a, t.Regular) :
    RoundTrips write read fits times carried := by
  have hback : ∀ a, fits a → (parse? (write a).toText).bind read = some (carried a) :=
    fun a ha => by rw [parse?_toText, Option.bind_some, hwrite a ha]
  have hexact : ∀ a, fits a →
      ((parse? (write a).toText).bind read = some a ↔ ∀ t ∈ times a, t.Regular) :=
    fun a ha => by rw [hback a ha, Option.some.injEq, hcarried a]
  refine ⟨hback, hexact, fun text a h => ?_⟩
  obtain ⟨j, -, hj⟩ := Option.bind_eq_some_iff.1 h
  obtain ⟨hfits, htimes⟩ := hread j a hj
  exact (hexact a hfits).2 htimes

/-- So are forms in which no times stand. -/
theorem roundTrips_of_timeless {α : Type} {write : α → Json} {read : Json → Option α}
    {fits : α → Prop} (hwrite : ∀ a, fits a → read (write a) = some a)
    (hread : ∀ j a, read j = some a → fits a) :
    RoundTrips write read fits (fun _ => []) id :=
  roundTrips hwrite (fun _ => ⟨fun _ => List.forall_mem_nil _, fun _ => rfl⟩)
    fun j a h => ⟨hread j a h, List.forall_mem_nil _⟩

end Json

/-- A time that may be missing is shown as it is when it is regular. -/
theorem Time.Timestamp.map_carried_eq_self_iff {t? : Option Timestamp} :
    t?.map carried = t? ↔ ∀ t ∈ t?, t.Regular := by
  cases t? with
  | none => simp
  | some t => simp [carried_eq_self_iff]

/-! ## Events and records -/

namespace Event

/-- The times that stand in an event. -/
def times (e : Event) : List Timestamp := [e.eventAt]

/-- The event that is shown. -/
def carried (e : Event) : Event := { e with eventAt := e.eventAt.carried }

/-- An event is shown as it is when its time is regular. -/
theorem carried_eq_self_iff {e : Event} : e.carried = e ↔ ∀ t ∈ e.times, t.Regular := by
  cases e
  simp [carried, times, Timestamp.carried_eq_self_iff]

/-- Each field of an event is read as it is shown, and only the time is shown as another. -/
theorem ofJson?_toJson {e : Event} (h : e.version < word64) :
    ofJson? e.toJson = some e.carried := by
  rw [ofJson?, toJson, Json.fields?_record fieldNames rfl (by decide) (by decide)]
  simp [Json.toNat?_nat h, carried]

/-- The number of an event that was read is a word of 64 bits, and its time is regular. -/
theorem of_ofJson? {j : Json} {e : Event} (h : ofJson? j = some e) :
    e.version < word64 ∧ ∀ t ∈ e.times, t.Regular := by
  simp only [ofJson?, Option.bind_eq_bind, Option.bind_eq_some_iff] at h
  obtain ⟨fs, -, _, -, _, -, version, hversion, eventAt, heventAt, _, -, hevent⟩ := h
  cases hevent
  exact ⟨Json.Fields.of_required Json.lt_of_toNat? hversion,
    List.forall_mem_singleton.2 (Json.Fields.of_required Rfc3339.regular_of_ofJson? heventAt)⟩

end Event

namespace EventRecord

/-- The times that stand in a record. -/
def times (r : EventRecord) : List Timestamp := [r.eventAt]

/-- The record that is shown. -/
def carried (r : EventRecord) : EventRecord := { r with eventAt := r.eventAt.carried }

/-- A record is shown as it is when its time is regular. -/
theorem carried_eq_self_iff {r : EventRecord} : r.carried = r ↔ ∀ t ∈ r.times, t.Regular := by
  cases r
  simp [carried, times, Timestamp.carried_eq_self_iff]

/-- So is each field of a record, the name of its kind whatever it is. -/
theorem ofJson?_toJson {r : EventRecord} (h : r.version < word64) :
    ofJson? r.toJson = some r.carried := by
  rw [ofJson?, toJson, Json.fields?_record Event.fieldNames rfl (by decide) (by decide)]
  simp [Json.toNat?_nat h, carried]

/-- So it is with a record. -/
theorem of_ofJson? {j : Json} {r : EventRecord} (h : ofJson? j = some r) :
    r.version < word64 ∧ ∀ t ∈ r.times, t.Regular := by
  simp only [ofJson?, Option.bind_eq_bind, Option.bind_eq_some_iff] at h
  obtain ⟨fs, -, _, -, _, -, version, hversion, eventAt, heventAt, _, -, hrecord⟩ := h
  cases hrecord
  exact ⟨Json.Fields.of_required Json.lt_of_toNat? hversion,
    List.forall_mem_singleton.2 (Json.Fields.of_required Rfc3339.regular_of_ofJson? heventAt)⟩

end EventRecord

/-! ## Users and profiles -/

namespace Referral

/-- The times that stand in a referral. -/
def times (r : Referral) : List Timestamp := [r.createdAt, r.updatedAt]

/-- The referral that is shown. -/
def carried (r : Referral) : Referral :=
  { r with createdAt := r.createdAt.carried, updatedAt := r.updatedAt.carried }

/-- A referral is shown as it is when both its times are regular. -/
theorem carried_eq_self_iff {r : Referral} : r.carried = r ↔ ∀ t ∈ r.times, t.Regular := by
  cases r
  simp [carried, times, Timestamp.carried_eq_self_iff]

/-- A list of referrals is shown as it is when each of them is. -/
theorem map_carried_eq_self_iff {rs : List Referral} :
    rs.map carried = rs ↔ ∀ t ∈ rs.flatMap times, t.Regular := by
  simp only [List.forall_mem_flatMap, ← carried_eq_self_iff]
  exact (Eq.congr_right (List.map_id rs).symm).trans List.map_inj_left

/-- A referral has no number that would have to fit. -/
@[simp] theorem ofJson?_toJson (r : Referral) : ofJson? r.toJson = some r.carried := by
  rw [ofJson?, toJson, Json.fields?_record fieldNames rfl (by decide) (by decide)]
  simp [carried]

/-- A list of referrals is read one by one. -/
@[simp] theorem toList?_toJson (rs : List Referral) :
    Json.toList? ofJson? (.array (rs.map toJson)) = some (rs.map carried) :=
  Json.toList?_array ofJson?_toJson rs

/-- Both times of a referral that was read are regular. -/
theorem times_of_ofJson? (j : Json) (r : Referral) (h : ofJson? j = some r) :
    ∀ t ∈ r.times, t.Regular := by
  simp only [ofJson?, Option.bind_eq_bind, Option.bind_eq_some_iff] at h
  obtain ⟨fs, -, _, -, _, -, _, -, _, -, createdAt, hcreatedAt, updatedAt, hupdatedAt,
    hreferral⟩ := h
  cases hreferral
  exact List.forall_mem_cons.2 ⟨Json.Fields.of_required Rfc3339.regular_of_ofJson? hcreatedAt,
    List.forall_mem_singleton.2 (Json.Fields.of_required Rfc3339.regular_of_ofJson? hupdatedAt)⟩

/-- The times of all referrals that were read are regular. -/
theorem times_of_toList? (j : Json) (rs : List Referral) (h : Json.toList? ofJson? j = some rs) :
    ∀ t ∈ rs.flatMap times, t.Regular :=
  List.forall_mem_flatMap.2 (Json.of_toList? times_of_ofJson? h)

end Referral

namespace User

/-- The times that stand in a user. -/
def times (u : User) : List Timestamp :=
  u.referrals.flatMap Referral.times ++ u.createdAt.toList ++ u.updatedAt.toList ++
    u.deletedAt.toList

/-- The user that is shown. -/
def carried (u : User) : User :=
  { u with
    referrals := u.referrals.map Referral.carried
    createdAt := u.createdAt.map Timestamp.carried
    updatedAt := u.updatedAt.map Timestamp.carried
    deletedAt := u.deletedAt.map Timestamp.carried }

/-- The times of a user are those of the referrals, and three more that may be missing. -/
theorem forall_mem_times_iff {u : User} {P : Timestamp → Prop} :
    (∀ t ∈ u.times, P t) ↔ (∀ t ∈ u.referrals.flatMap Referral.times, P t) ∧
      (∀ t ∈ u.createdAt, P t) ∧ (∀ t ∈ u.updatedAt, P t) ∧ ∀ t ∈ u.deletedAt, P t := by
  simp only [times, List.forall_mem_append, Option.mem_toList, Option.mem_def, and_assoc]

/-- A user is shown as he is when his own times and those of his referrals are regular. -/
theorem carried_eq_self_iff {u : User} : u.carried = u ↔ ∀ t ∈ u.times, t.Regular := by
  rw [forall_mem_times_iff, ← Referral.map_carried_eq_self_iff,
    ← Timestamp.map_carried_eq_self_iff, ← Timestamp.map_carried_eq_self_iff,
    ← Timestamp.map_carried_eq_self_iff]
  cases u
  simp only [carried, mk.injEq, true_and]

/-- The referrals stand in a user as a list of records, and are read as such. -/
theorem ofJson?_toJson {u : User} (h : u.version < word64) : ofJson? u.toJson = some u.carried := by
  rw [ofJson?, toJson, Json.fields?_record fieldNames rfl (by decide) (by decide)]
  simp [Json.toNat?_nat h, carried]

/-- The version of a user who was read fits, and all times are regular. -/
theorem of_ofJson? {j : Json} {u : User} (h : ofJson? j = some u) :
    u.version < word64 ∧ ∀ t ∈ u.times, t.Regular := by
  simp only [ofJson?, Option.bind_eq_bind, Option.bind_eq_some_iff] at h
  obtain ⟨fs, -, _, -, version, hversion, _, -, _, -, _, -, _, -, _, -, referrals, hreferrals,
    createdAt, hcreatedAt, updatedAt, hupdatedAt, deletedAt, hdeletedAt, huser⟩ := h
  cases huser
  have hfits : version < word64 := Json.Fields.of_required Json.lt_of_toNat? hversion
  refine ⟨hfits, forall_mem_times_iff.2 ⟨?_, ?_, ?_, ?_⟩⟩
  · exact Json.Fields.of_required Referral.times_of_toList? hreferrals
  · exact Json.Fields.of_optional Rfc3339.regular_of_ofJson? hcreatedAt
  · exact Json.Fields.of_optional Rfc3339.regular_of_ofJson? hupdatedAt
  · exact Json.Fields.of_optional Rfc3339.regular_of_ofJson? hdeletedAt

end User

namespace Profile

/-- The times that stand in a profile. -/
def times (p : Profile) : List Timestamp :=
  p.referrals.flatMap Referral.times ++ p.createdAt :: p.updatedAt :: p.deletedAt.toList

/-- The profile that is shown. -/
def carried (p : Profile) : Profile :=
  { p with
    referrals := p.referrals.map Referral.carried
    createdAt := p.createdAt.carried
    updatedAt := p.updatedAt.carried
    deletedAt := p.deletedAt.map Timestamp.carried }

/-- Of the three only that of leaving may be missing from a profile. -/
theorem forall_mem_times_iff {p : Profile} {P : Timestamp → Prop} :
    (∀ t ∈ p.times, P t) ↔ (∀ t ∈ p.referrals.flatMap Referral.times, P t) ∧
      P p.createdAt ∧ P p.updatedAt ∧ ∀ t ∈ p.deletedAt, P t := by
  simp only [times, List.forall_mem_append, List.forall_mem_cons, Option.mem_toList, Option.mem_def]

/-- A profile is shown as it is when its own times and those of the referrals are regular. -/
theorem carried_eq_self_iff {p : Profile} : p.carried = p ↔ ∀ t ∈ p.times, t.Regular := by
  rw [forall_mem_times_iff, ← Referral.map_carried_eq_self_iff,
    ← Timestamp.map_carried_eq_self_iff, ← Timestamp.carried_eq_self_iff,
    ← Timestamp.carried_eq_self_iff]
  cases p
  simp only [carried, mk.injEq, true_and]

theorem ofJson?_toJson {p : Profile} (h : p.version < word64) :
    ofJson? p.toJson = some p.carried := by
  rw [ofJson?, toJson, Json.fields?_record fieldNames rfl (by decide) (by decide)]
  simp [Json.toNat?_nat h, carried]

/-- The version of a profile that was read fits, and all times are regular. -/
theorem of_ofJson? {j : Json} {p : Profile} (h : ofJson? j = some p) :
    p.version < word64 ∧ ∀ t ∈ p.times, t.Regular := by
  simp only [ofJson?, Option.bind_eq_bind, Option.bind_eq_some_iff] at h
  obtain ⟨fs, -, _, -, _, -, _, -, _, -, _, -, _, -, referrals, hreferrals, version, hversion,
    createdAt, hcreatedAt, updatedAt, hupdatedAt, deletedAt, hdeletedAt, hprofile⟩ := h
  cases hprofile
  have hfits : version < word64 := Json.Fields.of_required Json.lt_of_toNat? hversion
  refine ⟨hfits, forall_mem_times_iff.2 ⟨?_, ?_, ?_, ?_⟩⟩
  · exact Json.Fields.of_required Referral.times_of_toList? hreferrals
  · exact Json.Fields.of_required Rfc3339.regular_of_ofJson? hcreatedAt
  · exact Json.Fields.of_required Rfc3339.regular_of_ofJson? hupdatedAt
  · exact Json.Fields.of_optional Rfc3339.regular_of_ofJson? hdeletedAt

end Profile

/-! ## Commands -/

namespace Command

/-- The kind of a command is told apart from its fields. -/
theorem split?_toJson (c : Command) : split? c.toJson = some (c.kind, .record c.toFields) := by
  cases c <;> rfl

/-- The fields of a command are read by the reader of its kind. -/
theorem ofFields?_toFields (c : Command) : ofFields? c.kind (.record c.toFields) = some c := by
  cases c with
  | createUser c =>
    rw [kind, toFields, ofFields?,
      Json.fields?_record ["userId", "username", "email", "referredByCode"] rfl (by decide)
        (by decide)]
    simp
  | deleteUser c =>
    rw [kind, toFields, ofFields?, Json.fields?_record ["userId"] rfl (by decide) (by decide)]
    simp
  | createReferral c =>
    rw [kind, toFields, ofFields?,
      Json.fields?_record ["userId", "referredUserEmail"] rfl (by decide) (by decide)]
    simp
  | completeReferral c =>
    rw [kind, toFields, ofFields?,
      Json.fields?_record ["userId", "referredUserId", "referredUserEmail", "referredByCode"] rfl
        (by decide) (by decide)]
    simp
  | earnPoints c =>
    rw [kind, toFields, ofFields?,
      Json.fields?_record ["userId", "points"] rfl (by decide) (by decide)]
    simp

/-- The record of a command can be kept until its kind is known: the only number in it is one of
32 bits. -/
theorem keepable_toJson (c : Command) : c.toJson.keepable = true := by
  cases c with
  | earnPoints c =>
    have hlt : c.points.toNat < word64 := Nat.lt_trans (UInt32.toNat_lt c.points) (by decide)
    simp [toJson, toFields, Json.record, Json.text, Json.nat, Points.toJson, Json.keepable,
      Json.keepableMembers, Json.Number.isFinite_natural hlt]
  | createUser c =>
    cases h : c.referredByCode <;>
      simp [toJson, toFields, h, Json.record, Json.text, Json.option, Json.keepable,
        Json.keepableMembers]
  | deleteUser | createReferral | completeReferral =>
    simp [toJson, toFields, Json.record, Json.text, Json.keepable, Json.keepableMembers]

/-- Nor is it nested too deeply for that. -/
theorem depth_toJson (c : Command) : c.toJson.depth = 1 := by
  cases c with
  | createUser c => cases h : c.referredByCode <;>
      simp [toJson, toFields, h, Json.record, Json.text, Json.option, Json.depth,
        Json.depthMembers]
  | deleteUser | createReferral | completeReferral | earnPoints =>
    simp [toJson, toFields, Json.record, Json.text, Json.nat, Points.toJson, Json.depth,
      Json.depthMembers]

/-- A command is first kept, then split, then read by its kind. -/
theorem ofJson?_toJson (c : Command) : ofJson? c.toJson = some c := by
  have hkept : c.toJson.keepable ∧ c.toJson.depth ≤ depthLimit := by
    rw [depth_toJson]
    exact ⟨c.keepable_toJson, by decide⟩
  rw [ofJson?, if_pos hkept, split?_toJson, Option.bind_eq_bind, Option.bind_some]
  exact c.ofFields?_toFields

end Command

/-! ## Retry policies -/

namespace RetryPolicy

/-- The two durations of a policy always fit. -/
theorem ofJson?_toJson {p : RetryPolicy} (h : p.maxRetry < word64) :
    ofJson? p.toJson = some p := by
  rw [ofJson?, toJson, Json.fields?_record fieldNames rfl (by decide) (by decide)]
  simp [Json.toNat?_nat h]

/-- The number of retries is a word of 64 bits, like the versions. -/
theorem maxRetry_lt_of_ofJson? {j : Json} {p : RetryPolicy} (h : ofJson? j = some p) :
    p.maxRetry < word64 := by
  simp only [ofJson?, Option.bind_eq_bind, Option.bind_eq_some_iff] at h
  obtain ⟨fs, -, _, -, _, -, maxRetry, hmaxRetry, hpolicy⟩ := h
  cases hpolicy
  exact Json.Fields.of_required Json.lt_of_toNat? hmaxRetry

end RetryPolicy

/-- **What is written is read.** Of all seven forms: a value whose version or number of retries is
a word of 64 bits is read from its text as the value that the text shows, which is the value itself
when its times are regular and only then; and any text that can be read may be written anew. -/
theorem forms_roundTrip :
    Json.RoundTrips Event.toJson Event.ofJson? (fun e => e.version < word64) Event.times
      Event.carried ∧
    Json.RoundTrips EventRecord.toJson EventRecord.ofJson? (fun r => r.version < word64)
      EventRecord.times EventRecord.carried ∧
    Json.RoundTrips Referral.toJson Referral.ofJson? (fun _ => True) Referral.times
      Referral.carried ∧
    Json.RoundTrips User.toJson User.ofJson? (fun u => u.version < word64) User.times
      User.carried ∧
    Json.RoundTrips Profile.toJson Profile.ofJson? (fun p => p.version < word64) Profile.times
      Profile.carried ∧
    Json.RoundTrips Command.toJson Command.ofJson? (fun _ => True) (fun _ => []) id ∧
    Json.RoundTrips RetryPolicy.toJson RetryPolicy.ofJson? (fun p => p.maxRetry < word64)
      (fun _ => []) id :=
  ⟨Json.roundTrips (fun _ => Event.ofJson?_toJson) (fun _ => Event.carried_eq_self_iff)
      fun _ _ => Event.of_ofJson?,
    Json.roundTrips (fun _ => EventRecord.ofJson?_toJson) (fun _ => EventRecord.carried_eq_self_iff)
      fun _ _ => EventRecord.of_ofJson?,
    Json.roundTrips (fun r _ => r.ofJson?_toJson) (fun _ => Referral.carried_eq_self_iff)
      fun j r h => ⟨trivial, Referral.times_of_ofJson? j r h⟩,
    Json.roundTrips (fun _ => User.ofJson?_toJson) (fun _ => User.carried_eq_self_iff)
      fun _ _ => User.of_ofJson?,
    Json.roundTrips (fun _ => Profile.ofJson?_toJson) (fun _ => Profile.carried_eq_self_iff)
      fun _ _ => Profile.of_ofJson?,
    Json.roundTrips_of_timeless (fun c _ => c.ofJson?_toJson) fun _ _ _ => trivial,
    Json.roundTrips_of_timeless (fun _ => RetryPolicy.ofJson?_toJson) fun _ _ =>
      RetryPolicy.maxRetry_lt_of_ofJson?⟩

/-- Half way through a leap second of the year before the year 0. -/
def Time.leapSecond : Timestamp :=
  (Rfc3339.read? "-0001-12-31T23:59:60.500Z").get (by decide +kernel)

/-- An event of the last version that there is, whose texts hold what must be escaped. -/
def Event.unwieldy : Event where
  aggregateId := "u\"1\\\n"
  type := .pointsEarned
  version := 18446744073709551615
  eventAt := leapSecond
  payload := some "\u0001\u2028😀"

theorem unwieldy_roundTrip :
    Event.unwieldy.version < word64 ∧ (∀ t ∈ Event.unwieldy.times, t.Regular) ∧
      (Json.parse? Event.unwieldy.toJson.toText).bind Event.ofJson? = some Event.unwieldy := by
  have hregular : ∀ t ∈ Event.unwieldy.times, t.Regular :=
    List.forall_mem_singleton.2 fun _ => by decide +kernel
  exact ⟨by decide, hregular, (forms_roundTrip.1.exact_iff Event.unwieldy (by decide)).2 hregular⟩

example : leapSecond.second = 59 ∧ leapSecond.nano = 1500000000 := by decide +kernel

/-- The leap second again, moved to the 30th second of its minute. -/
def Time.overlongSecond : Timestamp :=
  { leapSecond with second := 30, second_lt := by decide }

/-- An event of that time. -/
def Event.overlong : Event := { Event.unwieldy with eventAt := overlongSecond }

/-- It is not read back: what is written is the 31st second, half way through. -/
theorem overlong_not_roundTrip :
    Event.overlong.version < word64 ∧
      (Json.parse? Event.overlong.toJson.toText).bind Event.ofJson? ≠ some Event.overlong ∧
      ((Json.parse? Event.overlong.toJson.toText).bind Event.ofJson?).map
        (fun e => (e.eventAt.second, e.eventAt.nano)) = some (31, 500000000) := by
  have hread : (Json.parse? Event.overlong.toJson.toText).bind Event.ofJson? =
      some Event.overlong.carried := by
    rw [Json.parse?_toText, Option.bind_some, Event.ofJson?_toJson (by decide)]
  -- The seconds tell the two apart.
  rw [hread]
  refine ⟨by decide, fun h => ?_, by decide +kernel⟩
  have hsecond : Event.overlong.carried.eventAt.second = 30 :=
    congrArg (fun e => e.eventAt.second) (Option.some.inj h)
  exact absurd hsecond (by decide +kernel)

end Loyalty
