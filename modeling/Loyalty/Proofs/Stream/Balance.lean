import Loyalty.Proofs.Simulation.Passage
import Loyalty.Proofs.User.Acceptance

/-!
# Balances and codes in a store

Two things about a user can be read off the records of a store without carrying anything out: how many
points the events of the user give, and whether the user is there, has not left and hands out a given
code.

A store is *in bounds* when all its balances are amounts of points. As a store only ever grows, it was
in bounds at any time if it is in the end. In such a store every history can be replayed.

Main statements: a store that grows has no smaller balances; and of two users who hand out the same
code both signed up with it, so if all codes are different the two are the same user.
-/

namespace Loyalty

open History Simulation

/-! ## Balances -/

/-- How many points a record gives. -/
def EventRecord.points (r : EventRecord) : Nat :=
  match r.toEvent with
  | .ok e => e.points
  | .error _ => 0

@[simp] theorem EventRecord.points_toRecord (e : Event) : e.toRecord.points = e.points := by
  rw [points, Event.toEvent_toRecord]

namespace EventStore

/-- How many points the stream of a user gives. -/
def balance (s : EventStore) (id : String) : Nat :=
  ((s.stream id).map EventRecord.points).sum

/-- The balance of everybody who has a stream is an amount of points. -/
def InBounds (s : EventStore) : Prop :=
  ∀ r ∈ s.records, s.balance r.aggregateId < Text.word32

instance (s : EventStore) : Decidable s.InBounds :=
  inferInstanceAs (Decidable (∀ r ∈ s.records, s.balance r.aggregateId < Text.word32))

theorem balance_holding (es : List Event) (id : String) :
    (holding es).balance id = points (ofUser id es) := by
  rw [balance, stream_holding, List.map_map, History.points]
  exact congrArg List.sum (List.map_congr_left fun e _ => EventRecord.points_toRecord e)

/-- One event more. -/
theorem balance_concat (es : List Event) (e : Event) (id : String) :
    (holding (es ++ [e])).balance id =
      (holding es).balance id + if e.aggregateId = id then e.points else 0 := by
  rw [balance_holding, balance_holding, ofUser_append]
  split
  · next hid =>
    have hnew : ofUser id [e] = [e] := ofUser_of_forall (by simpa using hid)
    rw [hnew, points_append]
  · next hid =>
    have hnew : ofUser id [e] = [] := ofUser_of_ne hid (by simp)
    rw [hnew, List.append_nil, Nat.add_zero]

variable {s s' : EventStore}

theorem balance_le_of_isPrefix (h : s.records <+: s'.records) (id : String) :
    s.balance id ≤ s'.balance id := by
  obtain ⟨more, hmore⟩ := h
  rw [balance, balance, stream, stream, ← hmore, List.filter_append, List.map_append,
    List.sum_append]
  exact Nat.le_add_right _ _

/-- A store that is in bounds was so before. -/
theorem InBounds.of_isPrefix (h : s'.InBounds) (hs : s.records <+: s'.records) : s.InBounds :=
  fun r hr => Nat.lt_of_le_of_lt (balance_le_of_isPrefix hs _) (h r (hs.subset hr))

/-- Every history in a store that is in bounds can be replayed. -/
theorem InBounds.replays {es : List Event} (h : (holding es).InBounds) {id : String}
    (hes : Grown id (ofUser id es)) : ∃ u, User.ofHistory id (ofUser id es) = .ok u := by
  refine hes.replays_iff.2 ?_
  rw [← balance_holding]
  cases hstream : ofUser id es with
  | nil =>
    rw [balance_holding, hstream]
    exact (by decide : 0 < Text.word32)
  | cons e rest =>
    have he : e ∈ ofUser id es := hstream ▸ List.mem_cons_self
    obtain ⟨hmem, hid⟩ := List.mem_filter.1 he
    have hbalance := h _ (toRecord_mem_holding hmem)
    rw [Event.toRecord, of_decide_eq_true hid] at hbalance
    exact hbalance

/-! ## Codes -/

/-- The user is there, has not left, and hands out this code. -/
def holds (s : EventStore) (id code : String) : Bool :=
  match s.load id >>= User.ofHistory id with
  | .ok u => !u.isDeleted && u.referralCode == some code
  | .error _ => false

/-- Some user who has not left hands out this code. -/
def taken (s : EventStore) (code : String) : Bool :=
  s.records.any fun r => s.holds r.aggregateId code

theorem holds_holding_iff {es : List Event} {id code : String} (hes : Gapless (ofUser id es)) :
    (holding es).holds id code = true ↔
      ∃ u, User.ofHistory id (ofUser id es) = .ok u ∧ u.isDeleted = false ∧
        u.referralCode = some code := by
  have hload : ((holding es).load id >>= User.ofHistory id) = User.ofHistory id (ofUser id es) := by
    rw [load_holding hes]
    rfl
  rw [holds, hload]
  cases hu : User.ofHistory id (ofUser id es) with
  | error f => exact ⟨nofun, fun ⟨u, hu', _⟩ => nomatch hu'⟩
  | ok u => simp

/-- Who hands out a code has a history. -/
theorem ne_nil_of_holds {es : List Event} {id code : String} (hes : Gapless (ofUser id es))
    (h : (holding es).holds id code = true) : ofUser id es ≠ [] := by
  intro hnil
  obtain ⟨u, hu, -, hcode⟩ := (holds_holding_iff hes).1 h
  rw [hnil, User.ofHistory_nil] at hu
  cases hu
  cases hcode

theorem taken_holding_iff {es : List Event} {code : String}
    (hes : ∀ id, Gapless (ofUser id es)) :
    (holding es).taken code = true ↔ ∃ id, (holding es).holds id code = true := by
  constructor
  · intro h
    obtain ⟨r, -, hr⟩ := List.any_eq_true.1 h
    exact ⟨r.aggregateId, hr⟩
  · rintro ⟨id, h⟩
    obtain ⟨e, he⟩ := List.exists_mem_of_ne_nil _ (ne_nil_of_holds (hes id) h)
    obtain ⟨hmem, hid⟩ := List.mem_filter.1 he
    refine List.any_eq_true.2 ⟨e.toRecord, toRecord_mem_holding hmem, ?_⟩
    rw [Event.toRecord, of_decide_eq_true hid]
    exact h

theorem holds_eq_false {es : List Event} {code : String} (hes : ∀ id, Gapless (ofUser id es))
    (h : (holding es).taken code = false) (id : String) : (holding es).holds id code = false := by
  refine Bool.eq_false_iff.2 fun hid => ?_
  rw [(taken_holding_iff hes).2 ⟨id, hid⟩] at h
  cases h

end EventStore

/-- The code that the new user is to hand out, if the event is a sign-up. -/
def Event.code? (e : Event) : Option String :=
  match e.decode with
  | .ok (.created s) => some s.referralCode
  | _ => none

theorem Event.code?_eq_none {e : Event} (h : e.type ≠ .userCreated) : e.code? = none := by
  rw [code?]
  split
  · next s hs => exact absurd (type_of_decode hs).symm h
  · rfl

/-- The codes of all who signed up, in order. -/
def History.codes (es : List Event) : List String :=
  es.filterMap Event.code?

theorem History.codes_concat (es : List Event) (e : Event) :
    codes (es ++ [e]) = codes es ++ e.code?.toList := by
  rw [codes, codes, List.filterMap_append]
  cases h : e.code? <;> simp [h]

/-- If all codes are different, there is only one sign-up with a code. -/
theorem History.eq_of_code? {es : List Event} (h : (codes es).Nodup) {e e' : Event} (he : e ∈ es)
    (he' : e' ∈ es) {code : String} (hcode : e.code? = some code) (hcode' : e'.code? = some code) :
    e = e' := by
  induction es with
  | nil => cases he
  | cons x es ih =>
    have hother : ∀ {y}, y ∈ es → y.code? = some code → x.code? ≠ some code := by
      intro y hy hy' hx
      rw [codes, List.filterMap_cons_some hx, List.nodup_cons] at h
      exact h.1 (List.mem_filterMap.2 ⟨y, hy, hy'⟩)
    have hrest : (codes es).Nodup := h.sublist ((List.sublist_cons_self x es).filterMap _)
    rcases List.mem_cons.1 he with rfl | hmem
    · rcases List.mem_cons.1 he' with rfl | hmem'
      · rfl
      · exact absurd hcode (hother hmem' hcode')
    · rcases List.mem_cons.1 he' with rfl | hmem'
      · exact absurd hcode' (hother hmem hcode)
      · exact ih hrest hmem hmem'

/-- If all codes are different, a code is handed out by one user. -/
theorem EventStore.holds_unique {es : List Event} (hes : ∀ id, Grown id (ofUser id es))
    (hcodes : (codes es).Nodup) {id id' code : String} (h : (holding es).holds id code = true)
    (h' : (holding es).holds id' code = true) : id = id' := by
  have hsignUp : ∀ {id}, (holding es).holds id code = true →
      ∃ e ∈ es, e.aggregateId = id ∧ e.code? = some code := by
    intro id h
    obtain ⟨u, hu, -, hcode⟩ := (holds_holding_iff (hes id).gapless).1 h
    obtain ⟨e, he, s, hs, hcode'⟩ :=
      User.signedUp_of_ofHistory (hes id) (ne_nil_of_holds (hes id).gapless h) hu
    obtain ⟨hmem, hid⟩ := List.mem_filter.1 he
    refine ⟨e, hmem, of_decide_eq_true hid, ?_⟩
    rw [Event.code?, hs]
    exact hcode'.symm.trans hcode
  obtain ⟨e, he, rfl, hcode⟩ := hsignUp h
  obtain ⟨e', he', rfl, hcode'⟩ := hsignUp h'
  rw [eq_of_code? hcodes he he' hcode hcode']

namespace Simulation.World

/-! ## Growth -/

/-- Whatever happens, the store only grows. -/
theorem isPrefix_of_hears {w w' : World} {heard : List Exchange}
    (h : surroundings.Hears w heard w') : w.store.records <+: w'.store.records :=
  ⟨_, (records_of_hears h).symm⟩

theorem isPrefix_run {a : Activity} (ha : a.Uncrowded) (w : World) :
    w.store.records <+: (a.run surroundings w).2.store.records := by
  obtain ⟨heard, -, hhears⟩ := Activity.hears_run surroundings ha w
  exact isPrefix_of_hears hhears

theorem onward_run {a : Activity} (ha : a.Uncrowded) (w : World) :
    w.Onward (a.run surroundings w).2 := by
  obtain ⟨heard, -, hhears⟩ := Activity.hears_run surroundings ha w
  exact onward_of_hears hhears

end Simulation.World

end Loyalty
