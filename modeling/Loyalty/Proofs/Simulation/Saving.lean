import Loyalty.Proofs.Simulation.Truth
import Loyalty.Proofs.User.Storing
import Loyalty.Simulation.Run

/-!
# Runs of saves

Batches are saved one after the other, whatever they are: some follow their stream, others are
stale, leave a gap, are empty or mix users, and the storage may fail at any of them. The store may
have started with records of any kind. `World.saveAll` is such a run, and `keptOf` collects what a
run has saved for one user.

A batch is saved when the storage does not fail and the store *takes* it: it is not empty, it is of
one user, and it follows the stream of that user without a gap. Then it is appended to that stream
as it is. Otherwise nothing happens to the store: no record is added, and no stream begins.

What was stored comes back as it was. Only records with which a store started can fail to come
back, namely those whose kind has a name that stands for nothing; the failure names the first of
them among the records that were asked for.

Main statement: the streams after a run are the streams before it, each followed by what was saved
for its user, and are loaded accordingly.
-/

namespace Loyalty

namespace EventRecord

theorem toEvent_eq_ok_iff {r : EventRecord} {e : Event} : r.toEvent = .ok e ↔ e.toRecord = r := by
  constructor
  · intro h
    obtain ⟨t, ht, he⟩ := eq_ok_of_bind h
    cases he
    rw [EventType.parse] at ht
    split at ht
    · next hname =>
      cases ht
      simp [Event.toRecord, ← EventType.ofName?_eq_some_iff.1 hname]
    · cases ht
  · rintro rfl
    exact e.toEvent_toRecord

/-- The name of the kind stands for nothing. -/
def unknown (r : EventRecord) : Bool :=
  (EventType.ofName? r.eventType).isNone

theorem toEvent_of_unknown {r : EventRecord} (h : r.unknown = true) :
    r.toEvent = .error (.unknownEventType r.eventType) := by
  rw [unknown, Option.isNone_iff_eq_none] at h
  rw [toEvent, EventType.parse, h]
  rfl

theorem toEvent_of_not_unknown {r : EventRecord} (h : r.unknown = false) :
    ∃ e : Event, r.toEvent = .ok e ∧ e.toRecord = r := by
  obtain ⟨t, ht⟩ := Option.isSome_iff_exists.1 (Option.isNone_eq_false_iff.1 h)
  refine ⟨⟨r.aggregateId, t, r.version, r.eventAt, r.payload⟩, toEvent_eq_ok_iff.2 ?_, ?_⟩ <;>
    simp [Event.toRecord, ← EventType.ofName?_eq_some_iff.1 ht]

/-- Records come back as the events whose records they are. -/
theorem toEvents_eq_ok_iff {rs : List EventRecord} {es : List Event} :
    toEvents rs = .ok es ↔ es.map Event.toRecord = rs := by
  constructor
  · intro h
    induction rs generalizing es with
    | nil =>
      cases h
      rfl
    | cons r rs ih =>
      rw [toEvents, List.mapM_cons] at h
      obtain ⟨e, he, hrest⟩ := eq_ok_of_bind h
      obtain ⟨es', hes, hall⟩ := eq_ok_of_bind hrest
      cases hall
      rw [List.map_cons, toEvent_eq_ok_iff.1 he, ih hes]
  · rintro rfl
    exact toEvents_map_toRecord es

/-- Records fail to come back because of the first whose kind is unknown. -/
theorem toEvents_eq_error_iff {rs : List EventRecord} {f : Failure} :
    toEvents rs = .error f ↔ ∃ r, rs.find? unknown = some r ∧ f = .unknownEventType r.eventType := by
  induction rs with
  | nil =>
    constructor
    · rintro ⟨⟩
    · rintro ⟨_, ⟨⟩, _⟩
  | cons r rs ih =>
    rw [toEvents] at ih ⊢
    rw [List.mapM_cons]
    cases hr : r.unknown with
    | true =>
      rw [toEvent_of_unknown hr, List.find?_cons_of_pos hr]
      constructor
      · rintro ⟨⟩
        exact ⟨r, rfl, rfl⟩
      · rintro ⟨_, ⟨⟩, rfl⟩
        rfl
    | false =>
      obtain ⟨e, he, -⟩ := toEvent_of_not_unknown hr
      rw [he, List.find?_cons_of_neg (by simp [hr]), ← ih]
      cases List.mapM toEvent rs with
      | ok es =>
        constructor
        · rintro ⟨⟩
        · rintro ⟨⟩
      | error g => exact Iff.rfl

end EventRecord

/-! ## One save -/

namespace EventStore

/-- The store takes a batch: it is not empty, it is of one aggregate, and it follows the stream of
that aggregate without a gap. -/
def Takes (s : EventStore) : List Event → Prop
  | [] => False
  | e :: es =>
    (∀ x ∈ es, x.aggregateId = e.aggregateId) ∧
      (e :: es).map Event.version =
        List.range' (s.lastVersion e.aggregateId + 1) (es.length + 1)

theorem save_eq_ok_iff_takes {s s' : EventStore} {es : List Event} :
    s.save es = .ok s' ↔ s.Takes es ∧ s' = s.adding (es.map Event.toRecord) := by
  cases es with
  | nil => exact ⟨fun h => absurd h (save_nil s s'), fun h => h.1.elim⟩
  | cons e es =>
    rw [save_eq_ok_iff, Takes, List.forall_mem_cons, List.length_cons, eq_self_iff_true, true_and,
      and_assoc]

theorem ofRecords_nil : ofRecords [] = holding [] :=
  ext_iff.2 ⟨rfl, by rw [records_ofRecords, List.mergeSort_nil, records_holding, List.map_nil]⟩

/-- All events of a batch that the store takes are of one aggregate. -/
theorem Takes.ids {s : EventStore} {es : List Event} (h : s.Takes es) :
    ∃ id, ∀ e ∈ es, e.aggregateId = id := by
  cases es with
  | nil => exact h.elim
  | cons e es => exact ⟨e.aggregateId, List.forall_mem_cons.2 ⟨rfl, h.1⟩⟩

/-- Only the stream of that aggregate can begin when the batch is saved, and it does. -/
theorem Takes.mem_keys_adding_iff {s : EventStore} {es : List Event} (h : s.Takes es) {id : String}
    (hids : ∀ e ∈ es, e.aggregateId = id) {other : String} :
    other ∈ (s.adding (es.map Event.toRecord)).keys ↔ other ∈ s.keys ∨ other = id := by
  have hids' : (es.map Event.toRecord).map EventRecord.aggregateId = es.map fun _ => id := by
    rw [List.map_map]
    exact List.map_congr_left hids
  rw [mem_keys_adding, hids', List.map_const', List.mem_replicate]
  cases es with
  | nil => exact h.elim
  | cons e es => simp

end EventStore

namespace Simulation.World

/-- How saving a batch ends: the storage fails, or the store decides. -/
inductive Saves (w : World) (es : List Event) : Outcome × World → Prop where
  /-- nothing is saved -/
  | refused {f : Failure} {after : World} (hstore : after.store = w.store)
    (h : (w.fault .save).1 = none → ¬ w.store.Takes es) : Saves w es (.error f, after)
  /-- the batch is saved -/
  | saved {after : World} (hstore : after.store = w.store.adding (es.map Event.toRecord))
    (hfault : (w.fault .save).1 = none) (htakes : w.store.Takes es) : Saves w es (.ok (), after)

theorem fault_note (op : Operation) (w : World) (x : Entry) :
    ((w.note x).fault op).1 = (w.fault op).1 := by
  have hfaults : (w.note x).faults = w.faults := rfl
  rw [fault, fault, hfaults]
  cases w.faults op <;> rfl

theorem saves_save (w : World) (es : List Event) : Saves w es (w.save es) := by
  rw [save, gated_eq, fault_note]
  have hstore : ((w.note (.saving es)).fault .save).2.store = w.store := fault_store _ _
  cases hfault : (w.fault .save).1 with
  | some f => exact .refused hstore (by simp [hfault])
  | none =>
    simp only
    rw [saveInStore_eq, hstore]
    cases hs : w.store.save es with
    | error f =>
      refine .refused hstore fun _ htakes => ?_
      have hok := EventStore.save_eq_ok_iff_takes.2 ⟨htakes, rfl⟩
      rw [hs] at hok
      cases hok
    | ok s' =>
      obtain ⟨htakes, rfl⟩ := EventStore.save_eq_ok_iff_takes.1 hs
      exact .saved rfl hfault htakes

/-! ## A run of saves -/

/-- Saves batches one after the other. -/
def saveAll (batches : List (List Event)) (w : World) : List Outcome × World :=
  finishAll (batches.map fun es => (Attempt.save es).run) w

/-- The batches of one aggregate that were saved, in one list. -/
def keptOf (id : String) : List (List Event) → List Outcome → List Event
  | es :: batches, .ok () :: outcomes =>
    (if ∀ e ∈ es, e.aggregateId = id then es else []) ++ keptOf id batches outcomes
  | _ :: batches, .error _ :: outcomes => keptOf id batches outcomes
  | _, _ => []

theorem saveAll_cons (es : List Event) (batches : List (List Event)) (w : World) :
    saveAll (es :: batches) w =
      ((w.save es).1 :: (saveAll batches (w.save es).2).1, (saveAll batches (w.save es).2).2) :=
  rfl

/-- The stores of a run can come about. -/
theorem reachable_saveAll {w : World} (hw : w.store.Reachable) (batches : List (List Event)) :
    (saveAll batches w).2.store.Reachable := by
  induction batches generalizing w with
  | nil => exact hw
  | cons es batches ih =>
    rw [saveAll_cons]
    have hsaves := saves_save w es
    generalize w.save es = next at hsaves ⊢
    refine ih ?_
    cases hsaves with
    | refused hstore => rwa [hstore]
    | saved hstore _ htakes =>
      exact hw.saved (EventStore.save_eq_ok_iff_takes.2 ⟨htakes, hstore⟩)

theorem stream_of_saved {s : EventStore} {es : List Event} (h : s.Takes es) (id : String) :
    (s.adding (es.map Event.toRecord)).stream id =
      s.stream id ++ (if ∀ e ∈ es, e.aggregateId = id then es else []).map Event.toRecord := by
  obtain ⟨own, hids⟩ := h.ids
  rw [EventStore.stream_concat s hids]
  by_cases hid : own = id
  · subst hid
    rw [if_pos rfl, if_pos hids]
  · cases es with
    | nil => exact h.elim
    | cons e es =>
      have hown := hids e List.mem_cons_self
      have hother : ¬ ∀ x ∈ e :: es, x.aggregateId = id := fun hall =>
        hid (hown.symm.trans (hall e List.mem_cons_self))
      rw [if_neg hid, if_neg hother, List.map_nil]

/-- A stream after a run is the stream before it, followed by what was saved for its aggregate. -/
theorem stream_saveAll (w : World) (batches : List (List Event)) (id : String) :
    (saveAll batches w).2.store.stream id =
      w.store.stream id ++ (keptOf id batches (saveAll batches w).1).map Event.toRecord := by
  induction batches generalizing w with
  | nil => exact (List.append_nil _).symm
  | cons es batches ih =>
    rw [saveAll_cons, ih]
    have hsaves := saves_save w es
    generalize w.save es = next at hsaves ⊢
    cases hsaves with
    | refused hstore => rw [hstore, keptOf]
    | saved hstore _ htakes =>
      simp only
      rw [hstore, keptOf, stream_of_saved htakes, List.map_append, List.append_assoc]

/-- A run over a store that holds events leaves a store that holds events, and gapless histories
stay gapless. -/
theorem holding_saveAll {w : World} {es : List Event} (hw : w.store = .holding es)
    (hes : ∀ id, History.Gapless (History.ofUser id es)) (batches : List (List Event)) :
    ∃ fs, (saveAll batches w).2.store = .holding fs ∧
      ∀ id, History.Gapless (History.ofUser id fs) := by
  induction batches generalizing w es with
  | nil => exact ⟨es, hw, hes⟩
  | cons batch batches ih =>
    rw [saveAll_cons]
    have hsaves := saves_save w batch
    generalize w.save batch = next at hsaves ⊢
    cases hsaves with
    | refused hstore => exact ih (hstore.trans hw) hes
    | saved hstore _ htakes =>
      have hsave := EventStore.save_eq_ok_iff_takes.2 ⟨htakes, rfl⟩
      rw [hw] at hsave hstore
      obtain ⟨hheld, hgapless⟩ := EventStore.gapless_of_save hes hsave
      exact ih (hstore.trans hheld) hgapless

/-- The world with a store that starts with the given records. -/
def seeded (w : World) (records : List EventRecord) : World :=
  { w with store := .ofRecords records }

/-- What has become of a store that started with `records` when batches were saved one after the
other, given how that ended. -/
structure Kept (records : List EventRecord) (batches : List (List Event)) (outcomes : List Outcome)
    (now : World) : Prop where
  /-- another save fails and leaves the store as it is, with its records and its keys, or it appends
  the batch to one stream, and no other stream begins -/
  next : ∀ es, match now.save es with
    | (.error _, after) => after.store = now.store
    | (.ok (), after) => ∃ id, ∀ other,
        after.store.stream other =
          now.store.stream other ++ (if id = other then es.map Event.toRecord else []) ∧
        (other ∈ after.store.keys ↔ other ∈ now.store.keys ∨ other = id)
  /-- another save succeeds when the storage does not fail and the store takes the batch -/
  next_eq_ok_iff : ∀ es,
    (now.save es).1 = .ok () ↔ (now.fault .save).1 = none ∧ now.store.Takes es
  /-- those who have a stream are those of whom there are records -/
  mem_keys_iff : ∀ id, id ∈ now.store.keys ↔ now.store.stream id ≠ []
  /-- every stream is in ascending order of version -/
  ascending : ∀ id, (now.store.stream id).Pairwise fun r r' => r.version ≤ r'.version
  /-- what was saved stands behind the records that were there in the beginning -/
  stream_eq : ∀ id, now.store.stream id =
    (EventStore.ofRecords records).stream id ++ (keptOf id batches outcomes).map Event.toRecord
  /-- all events are those beyond version 0 -/
  load_eq : ∀ id, now.store.load id = now.store.loadAfter id 0
  /-- the events that are loaded are those of the records beyond the version -/
  loadAfter_eq_ok_iff : ∀ id version es, now.store.loadAfter id version = .ok es ↔
    es.map Event.toRecord = (now.store.stream id).filter fun r => version < r.version
  /-- loading fails when one of these records is of an unknown kind, and names the first kind -/
  loadAfter_eq_error_iff : ∀ id version f, now.store.loadAfter id version = .error f ↔
    ∃ r, ((now.store.stream id).filter fun r => version < r.version).find?
        EventRecord.unknown = some r ∧
      f = .unknownEventType r.eventType

theorem kept_saveAll (w : World) (records : List EventRecord) (batches : List (List Event)) :
    Kept records batches (saveAll batches (w.seeded records)).1
      (saveAll batches (w.seeded records)).2 where
  next es := by
    generalize (saveAll batches (w.seeded records)).2 = now
    have hsaves := saves_save now es
    generalize now.save es = next at hsaves ⊢
    cases hsaves with
    | refused hstore => exact hstore
    | saved hstore _ htakes =>
      obtain ⟨id, hids⟩ := htakes.ids
      exact ⟨id, fun other => ⟨by rw [hstore, EventStore.stream_concat _ hids],
        by rw [hstore, htakes.mem_keys_adding_iff hids]⟩⟩
  next_eq_ok_iff es := by
    generalize (saveAll batches (w.seeded records)).2 = now
    have hsaves := saves_save now es
    generalize now.save es = next at hsaves ⊢
    cases hsaves with
    | refused _ h => exact ⟨nofun, fun hboth => absurd hboth.2 (h hboth.1)⟩
    | saved _ hfault htakes => exact ⟨fun _ => ⟨hfault, htakes⟩, fun _ => rfl⟩
  mem_keys_iff id :=
    ⟨(reachable_saveAll (w := w.seeded records) (.seeded records) batches).filled id,
      EventStore.mem_keys_of_stream_ne_nil⟩
  ascending :=
    (reachable_saveAll (w := w.seeded records) (.seeded records) batches).ascending
  stream_eq := stream_saveAll _ _
  load_eq _ := rfl
  loadAfter_eq_ok_iff _ _ _ := EventRecord.toEvents_eq_ok_iff
  loadAfter_eq_error_iff _ _ _ := EventRecord.toEvents_eq_error_iff

/-- **Storage keeps what is saved.** A store started with any records, any batches were saved one
after the other, and the storage may have failed at any of them: then the store has kept its
records and the batches that were saved, and nothing else. If it started with nothing, what was
saved for an aggregate is loaded as it was saved, and its versions count from 1. -/
theorem saved_is_kept (w : World) (records : List EventRecord) (batches : List (List Event)) :
    Kept records batches (saveAll batches (w.seeded records)).1
        (saveAll batches (w.seeded records)).2 ∧
      let run := saveAll batches (w.seeded [])
      ∀ id,
        run.2.store.load id = .ok (keptOf id batches run.1) ∧
        (keptOf id batches run.1).map Event.version =
          List.range' 1 (keptOf id batches run.1).length ∧
        ∀ version, run.2.store.loadAfter id version =
          .ok ((keptOf id batches run.1).filter fun e => version < e.version) := by
  refine ⟨kept_saveAll w records batches, fun id => ?_⟩
  have hempty : (w.seeded []).store = .holding [] := EventStore.ofRecords_nil
  obtain ⟨fs, hstore, hgapless⟩ := holding_saveAll hempty (fun _ => History.gapless_nil) batches
  -- What the store holds for a user is what was kept for the user: they have the same records.
  have hkept : keptOf id batches (saveAll batches (w.seeded [])).1 = History.ofUser id fs := by
    have hstream := stream_saveAll (w.seeded []) batches id
    rw [hstore, hempty, EventStore.stream_holding, EventStore.holding_nil,
      EventStore.stream_empty, List.nil_append] at hstream
    have hloaded := EventRecord.toEvents_eq_ok_iff.2 hstream.symm
    exact Except.ok.inj (hloaded.symm.trans (EventRecord.toEvents_map_toRecord _))
  simp only [hkept, hstore]
  exact ⟨EventStore.load_holding (hgapless id), hgapless id, fun version => by
    rw [EventStore.loadAfter_holding (hgapless id), (hgapless id).filter_version]⟩

end Simulation.World

end Loyalty
