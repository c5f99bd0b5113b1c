import Mathlib.Data.List.Nodup
import Loyalty.Proofs.Event.Order
import Loyalty.Proofs.Simulation.Saving
import Loyalty.Proofs.Simulation.Turns

/-!
# Which batches are stored

Whether a batch is stored is asked in several places: by itself, against the version of the user to
whom the history replays, and against the last record of the stream. Each of them may refuse it in
words of its own. `EventStore.Admits` says at once what they come to, for a store that may have
started with any records: with gaps in the versions, with versions that occur twice, with records
of version 0, which are never loaded, and with records that nobody can read.

The two versions are the same wherever there are two. A user who can be replayed has the version of
the last record of the stream, since the records stand in ascending order and none but those of
version 0 are left out. A user who cannot be replayed has no version, and stores nothing any more.

Main statement: a batch is stored exactly when the store admits it, in whatever order it is given.
-/

namespace Loyalty

open History Repository

namespace EventStore

/-! ## The version of a user -/

/-- The version of a user, as far as the history can be loaded and replayed. -/
inductive Current (s : EventStore) (id : String) : Nat → Prop where
  /-- there is nothing to load -/
  | absent (hload : s.load id = .ok []) : Current s id 0
  /-- what is loaded replays to a user -/
  | replayed {es : List Event} {u : User} (hload : s.load id = .ok es) (hne : es ≠ [])
    (hu : User.ofHistory id es = .ok u) : Current s id u.version

/-- It is the version of the last record of the stream. -/
theorem Current.eq_lastVersion {s : EventStore} (hs : s.Ascending) {id : String} {version : Nat}
    (h : s.Current id version) : version = s.lastVersion id := by
  cases h with
  | absent hload => exact (lastVersion_of_load hs hload).2
  | replayed hload _ hu => exact version_of_load hs hload hu

/-- Neither a record that cannot be read nor a history that cannot be replayed is taken for a user
who is not there. -/
theorem shownVersion_eq_ok_iff {s : EventStore} {id : String} {version : Nat} :
    shownVersion id (s.load id) = .ok version ↔ s.Current id version := by
  constructor
  · intro h
    cases hload : s.load id with
    | error f =>
      obtain ⟨r, -, rfl⟩ := EventRecord.toEvents_eq_error_iff.1 hload
      rw [hload] at h
      cases h
    | ok es =>
      rw [hload] at h
      cases es with
      | nil =>
        cases h
        exact .absent hload
      | cons e es =>
        rw [shownVersion] at h
        cases hu : User.ofHistory id (e :: es) with
        | error f =>
          obtain ⟨e', reason, rfl⟩ := User.exists_invalidPayload_of_ofHistory hu
          rw [hu] at h
          cases h
        | ok u =>
          rw [hu] at h
          cases h
          exact .replayed hload (List.cons_ne_nil e es) hu
  · intro h
    cases h with
    | absent hload =>
      rw [hload]
      rfl
    | @replayed es u hload hne hu =>
      obtain ⟨e, es, rfl⟩ := List.exists_cons_of_ne_nil hne
      rw [hload, shownVersion, hu]

theorem checkVersions_congr {id : String} {current : Nat} {es es' : List Event}
    (h : es.map Event.version = es'.map Event.version) :
    checkVersions id current es = checkVersions id current es' := by
  induction es generalizing current es' with
  | nil =>
    cases es' with
    | nil => rfl
    | cons e' es' => cases h
  | cons e es ih =>
    cases es' with
    | nil => cases h
    | cons e' es' =>
      obtain ⟨hversion, hversions⟩ := List.cons.inj h
      rw [checkVersions, checkVersions, hversion]
      split
      · exact ih hversions
      · rfl

/-- Whether a batch is saved, and why not, depends only on whose its events are and on their
versions. -/
theorem save_congr (s : EventStore) {es es' : List Event}
    (hids : es.map Event.aggregateId = es'.map Event.aggregateId)
    (hversions : es.map Event.version = es'.map Event.version) :
    ((s.save es).map fun _ => ()) = (s.save es').map fun _ => () := by
  cases es with
  | nil =>
    cases es' with
    | nil => rfl
    | cons e' es' => cases hids
  | cons e es =>
    cases es' with
    | nil => cases hids
    | cons e' es' =>
      obtain ⟨hid, hrest⟩ := List.cons.inj hids
      have hstray (es : List Event) : (es.any fun x => x.aggregateId ≠ e.aggregateId) =
          (es.map Event.aggregateId).any (· ≠ e.aggregateId) := by
        rw [List.any_map]
        rfl
      rw [save, save, ← hid, hstray, hstray, hrest, checkVersions_congr hversions]
      split
      · rfl
      · cases checkVersions e.aggregateId (s.lastVersion e.aggregateId) (e' :: es') <;> rfl

/-! ## Batches -/

/-- What a batch of a user must be like to be stored. -/
structure Admits (s : EventStore) (id : String) (current : Nat) (batch : List Event) : Prop where
  /-- there are events -/
  ne_nil : batch ≠ []
  /-- all of them are of the user -/
  ids : ∀ e ∈ batch, e.aggregateId = id
  /-- the identity of the user is not blank -/
  notBlank : Text.trim id ≠ ""
  /-- the user has a version -/
  isCurrent : s.Current id current
  /-- the versions follow it without a gap, in any order -/
  versions : (batch.map Event.version).Perm (List.range' (current + 1) batch.length)

/-- A batch is admitted in every order. -/
theorem Admits.perm {s : EventStore} {id : String} {current : Nat} {batch batch' : List Event}
    (h : s.Admits id current batch) (hperm : batch'.Perm batch) : s.Admits id current batch' where
  ne_nil := by
    rintro rfl
    exact h.ne_nil hperm.nil_eq.symm
  ids e he := h.ids e (hperm.mem_iff.1 he)
  notBlank := h.notBlank
  isCurrent := h.isCurrent
  versions := by
    rw [hperm.length_eq]
    exact (hperm.map _).trans h.versions

/-- No version occurs twice in a batch that is admitted. -/
theorem Admits.nodup {s : EventStore} {id : String} {current : Nat} {batch : List Event}
    (h : s.Admits id current batch) : (batch.map Event.version).Nodup :=
  h.versions.nodup_iff.2 List.nodup_range'

end EventStore

/-- Put in order, the versions of a batch are what its versions are in ascending order. -/
theorem History.versions_sorted_eq {batch : List Event} {ns : List Nat}
    (hperm : (batch.map Event.version).Perm ns) (hns : ns.Pairwise (· ≤ ·)) :
    (sorted batch).map Event.version = ns :=
  (((sorted_perm batch).map Event.version).trans hperm).eq_of_pairwise
    (fun _ _ _ _ => Nat.le_antisymm) (List.pairwise_map.2 (pairwise_sorted batch)) hns

/-- Put in order, versions without a gap count up by one. -/
theorem History.versions_sorted_iff {batch : List Event} {first : Nat} :
    (sorted batch).map Event.version = List.range' first batch.length ↔
      (batch.map Event.version).Perm (List.range' first batch.length) := by
  constructor
  · intro h
    rw [← h]
    exact ((sorted_perm batch).map Event.version).symm
  · intro h
    exact versions_sorted_eq h
      ((List.pairwise_lt_range' : List.Pairwise (· < ·) _).imp Nat.le_of_lt)

/-- Put in order, two batches of one user with as many events tell the same of whose they are. -/
theorem History.ids_sorted_eq {id : String} {batch batch' : List Event}
    (hids : ∀ e ∈ batch, e.aggregateId = id) (hids' : ∀ e ∈ batch', e.aggregateId = id)
    (hlength : batch.length = batch'.length) :
    (sorted batch).map Event.aggregateId = (sorted batch').map Event.aggregateId := by
  have hreplicate {batch : List Event} (h : ∀ e ∈ batch, e.aggregateId = id) :
      (sorted batch).map Event.aggregateId = List.replicate batch.length id := by
    refine List.eq_replicate_iff.2 ⟨?_, fun x hx => ?_⟩
    · rw [List.length_map, (sorted_perm batch).length_eq]
    · obtain ⟨e, he, rfl⟩ := List.mem_map.1 hx
      exact h e ((sorted_perm batch).mem_iff.1 he)
  rw [hreplicate hids, hreplicate hids', hlength]

namespace Repository

/-- A store that admits a batch is followed by it. -/
theorem continues_iff {id : String} {current : Nat} {batch : List Event} :
    Continues id current batch ↔ batch ≠ [] ∧ (∀ e ∈ batch, e.aggregateId = id) ∧
      (batch.map Event.version).Perm (List.range' (current + 1) batch.length) :=
  ⟨fun h => ⟨h.ne_nil, h.ids, versions_sorted_iff.1 h.versions⟩,
    fun ⟨hne, hids, hversions⟩ => ⟨hne, hids, versions_sorted_iff.2 hversions⟩⟩

/-- Only an event can be free of faults. -/
theorem exists_cons_of_batchFault? {es : List Event} (h : batchFault? es = none) :
    ∃ e es', es = e :: es' :=
  List.exists_cons_of_ne_nil fun hnil => by
    rw [hnil] at h
    cases h

/-- What is wrong with a batch by itself depends only on whose its events are. -/
theorem batchFault?_congr {es es' : List Event}
    (h : es.map Event.aggregateId = es'.map Event.aggregateId) :
    batchFault? es = batchFault? es' := by
  have hfind (id : String) (text : String → Failure) (es : List Event) :
      ((es.find? fun x => x.aggregateId ≠ id).map fun stray => text stray.aggregateId) =
        ((es.map Event.aggregateId).find? (· ≠ id)).map text := by
    rw [List.find?_map, Option.map_map]
    rfl
  cases es with
  | nil =>
    cases es' with
    | nil => rfl
    | cons e' es' => cases h
  | cons e es =>
    cases es' with
    | nil => cases h
    | cons e' es' =>
      obtain ⟨hid, hids⟩ := List.cons.inj h
      rw [batchFault?, batchFault?, ← hid]
      split
      · rfl
      · rw [hfind e.aggregateId fun id => .validation
          ("event batch for " ++ e.aggregateId ++ " contains an event for " ++ id), hids, ← hfind]

/-- What becomes of a batch: it is stored or refused at one go, and stored only when its user has
a version; or the user has none, and it is refused. -/
inductive Verdict (s : EventStore) (batch : List Event) :
    Except Failure Applied → EventStore → Prop where
  /-- the batch was stored or refused at one go -/
  | decided {x : Except Failure Applied} {s' : EventStore} (h : AtOnce s batch x s')
    (hcurrent : ∀ a, x = .ok a → s.Current a.aggregateId (s.lastVersion a.aggregateId)) :
    Verdict s batch x s'
  /-- the history cannot be loaded or replayed -/
  | unreadable {e : Event} {es : List Event} {f : Failure} (hbatch : sorted batch = e :: es)
    (h : ∀ version, ¬ s.Current e.aggregateId version) : Verdict s batch (.error f) s

/-- A batch is stored exactly when it is admitted, and the version that is reached is reported. -/
theorem Verdict.eq_ok_iff {s s' : EventStore} (hs : s.Ascending) {batch : List Event}
    {x : Except Failure Applied} (h : Verdict s batch x s') (a : Applied) :
    x = .ok a ↔ ∃ current, s.Admits a.aggregateId current batch ∧
      a.version = current + batch.length := by
  constructor
  · rintro rfl
    cases h with
    | decided h hcurrent =>
      obtain ⟨hcontinues, hversion, -⟩ := h.of_ok
      obtain ⟨hne, hids, hversions⟩ := continues_iff.1 hcontinues
      refine ⟨_, ⟨hne, hids, ?_, hcurrent a rfl, hversions⟩, hversion⟩
      cases h with
      | stored _ hsound =>
        rw [ne_eq, ← Text.isBlank_iff_trim_eq_empty]
        exact Bool.eq_false_iff.1 (batchFault?_eq_none_iff.1 hsound).1
  · rintro ⟨current, hadmits, hversion⟩
    obtain rfl := hadmits.isCurrent.eq_lastVersion hs
    have hcontinues := continues_iff.2 ⟨hadmits.ne_nil, hadmits.ids, hadmits.versions⟩
    cases h with
    | decided h _ =>
      have hblank : Text.isBlank a.aggregateId = false := by
        rw [Bool.eq_false_iff, ne_eq, Text.isBlank_iff_trim_eq_empty]
        exact hadmits.notBlank
      obtain ⟨b, rfl⟩ := h.ok_of_continues hblank hcontinues
      obtain ⟨hcontinues', hversion', -⟩ := h.of_ok
      obtain ⟨hid, -⟩ := hcontinues'.unique hcontinues
      obtain ⟨id, version⟩ := a
      obtain ⟨id', version'⟩ := b
      obtain rfl : id' = id := hid
      exact congrArg Except.ok (congrArg (Applied.mk id') (hversion'.trans hversion.symm))
    | @unreadable e es f hbatch h =>
      have hmem : e ∈ batch := (sorted_perm batch).mem_iff.1 (hbatch ▸ List.mem_cons_self)
      exact absurd (hadmits.ids e hmem ▸ hadmits.isCurrent) (h _)

/-- A batch that is stored is appended to the stream of its user. -/
theorem Verdict.stream_eq {s s' : EventStore} {batch : List Event} {a : Applied}
    (h : Verdict s batch (.ok a) s') (id : String) : s'.stream id = s.stream id ++
      if a.aggregateId = id then (sorted batch).map Event.toRecord else [] := by
  cases h with
  | decided h => exact h.stream_eq id

theorem Verdict.store_eq_of_error {s s' : EventStore} {batch : List Event} {f : Failure}
    (h : Verdict s batch (.error f) s') : s' = s := by
  cases h with
  | decided h => exact h.eq_of_error
  | unreadable => rfl

end Repository

namespace Simulation

/-- A batch with nothing wrong in it: the history is loaded, and the rest is the conclusion. -/
theorem World.attempt_apply_eq {w : World} (hw : w.FaultFree) {batch es : List Event} {e : Event}
    (hbatch : sorted batch = e :: es) (hsound : batchFault? (e :: es) = none) :
    attempt (apply batch) w =
      (conclusion e es (w.store.load e.aggregateId)).run surroundings w := by
  have hload : w.answer (.load e.aggregateId) = (w.store.load e.aggregateId, w) :=
    gated_of_no_fault (hw _) _
  rw [attempt, run_apply hbatch hsound, run_eq_advance, advance, hload]

/-- The answer to the request to save a batch. -/
theorem World.answer_save_congr {w : World} (hw : w.FaultFree) {es es' : List Event}
    (hids : es.map Event.aggregateId = es'.map Event.aggregateId)
    (hversions : es.map Event.version = es'.map Event.version) :
    (w.answer (.save es)).1 = (w.answer (.save es')).1 := by
  have hanswer (es : List Event) :
      (w.answer (.save es)).1 = (w.store.save es).map fun _ => () := by
    have hsave : w.answer (.save es) = _ := save_of_no_fault (hw _) es
    rw [hsave]
    cases w.store.save es <;> rfl
  rw [hanswer, hanswer, EventStore.save_congr w.store hids hversions]

/-- What becomes of a batch when nobody else comes in between. -/
theorem World.attempt_apply_verdict {w : World} (hw : w.FaultFree) (hs : w.store.Ascending)
    (batch : List Event) :
    ∃ x w', attempt (apply batch) w = (x, w') ∧ Verdict w.store batch x w'.store := by
  cases hfault : batchFault? (sorted batch) with
  | some f =>
    refine ⟨.error f, w, ?_, .decided (.refused hfault) nofun⟩
    rw [attempt, run_apply_of_fault hfault]
    rfl
  | none =>
    obtain ⟨e, es, hbatch⟩ := exists_cons_of_batchFault? hfault
    rw [hbatch] at hfault
    have hids : ∀ x ∈ batch, x.aggregateId = e.aggregateId := fun x hx => by
      rcases List.mem_cons.1 (hbatch ▸ (sorted_perm batch).mem_iff.2 hx) with rfl | hx
      · rfl
      · exact (batchFault?_eq_none_iff.1 hfault).2 x hx
    cases hshown : shownVersion e.aggregateId (w.store.load e.aggregateId) with
    | ok version =>
      have hcurrent := EventStore.shownVersion_eq_ok_iff.1 hshown
      obtain rfl := hcurrent.eq_lastVersion hs
      obtain ⟨x, w', hattempt, hx, -⟩ :=
        attempt_apply hw fun x hx => (hids x hx).symm ▸ (hshown : w.store.Shows e.aggregateId)
      refine ⟨x, w', hattempt, .decided hx fun a ha => ?_⟩
      subst ha
      obtain ⟨x, hx'⟩ := List.exists_mem_of_ne_nil batch hx.of_ok.1.ne_nil
      rw [← hx.of_ok.1.ids x hx', hids x hx']
      exact hcurrent
    | error f =>
      refine ⟨.error f, w, ?_, .unreadable hbatch fun version h => ?_⟩
      · rw [attempt_apply_eq hw hbatch hfault, conclusion, hshown]
        rfl
      · rw [EventStore.shownVersion_eq_ok_iff.2 h] at hshown
        cases hshown

/-- How storing a batch ends depends only on whose its events are and on their versions, in their
order. -/
theorem World.attempt_apply_congr {w : World} (hw : w.FaultFree) {batch batch' : List Event}
    (hids : (sorted batch).map Event.aggregateId = (sorted batch').map Event.aggregateId)
    (hversions : (sorted batch).map Event.version = (sorted batch').map Event.version) :
    (attempt (apply batch) w).1 = (attempt (apply batch') w).1 := by
  have hsame := batchFault?_congr hids
  cases hfault : batchFault? (sorted batch) with
  | some f =>
    rw [attempt, attempt, run_apply_of_fault hfault, run_apply_of_fault (hsame ▸ hfault)]
  | none =>
    obtain ⟨e, es, hbatch⟩ := exists_cons_of_batchFault? hfault
    obtain ⟨e', es', hbatch'⟩ := exists_cons_of_batchFault? (hsame ▸ hfault)
    rw [hbatch, hbatch'] at hids hversions hsame
    rw [hbatch] at hfault
    have hid : e.aggregateId = e'.aggregateId := (List.cons.inj hids).1
    have hversion : e.version = e'.version := (List.cons.inj hversions).1
    have hlast : lastVersion (e :: es) = lastVersion (e' :: es') := by
      rw [History.lastVersion_eq, History.lastVersion_eq, hversions]
    rw [attempt_apply_eq hw hbatch hfault, attempt_apply_eq hw hbatch' (hsame ▸ hfault),
      conclusion, conclusion, ← hid, ← hversion, ← hlast]
    cases shownVersion e.aggregateId (w.store.load e.aggregateId) with
    | error f => rfl
    | ok current =>
      simp only
      split
      · exact congrArg (Except.map fun _ => _) (answer_save_congr hw hids hversions)
      · rfl

/-- **Which batches are stored.** The store started with some records, batches were saved in it,
and no operation is going to fail. Then a batch is stored exactly when the store admits it. It is
appended in its order to the stream of its user and to no other, and the version that is reported
is the one that the user has reached. A batch that is not stored changes nothing. In another order
the same events are stored alike, or not at all; and if they are of one user, they are refused in
the same words. The version that the history of a user shows is always that of the last record of
the stream. -/
theorem apply_admits {w : World} (hs : w.store.Reachable) (hw : w.FaultFree)
    (batch : List Event) :
    ∃ x w', World.attempt (apply batch) w = (x, w') ∧
      (∀ a, x = .ok a ↔ ∃ current, w.store.Admits a.aggregateId current batch ∧
        a.version = current + batch.length) ∧
      (∀ a, x = .ok a → ∀ id, w'.store.stream id = w.store.stream id ++
        if a.aggregateId = id then (sorted batch).map Event.toRecord else []) ∧
      (∀ f, x = .error f → w'.store = w.store) ∧
      (∀ batch', batch'.Perm batch → ∃ x' w'', World.attempt (apply batch') w = (x', w'') ∧
        (∀ a, x' = .ok a ↔ x = .ok a) ∧ w''.store = w'.store ∧
        ((∃ id, ∀ e ∈ batch, e.aggregateId = id) → x' = x)) ∧
      ∀ id version, w.store.Current id version → version = w.store.lastVersion id := by
  have hascending := hs.ascending
  obtain ⟨x, w', hattempt, hverdict⟩ := World.attempt_apply_verdict hw hascending batch
  have hok := hverdict.eq_ok_iff hascending
  refine ⟨x, w', hattempt, hok, fun a ha => ?_, fun f hf => ?_, fun batch' hperm => ?_,
    fun id version h => h.eq_lastVersion hascending⟩
  · subst ha
    exact hverdict.stream_eq
  · subst hf
    exact hverdict.store_eq_of_error
  · obtain ⟨x', w'', hattempt', hverdict'⟩ := World.attempt_apply_verdict hw hascending batch'
    have hok' : ∀ a, x' = .ok a ↔ x = .ok a := fun a => by
      rw [hverdict'.eq_ok_iff hascending, hok]
      refine exists_congr fun current => and_congr ⟨fun h => h.perm hperm.symm, fun h =>
        h.perm hperm⟩ ?_
      rw [hperm.length_eq]
    refine ⟨x', w'', hattempt', hok', ?_, fun ⟨id, hids⟩ => ?_⟩
    · cases x with
      | error f =>
        cases x' with
        | error f' => rw [hverdict'.store_eq_of_error, hverdict.store_eq_of_error]
        | ok a => cases (hok' a).1 rfl
      | ok a =>
        -- Without a gap no version occurs twice, so the two batches are the same in their order.
        obtain ⟨current, hadmits, -⟩ := (hok a).1 rfl
        have hsame : apply batch' = apply batch := by
          rw [apply, apply, sorted_eq_of_perm hperm hadmits.nodup]
        rw [hsame] at hattempt'
        cases hattempt.symm.trans hattempt'
        rfl
    · have hversions : (sorted batch').map Event.version = (sorted batch).map Event.version :=
        versions_sorted_eq ((hperm.trans (sorted_perm batch).symm).map _)
          (List.pairwise_map.2 (pairwise_sorted batch))
      have hresults := World.attempt_apply_congr hw
        (ids_sorted_eq (fun e he => hids e (hperm.mem_iff.1 he)) hids hperm.length_eq) hversions
      rw [hattempt, hattempt'] at hresults
      exact hresults

/-- The events of a user, after a gap and two of the same version. -/
def gappyEvents : List Event :=
  [.ofChange "kim" 3 (.created ⟨"Kim", "kim@x", "K", none⟩) (Supply.standard.time 1),
    .ofChange "kim" 3 (.pointsEarned 5) (Supply.standard.time 2)]

/-- Their records, behind one of version 0 that nobody can read. -/
def gappyRecords : List EventRecord :=
  ⟨"kim", "UserVanished", 0, Supply.standard.time 0, none⟩ :: gappyEvents.map Event.toRecord

/-- Two events that follow them, in the wrong order. -/
def unsortedGains : List Event :=
  [.ofChange "kim" 5 (.pointsEarned 7) (Supply.standard.time 3),
    .ofChange "kim" 4 (.pointsEarned 9) (Supply.standard.time 4)]

/-- An event that leaves out a version. -/
def lateGain : List Event :=
  [.ofChange "kim" 5 (.pointsEarned 7) (Supply.standard.time 3)]

theorem unsortedGains_admitted :
    (World.seeded {} gappyRecords).store.Reachable ∧ (World.seeded {} gappyRecords).FaultFree ∧
      (World.attempt (apply unsortedGains) (World.seeded {} gappyRecords)).1 = .ok ⟨"kim", 5⟩ ∧
      (World.attempt (apply unsortedGains.reverse) (World.seeded {} gappyRecords)).1 =
        .ok ⟨"kim", 5⟩ ∧
      (World.attempt (apply lateGain) (World.seeded {} gappyRecords)).2.store =
        (World.seeded {} gappyRecords).store := by
  have hreachable : (World.seeded {} gappyRecords).store.Reachable := .seeded gappyRecords
  have hcalm : (World.seeded {} gappyRecords).FaultFree := fun _ => rfl
  have hrecords : (World.seeded {} gappyRecords).store.records = gappyRecords :=
    (EventStore.records_ofRecords gappyRecords).trans (List.mergeSort_of_pairwise (by decide))
  have hstream : (World.seeded {} gappyRecords).store.stream "kim" =
      gappyRecords.filter fun r => r.aggregateId = "kim" := by
    rw [EventStore.stream, hrecords]
  have hlast : (World.seeded {} gappyRecords).store.lastVersion "kim" = 3 := by
    rw [EventStore.lastVersion, hstream]
    decide
  have hcurrent : (World.seeded {} gappyRecords).store.Current "kim" 3 := by
    have hload : (World.seeded {} gappyRecords).store.load "kim" = .ok gappyEvents := by
      rw [EventStore.load, EventStore.loadAfter, hstream]
      decide +kernel
    have hfailure : ((User.new "kim").applyInOrder gappyEvents).failure? = none := by
      decide +kernel
    have hu : User.ofHistory "kim" gappyEvents =
        .ok ((User.new "kim").applyInOrder gappyEvents).user := by
      rw [User.ofHistory, User.apply, sorted_eq_self (by decide), User.Replayed.result, hfailure]
    have hcurrent := EventStore.Current.replayed hload (List.cons_ne_nil _ _) hu
    rwa [hcurrent.eq_lastVersion hreachable.ascending, hlast] at hcurrent
  have hadmits : (World.seeded {} gappyRecords).store.Admits "kim" 3 unsortedGains :=
    ⟨List.cons_ne_nil _ _, by decide, by decide, hcurrent, by decide⟩
  obtain ⟨x, w', hattempt, hok, -, -, horders, -⟩ := apply_admits hreachable hcalm unsortedGains
  have hx : x = .ok ⟨"kim", 5⟩ := (hok ⟨"kim", 5⟩).2 ⟨3, hadmits, rfl⟩
  obtain ⟨x', w'', hattempt', hok', -⟩ := horders _ (List.reverse_perm unsortedGains)
  have hx' : x' = .ok ⟨"kim", 5⟩ := (hok' _).2 hx
  obtain ⟨y, v, hlate, hlateOk, -, hlateStore, -⟩ := apply_admits hreachable hcalm lateGain
  refine ⟨hreachable, hcalm, by rw [hattempt, hx], by rw [hattempt', hx'], ?_⟩
  rw [hlate]
  cases y with
  | error f => exact hlateStore f rfl
  | ok a =>
    -- The event would have to follow version 3.
    obtain ⟨current, h, -⟩ := (hlateOk a).1 rfl
    have hid : "kim" = a.aggregateId := h.ids _ (List.mem_singleton_self _)
    have hthree : current = 3 := by
      rw [h.isCurrent.eq_lastVersion hreachable.ascending, ← hid, hlast]
    subst hthree
    exact absurd h.versions (by decide)

end Simulation

end Loyalty
