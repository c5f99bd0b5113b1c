import Loyalty.Proofs.User.Repository

/-!
# Storing at one go

Two places ask whether a batch continues the history of its user. Before the batch is saved, its
first version is compared with the version of the user to whom the history replays; and the store
compares all versions with the version of the last record of the stream. The two compare with the
same version whenever the history can be replayed at all, since the records of a stream stand in
ascending order. Then the first question adds nothing to the second one but an earlier answer.

`Repository.AtOnce` says what storing a batch comes to when nobody else comes in between: what is
wrong with the batch by itself is found first, and anything else is up to the store.

Main statements: a store whose histories can be replayed shows the version of every stream; a batch
can be stored at one go in one way only.
-/

namespace Loyalty

namespace EventRecord

theorem version_of_toEvent {r : EventRecord} {e : Event} (h : r.toEvent = .ok e) :
    e.version = r.version := by
  obtain ⟨t, -, he⟩ := eq_ok_of_bind h
  cases he
  rfl

/-- Records and their events have the same versions. -/
theorem versions_of_toEvents {rs : List EventRecord} {es : List Event}
    (h : toEvents rs = .ok es) : es.map Event.version = rs.map EventRecord.version := by
  induction rs generalizing es with
  | nil =>
    cases h
    rfl
  | cons r rs ih =>
    rw [toEvents, List.mapM_cons] at h
    obtain ⟨e, he, hrest⟩ := eq_ok_of_bind h
    obtain ⟨es', hes, hall⟩ := eq_ok_of_bind hrest
    cases hall
    rw [List.map_cons, List.map_cons, ih hes, version_of_toEvent he]

end EventRecord

theorem History.lastVersion_eq (es : List Event) :
    lastVersion es = (es.map Event.version).getLastD 0 := by
  rw [lastVersion, List.getLastD_eq_getLast?, List.getLast?_map]
  cases es.getLast? <;> rfl

namespace User

/-- A user shows the version of the last event that was applied. -/
theorem version_of_applyInOrder {id : String} {es : List Event} {u : User}
    (h : ((new id).applyInOrder es).result = .ok u) : u.version = History.lastVersion es := by
  rcases List.eq_nil_or_concat es with rfl | ⟨es, e, rfl⟩
  · cases h
    rfl
  · rw [List.concat_eq_append, result_applyInOrder_append] at h
    obtain ⟨v, -, hlast⟩ := eq_ok_of_bind h
    obtain ⟨c, w, -, -, rfl⟩ := applyEvent_eq_ok_iff.1 hlast
    simp [History.lastVersion]

/-- A user shows the version of the last event of a history in ascending order. -/
theorem version_of_ofHistory {id : String} {es : List Event} {u : User}
    (hes : es.Pairwise fun a b => a.version ≤ b.version) (h : ofHistory id es = .ok u) :
    u.version = History.lastVersion es := by
  rw [ofHistory, apply, History.sorted_eq_self hes] at h
  exact version_of_applyInOrder h

end User

namespace EventStore

/-- The stores that can come about: there were some records in the beginning, and what was saved
was added to them. -/
inductive Reachable : EventStore → Prop where
  /-- a store that starts with the given records -/
  | seeded (records : List EventRecord) : Reachable (ofRecords records)
  /-- a store in which one batch more was saved -/
  | saved {s s' : EventStore} (h : Reachable s) {es : List Event} (hs : s.save es = .ok s') :
    Reachable s'

/-- Every stream is in ascending order of version. -/
def Ascending (s : EventStore) : Prop :=
  ∀ id, (s.stream id).Pairwise fun r r' => r.version ≤ r'.version

theorem ascending_ofRecords (records : List EventRecord) : (ofRecords records).Ascending := by
  intro id
  rw [stream, records_ofRecords]
  refine List.Pairwise.filter _ ?_
  have h := @List.pairwise_mergeSort _ (fun a b : EventRecord => decide (a.version ≤ b.version))
    (fun a b c hab hbc => by simp only [decide_eq_true_eq] at *; omega)
    (fun a b => by simp only [Bool.or_eq_true, decide_eq_true_eq]; omega) records
  exact h.imp fun hab => of_decide_eq_true hab

/-- A stream after a batch of one user was saved. -/
theorem stream_concat (s : EventStore) {id : String} {es : List Event}
    (hes : ∀ e ∈ es, e.aggregateId = id) (other : String) :
    (s.adding (es.map Event.toRecord)).stream other =
      s.stream other ++ if id = other then es.map Event.toRecord else [] := by
  rw [stream_adding]
  congr 1
  split
  · next hid =>
    refine List.filter_eq_self.2 fun r hr => ?_
    obtain ⟨e, he, rfl⟩ := List.mem_map.1 hr
    exact decide_eq_true ((hes e he).trans hid)
  · next hid =>
    refine List.filter_eq_nil_iff.2 fun r hr => ?_
    obtain ⟨e, he, rfl⟩ := List.mem_map.1 hr
    simpa [Event.toRecord, hes e he] using hid

/-- In an ascending stream no version is beyond the last one. -/
theorem Ascending.le_lastVersion {s : EventStore} (h : s.Ascending) {id : String} {r : EventRecord}
    (hr : r ∈ s.stream id) : r.version ≤ s.lastVersion id := by
  have hid := h id
  rw [lastVersion]
  rcases List.eq_nil_or_concat (s.stream id) with hnil | ⟨rs, last, hconcat⟩
  · rw [hnil] at hr
    cases hr
  · rw [hconcat, List.concat_eq_append] at hid hr ⊢
    rw [List.getLast?_append]
    rcases List.mem_append.1 hr with hr | hr
    · exact (List.pairwise_append.1 hid).2.2 r hr last (List.mem_singleton_self last)
    · exact Nat.le_of_eq (congrArg _ (List.mem_singleton.1 hr))

/-- What is saved stands behind everything else. -/
theorem Ascending.save {s s' : EventStore} (h : s.Ascending) {es : List Event}
    (hs : s.save es = .ok s') : s'.Ascending := by
  cases es with
  | nil => exact absurd hs (save_nil s s')
  | cons e es =>
    obtain ⟨hids, hversions, rfl⟩ := save_eq_ok_iff.1 hs
    intro other
    rw [stream_concat s hids]
    split
    · next hid =>
      subst hid
      have hrange : ((e :: es).map Event.version).Pairwise (· ≤ ·) := by
        rw [hversions]
        exact (List.pairwise_lt_range' : List.Pairwise (· < ·) _).imp Nat.le_of_lt
      refine List.pairwise_append.2 ⟨h _, ?_, fun r hr r' hr' => ?_⟩
      · rw [List.pairwise_map] at hrange ⊢
        exact hrange
      · obtain ⟨e', he', rfl⟩ := List.mem_map.1 hr'
        have hmem : e'.version ∈ (e :: es).map Event.version := List.mem_map_of_mem he'
        rw [hversions, List.mem_range'_1] at hmem
        have hle : r.version ≤ s.lastVersion e.aggregateId := h.le_lastVersion hr
        show r.version ≤ e'.version
        omega
    · rw [List.append_nil]
      exact h other

theorem Reachable.ascending {s : EventStore} (h : s.Reachable) : s.Ascending := by
  induction h with
  | seeded records => exact ascending_ofRecords records
  | saved _ hs ih => exact ih.save hs

/-- No stream is without records. -/
def Filled (s : EventStore) : Prop :=
  ∀ id ∈ s.keys, s.stream id ≠ []

/-- A stream begins with its first record. -/
theorem Filled.adding {s : EventStore} (h : s.Filled) (rs : List EventRecord) :
    (s.adding rs).Filled := by
  intro id hid
  rw [stream_ne_nil_iff, records_adding, List.map_append, List.mem_append]
  rcases mem_keys_adding.1 hid with hid | hid
  · exact .inl (stream_ne_nil_iff.1 (h id hid))
  · exact .inr hid

theorem filled_ofRecords (records : List EventRecord) : (ofRecords records).Filled := by
  intro id hid
  rw [stream_ne_nil_iff, records_ofRecords]
  exact ((List.mergeSort_perm records _).map _).mem_iff.2 (mem_keys_ofRecords.1 hid)

theorem Reachable.filled {s : EventStore} (h : s.Reachable) : s.Filled := by
  induction h with
  | seeded records => exact filled_ofRecords records
  | @saved s s' _ es hs ih =>
    cases es with
    | nil => exact absurd hs (save_nil s s')
    | cons e es =>
      obtain ⟨-, -, rfl⟩ := save_eq_ok_iff.1 hs
      exact ih.adding _

/-! ## The version that is shown -/

/-- Every history can be loaded and replayed. -/
def Replays (s : EventStore) : Prop :=
  ∀ id, ∃ es u, s.load id = .ok es ∧ User.ofHistory id es = .ok u

/-- The history of a user shows the version of the stream. -/
def Shows (s : EventStore) (id : String) : Prop :=
  Repository.shownVersion id (s.load id) = .ok (s.lastVersion id)

theorem lastVersion_eq (s : EventStore) (id : String) :
    s.lastVersion id = ((s.stream id).map EventRecord.version).getLastD 0 := by
  rw [lastVersion, List.getLastD_eq_getLast?, List.getLast?_map]
  cases (s.stream id).getLast? <;> rfl

/-- Leaving out zeros does not change the last of numbers in ascending order, taken for 0 where
there is none. -/
theorem getLastD_filter_pos {ns : List Nat} (h : ns.Pairwise (· ≤ ·)) :
    (ns.filter fun n => 0 < n).getLastD 0 = ns.getLastD 0 := by
  rcases List.eq_nil_or_concat ns with rfl | ⟨ns, n, rfl⟩
  · rfl
  · rw [List.concat_eq_append] at h ⊢
    rw [List.filter_append]
    by_cases hn : 0 < n
    · simp [hn]
    · -- If the last number is 0, so are all the others.
      have hzero : (ns.filter fun m => 0 < m) = [] := by
        refine List.filter_eq_nil_iff.2 fun m hm => ?_
        have hle : m ≤ n := (List.pairwise_append.1 h).2.2 m hm n (List.mem_singleton_self n)
        simp only [decide_eq_true_eq]
        omega
      rw [hzero]
      simp [hn]
      omega

/-- The events that are loaded are in ascending order, and end with the version of the stream. -/
theorem lastVersion_of_load {s : EventStore} (hs : s.Ascending) {id : String} {es : List Event}
    (hload : s.load id = .ok es) :
    (es.Pairwise fun a b => a.version ≤ b.version) ∧ History.lastVersion es = s.lastVersion id := by
  -- Records of version 0 are not loaded, and they stand in front of all others.
  have hversions : es.map Event.version =
      ((s.stream id).map EventRecord.version).filter fun n => 0 < n := by
    rw [EventRecord.versions_of_toEvents hload, List.filter_map]
    rfl
  have hstream : ((s.stream id).map EventRecord.version).Pairwise (· ≤ ·) :=
    List.pairwise_map.2 (hs id)
  refine ⟨List.pairwise_map.1 ?_, ?_⟩
  · rw [hversions]
    exact hstream.filter _
  · rw [lastVersion_eq, ← getLastD_filter_pos hstream, ← hversions, History.lastVersion_eq]

/-- A user who is replayed from what is loaded has the version of the stream. -/
theorem version_of_load {s : EventStore} (hs : s.Ascending) {id : String} {es : List Event}
    (hload : s.load id = .ok es) {u : User} (hu : User.ofHistory id es = .ok u) :
    u.version = s.lastVersion id := by
  obtain ⟨hascending, hlast⟩ := lastVersion_of_load hs hload
  exact (User.version_of_ofHistory hascending hu).trans hlast

/-- A store whose histories can be replayed shows the version of every stream. -/
theorem Replays.shows {s : EventStore} (h : s.Replays) (hs : s.Ascending) (id : String) :
    s.Shows id := by
  obtain ⟨es, u, hload, hu⟩ := h id
  rw [Shows, hload]
  cases es with
  | nil => exact congrArg Except.ok (lastVersion_of_load hs hload).2
  | cons e es =>
    rw [Repository.shownVersion, hu]
    exact congrArg Except.ok (version_of_load hs hload hu)

/-- A batch of one user that does not follow the stream is refused in the words in which it is
refused when the versions are compared before. -/
theorem save_of_ne {s : EventStore} {e : Event} {es : List Event}
    (hids : ∀ x ∈ es, x.aggregateId = e.aggregateId)
    (hversion : e.version ≠ s.lastVersion e.aggregateId + 1) :
    s.save (e :: es) =
      .error (.conflict e.aggregateId (s.lastVersion e.aggregateId + 1) e.version) := by
  have hstray : ¬ es.any fun x => x.aggregateId ≠ e.aggregateId := by
    simpa using hids
  rw [save, if_neg hstray, checkVersions, if_neg hversion]
  rfl

end EventStore

namespace Repository

/-- A batch with nothing wrong in it is of one user, whose identity is not blank. -/
theorem batchFault?_eq_none_iff {e : Event} {es : List Event} :
    batchFault? (e :: es) = none ↔
      Text.isBlank e.aggregateId = false ∧ ∀ x ∈ es, x.aggregateId = e.aggregateId := by
  rw [batchFault?]
  cases Text.isBlank e.aggregateId with
  | true => simp
  | false => simp

/-- What storing a batch comes to when nobody else comes in between: how it ends, and the store
that it leaves. -/
inductive AtOnce (s : EventStore) (batch : List Event) :
    Except Failure Applied → EventStore → Prop where
  /-- something is wrong with the batch by itself -/
  | refused {f : Failure} (h : batchFault? (History.sorted batch) = some f) :
    AtOnce s batch (.error f) s
  /-- the store does not take the batch -/
  | conflict {e : Event} {es : List Event} {f : Failure} (hbatch : History.sorted batch = e :: es)
    (hsound : batchFault? (e :: es) = none) (hs : s.save (e :: es) = .error f) :
    AtOnce s batch (.error f) s
  /-- the store takes the batch -/
  | stored {e : Event} {es : List Event} {s' : EventStore}
    (hbatch : History.sorted batch = e :: es) (hsound : batchFault? (e :: es) = none)
    (hs : s.save (e :: es) = .ok s') :
    AtOnce s batch (.ok ⟨e.aggregateId, History.lastVersion (e :: es)⟩) s'

/-- A batch can be stored at one go in one way only. -/
theorem AtOnce.unique {s s₁ s₂ : EventStore} {batch : List Event} {x₁ x₂ : Except Failure Applied}
    (h₁ : AtOnce s batch x₁ s₁) (h₂ : AtOnce s batch x₂ s₂) : x₁ = x₂ ∧ s₁ = s₂ := by
  cases h₁ with
  | refused h =>
    cases h₂ with
    | refused h' =>
      cases h.symm.trans h'
      exact ⟨rfl, rfl⟩
    | conflict hbatch hsound | stored hbatch hsound =>
      rw [hbatch, hsound] at h
      cases h
  | conflict hbatch hsound hs =>
    cases h₂ with
    | refused h =>
      rw [hbatch, hsound] at h
      cases h
    | conflict hbatch' hsound' hs' =>
      cases hbatch.symm.trans hbatch'
      cases hs.symm.trans hs'
      exact ⟨rfl, rfl⟩
    | stored hbatch' hsound' hs' =>
      cases hbatch.symm.trans hbatch'
      cases hs.symm.trans hs'
  | stored hbatch hsound hs =>
    cases h₂ with
    | refused h =>
      rw [hbatch, hsound] at h
      cases h
    | conflict hbatch' hsound' hs' =>
      cases hbatch.symm.trans hbatch'
      cases hs.symm.trans hs'
    | stored hbatch' hsound' hs' =>
      cases hbatch.symm.trans hbatch'
      cases hs.symm.trans hs'
      exact ⟨rfl, rfl⟩

/-- The rows that a batch adds to the stream of a user, when it is stored with this result. -/
def rows (id : String) (batch : List Event) : Except Failure Applied → List EventRecord
  | .error _ => []
  | .ok a => if a.aggregateId = id then (History.sorted batch).map Event.toRecord else []

/-- A batch that fails adds nothing to any stream, and one that is stored adds all of itself to the
stream of its user, in one piece. -/
theorem AtOnce.stream_eq {s s' : EventStore} {batch : List Event} {x : Except Failure Applied}
    (h : AtOnce s batch x s') (id : String) : s'.stream id = s.stream id ++ rows id batch x := by
  cases h with
  | refused | conflict => rw [rows, List.append_nil]
  | stored hbatch hsound hs =>
    obtain ⟨hids, -, rfl⟩ := EventStore.save_eq_ok_iff.1 hs
    rw [EventStore.stream_concat s hids, rows, hbatch]

theorem AtOnce.reachable {s s' : EventStore} {batch : List Event} {x : Except Failure Applied}
    (h : AtOnce s batch x s') (hs : s.Reachable) : s'.Reachable := by
  cases h with
  | refused | conflict => exact hs
  | stored _ _ hsave => exact hs.saved hsave

/-- A batch of one user whose versions follow a version without a gap. -/
structure Continues (id : String) (version : Nat) (batch : List Event) : Prop where
  /-- there are events -/
  ne_nil : batch ≠ []
  /-- all of them are of the user -/
  ids : ∀ e ∈ batch, e.aggregateId = id
  /-- put in order, their versions count up by one -/
  versions : (History.sorted batch).map Event.version = List.range' (version + 1) batch.length

/-- A batch follows one version of one user. -/
theorem Continues.unique {id id' : String} {version version' : Nat} {batch : List Event}
    (h : Continues id version batch) (h' : Continues id' version' batch) :
    id = id' ∧ version = version' := by
  obtain ⟨e, he⟩ := List.exists_mem_of_ne_nil batch h.ne_nil
  have hrange : List.range' (version + 1) batch.length = List.range' (version' + 1) batch.length :=
    h.versions.symm.trans h'.versions
  have hlength : 0 < batch.length := List.length_pos_of_mem he
  have hhead := congrArg List.head? hrange
  rw [List.head?_range', List.head?_range', if_neg (by omega), if_neg (by omega)] at hhead
  exact ⟨(h.ids e he).symm.trans (h'.ids e he), Nat.succ.inj (Option.some.inj hhead)⟩

/-- A batch that is not stored leaves the store as it is. -/
theorem AtOnce.eq_of_error {s s' : EventStore} {batch : List Event} {f : Failure}
    (h : AtOnce s batch (.error f) s') : s' = s := by
  cases h with
  | refused | conflict => rfl

/-- A batch that follows the stream without a gap is stored. -/
theorem AtOnce.ok_of_continues {s s' : EventStore} {batch : List Event}
    {x : Except Failure Applied} (h : AtOnce s batch x s') {id : String}
    (hid : Text.isBlank id = false) (hbatch : Continues id (s.lastVersion id) batch) :
    ∃ a, x = .ok a := by
  have hperm := History.sorted_perm batch
  obtain ⟨e, es, hsorted⟩ : ∃ e es, History.sorted batch = e :: es :=
    List.exists_cons_of_ne_nil fun hnil => hbatch.ne_nil (hnil ▸ hperm).nil_eq.symm
  have hids : ∀ x ∈ e :: es, x.aggregateId = id := fun x hx =>
    hbatch.ids x (hperm.mem_iff.1 (hsorted ▸ hx))
  obtain rfl : e.aggregateId = id := hids e List.mem_cons_self
  have hsound : batchFault? (e :: es) = none :=
    batchFault?_eq_none_iff.2 ⟨hid, fun x hx => hids x (List.mem_cons_of_mem e hx)⟩
  have hversions := hbatch.versions
  rw [← hperm.length_eq, hsorted] at hversions
  have hsave := EventStore.save_eq_ok_iff.2 ⟨hids, hversions, rfl⟩
  exact ⟨_, (h.unique (.stored hsorted hsound hsave)).1⟩

/-- A batch that is stored followed the stream without a gap, and the last version of the stream
is then the one that is reported. -/
theorem AtOnce.of_ok {s s' : EventStore} {batch : List Event} {a : Applied}
    (h : AtOnce s batch (.ok a) s') :
    Continues a.aggregateId (s.lastVersion a.aggregateId) batch ∧
      a.version = s.lastVersion a.aggregateId + batch.length ∧
        ∀ id, s'.lastVersion id = if a.aggregateId = id then a.version else s.lastVersion id := by
  have hstream := h.stream_eq
  cases h with
  | @stored e es _ hbatch hsound hs =>
    obtain ⟨hids, hversions, -⟩ := EventStore.save_eq_ok_iff.1 hs
    have hperm := History.sorted_perm batch
    have hlength : batch.length = es.length + 1 := by
      rw [← hperm.length_eq, hbatch, List.length_cons]
    have hlast : History.lastVersion (e :: es) =
        s.lastVersion e.aggregateId + batch.length := by
      rw [History.lastVersion_eq, hversions, hlength, List.length_cons, List.range'_concat]
      simp
      omega
    refine ⟨⟨?_, fun x hx => hids x (hbatch ▸ hperm.mem_iff.2 hx), ?_⟩, hlast, fun id => ?_⟩
    · rintro rfl
      cases hlength
    · rw [hlength, hbatch]
      exact hversions
    · rw [EventStore.lastVersion_eq, hstream, rows, hbatch]
      split
      · rw [List.map_append, List.map_map, History.lastVersion_eq]
        show (_ ++ (e :: es).map Event.version).getLastD 0 = _
        rw [List.getLastD_eq_getLast?, List.getLastD_eq_getLast?, List.getLast?_append, hversions,
          List.length_cons, List.range'_concat]
        simp
      · rw [List.append_nil, EventStore.lastVersion_eq]

end Repository

end Loyalty
