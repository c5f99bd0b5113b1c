import Loyalty.Event.Stored

/-!
# The event store

A store keeps the records of all events, oldest first, and only ever adds to them. The records of
one aggregate are its *stream*. The store also knows of whom there are streams, its *keys*: a stream
begins when something is to be put into it, and without records it would be there all the same.

A batch of events is saved whole or not at all. All its events must be of one aggregate, and their
versions must continue the stream without a gap: the first takes the version after the last stored
one, each further event the version after the event before it. So of two writers who both decided
on the same history only one can save.
-/

namespace Loyalty

/-- An event store. -/
structure EventStore where
  /-- the aggregates that have a stream, in the order in which the streams began -/
  keys : List String
  /-- the records of all streams, in the order in which they came -/
  records : List EventRecord
  /-- no aggregate has two streams -/
  nodup : keys.Nodup
  /-- every record stands in a stream -/
  covered : ∀ r ∈ records, r.aggregateId ∈ keys
  deriving DecidableEq

namespace EventStore

theorem ext_iff {s s' : EventStore} : s = s' ↔ s.keys = s'.keys ∧ s.records = s'.records := by
  cases s
  cases s'
  exact mk.injEq .. ▸ Iff.rfl

/-- A store with nothing in it. -/
def empty : EventStore := ⟨[], [], List.nodup_nil, List.forall_mem_nil _⟩

/-- The store in which an aggregate has a stream. If it had none, one without records begins. -/
def entry (s : EventStore) (id : String) : EventStore :=
  if h : id ∈ s.keys then s
  else
    { s with
      keys := s.keys ++ [id]
      nodup := List.nodup_append.2 ⟨s.nodup, List.pairwise_singleton _ id, by
        rintro k hk _ hid rfl
        exact h (List.mem_singleton.1 hid ▸ hk)⟩
      covered := fun r hr => List.mem_append_left _ (s.covered r hr) }

@[simp] theorem records_entry (s : EventStore) (id : String) : (s.entry id).records = s.records := by
  rw [entry]
  split <;> rfl

@[simp] theorem mem_keys_entry {s : EventStore} {id other : String} :
    other ∈ (s.entry id).keys ↔ other ∈ s.keys ∨ other = id := by
  rw [entry]
  split
  · next h =>
    refine ⟨.inl, ?_⟩
    rintro (hother | rfl)
    · exact hother
    · exact h
  · simp

/-- The store in which a record stands at the end of its stream. -/
def push (s : EventStore) (r : EventRecord) : EventStore :=
  { s.entry r.aggregateId with
    records := s.records ++ [r]
    covered := by
      intro x hx
      rw [mem_keys_entry]
      rcases List.mem_append.1 hx with hx | hx
      · exact .inl (s.covered x hx)
      · exact .inr (congrArg _ (List.mem_singleton.1 hx)) }

@[simp] theorem keys_push (s : EventStore) (r : EventRecord) :
    (s.push r).keys = (s.entry r.aggregateId).keys := rfl

@[simp] theorem records_push (s : EventStore) (r : EventRecord) :
    (s.push r).records = s.records ++ [r] := rfl

/-- The store in which records stand at the ends of their streams. -/
def adding (s : EventStore) (rs : List EventRecord) : EventStore :=
  rs.foldl push s

/-- A store that starts with the given records. Their versions are not checked; in each stream the
records are put in ascending order of version. -/
def ofRecords (records : List EventRecord) : EventStore :=
  let s := empty.adding records
  { s with
    records := s.records.mergeSort fun a b => a.version ≤ b.version
    covered := fun r hr => s.covered r (List.mem_mergeSort.1 hr) }

/-- The records of one aggregate. -/
def stream (s : EventStore) (id : String) : List EventRecord :=
  s.records.filter fun r => r.aggregateId = id

/-- The number of records of one aggregate. -/
def streamLength (s : EventStore) (id : String) : Nat :=
  (s.stream id).length

/-- The version of the last record of one aggregate, 0 when there is none. -/
def lastVersion (s : EventStore) (id : String) : Nat :=
  match (s.stream id).getLast? with
  | none => 0
  | some r => r.version

/-- The versions of the events count up by one, starting after `current`. -/
def checkVersions (id : String) : Nat → List Event → Except Failure Unit
  | _, [] => .ok ()
  | current, e :: es =>
    if e.version = current + 1 then checkVersions id (current + 1) es
    else .error (.conflict id (current + 1) e.version)

/-- The store with a batch of events saved. -/
def save (s : EventStore) : List Event → Except Failure EventStore
  | [] => .error (.store "cannot save an empty batch")
  | e :: es => do
    if es.any fun x => x.aggregateId ≠ e.aggregateId then
      .error (.store ("batch for " ++ e.aggregateId ++ " contains events of other aggregates"))
    else
      checkVersions e.aggregateId (s.lastVersion e.aggregateId) (e :: es)
      .ok (s.adding ((e :: es).map Event.toRecord))

/-- The events of an aggregate with a version beyond `version`. -/
def loadAfter (s : EventStore) (id : String) (version : Nat) : Except Failure (List Event) :=
  EventRecord.toEvents ((s.stream id).filter fun r => version < r.version)

/-- The events of an aggregate. -/
def load (s : EventStore) (id : String) : Except Failure (List Event) :=
  s.loadAfter id 0

/-! ## Adding records -/

@[simp] theorem adding_nil (s : EventStore) : s.adding [] = s := rfl

theorem adding_append (s : EventStore) (rs rs' : List EventRecord) :
    s.adding (rs ++ rs') = (s.adding rs).adding rs' :=
  List.foldl_append

@[simp] theorem records_adding (s : EventStore) (rs : List EventRecord) :
    (s.adding rs).records = s.records ++ rs := by
  induction rs generalizing s with
  | nil => exact (List.append_nil _).symm
  | cons r rs ih =>
    have hadded : (s.adding (r :: rs)).records = (s.push r).records ++ rs := ih (s.push r)
    rw [hadded, records_push, List.append_assoc, List.singleton_append]

/-- Only those to whom records are added get a stream. -/
theorem mem_keys_adding {s : EventStore} {rs : List EventRecord} {id : String} :
    id ∈ (s.adding rs).keys ↔ id ∈ s.keys ∨ id ∈ rs.map EventRecord.aggregateId := by
  induction rs generalizing s with
  | nil => simp
  | cons r rs ih =>
    have hadded : id ∈ (s.adding (r :: rs)).keys ↔
        id ∈ (s.push r).keys ∨ id ∈ rs.map EventRecord.aggregateId := ih
    rw [hadded, keys_push, mem_keys_entry, or_assoc, List.map_cons, List.mem_cons]

@[simp] theorem records_ofRecords (rs : List EventRecord) :
    (ofRecords rs).records = rs.mergeSort fun a b => a.version ≤ b.version := by
  show (empty.adding rs).records.mergeSort _ = _
  rw [records_adding, empty, List.nil_append]

/-- A store starts with the streams of its records. -/
theorem mem_keys_ofRecords {rs : List EventRecord} {id : String} :
    id ∈ (ofRecords rs).keys ↔ id ∈ rs.map EventRecord.aggregateId :=
  mem_keys_adding.trans (or_iff_right (List.not_mem_nil))

/-- A stream that has begun begins once only. -/
theorem adding_entry (s : EventStore) (r : EventRecord) (rs : List EventRecord) :
    (s.entry r.aggregateId).adding (r :: rs) = s.adding (r :: rs) := by
  have hentry : (s.entry r.aggregateId).entry r.aggregateId = s.entry r.aggregateId :=
    dif_pos (mem_keys_entry.2 (.inr rfl))
  have hpush : (s.entry r.aggregateId).push r = s.push r :=
    ext_iff.2 ⟨by rw [keys_push, keys_push, hentry], by simp⟩
  rw [adding, adding, List.foldl_cons, List.foldl_cons, hpush]

/-! ## Streams -/

@[simp] theorem stream_empty (id : String) : empty.stream id = [] := rfl

theorem stream_adding (s : EventStore) (rs : List EventRecord) (id : String) :
    (s.adding rs).stream id = s.stream id ++ rs.filter fun r => r.aggregateId = id := by
  rw [stream, records_adding, List.filter_append, stream]

theorem stream_ne_nil_iff {s : EventStore} {id : String} :
    s.stream id ≠ [] ↔ id ∈ s.records.map EventRecord.aggregateId := by
  simp [stream]

/-- Only an aggregate with a stream has records. -/
theorem mem_keys_of_stream_ne_nil {s : EventStore} {id : String} (h : s.stream id ≠ []) :
    id ∈ s.keys := by
  obtain ⟨r, hr, rfl⟩ := List.mem_map.1 (stream_ne_nil_iff.1 h)
  exact s.covered r hr

/-- Versions that pass the check count up by one from `current`. -/
theorem checkVersions_eq_ok_iff {id : String} {current : Nat} {es : List Event} :
    checkVersions id current es = .ok () ↔
      es.map Event.version = List.range' (current + 1) es.length := by
  induction es generalizing current with
  | nil => simp [checkVersions]
  | cons e es ih =>
    by_cases h : e.version = current + 1
    · simp [checkVersions, h, ih, List.range'_succ]
    · simp [checkVersions, h, List.range'_succ]

end EventStore

end Loyalty
