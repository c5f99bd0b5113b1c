import Mathlib.Data.List.Induction
import Loyalty.Event.History
import Loyalty.EventStore

/-!
# What a store holds

A store that began empty and into which only events were saved holds the records of events. So
instead of the store we speak of the events, in the order in which they were saved:
`EventStore.holding es` is the store, and `History.ofUser id es` is the history of one user.

The check of the store makes every history *gapless*: its versions count up from 1. A history that
is gapless is loaded as it is, and its length is the version to follow. As a history is only ever
added to, two moments at which it has the same length are moments at which it is the same.

Main statement: what is saved continues the history of its user, which stays gapless.
-/

namespace Loyalty

namespace History

/-- The events of one user. -/
def ofUser (id : String) (es : List Event) : List Event :=
  es.filter fun e => e.aggregateId = id

/-- The history of a user grows by what of the new events is the user's. -/
theorem ofUser_append (id : String) (es fs : List Event) :
    ofUser id (es ++ fs) = ofUser id es ++ ofUser id fs :=
  List.filter_append ..

/-- A batch for one user belongs to the history of that user as a whole. -/
theorem ofUser_of_forall {id : String} {es : List Event} (h : ∀ e ∈ es, e.aggregateId = id) :
    ofUser id es = es :=
  List.filter_eq_self.2 fun e he => decide_eq_true (h e he)

/-- It does not touch the history of anybody else. -/
theorem ofUser_of_ne {id other : String} (hne : id ≠ other) {es : List Event}
    (h : ∀ e ∈ es, e.aggregateId = id) : ofUser other es = [] := by
  refine List.filter_eq_nil_iff.2 fun e he => ?_
  rw [h e he]
  simp [hne]

/-- One more event of a user is the last of the user's history. -/
theorem ofUser_concat_self (es : List Event) (e : Event) :
    ofUser e.aggregateId (es ++ [e]) = ofUser e.aggregateId es ++ [e] := by
  simp [ofUser]

/-- One more event leaves the histories of others as they are. -/
theorem ofUser_concat_of_ne {id : String} (es : List Event) {e : Event} (hid : id ≠ e.aggregateId) :
    ofUser id (es ++ [e]) = ofUser id es := by
  simp [ofUser, Ne.symm hid]

/-- The versions count up from 1. The store asks of each event that its version be the one after that of
the event before it, and this is what comes of it. -/
def Gapless (es : List Event) : Prop :=
  es.map Event.version = List.range' 1 es.length

/-- Nobody has a gap before the first event. -/
theorem gapless_nil : Gapless [] := rfl

/-- A history stays gapless when it is continued with the versions that follow. -/
theorem Gapless.append {es fs : List Event} (h : Gapless es)
    (hfs : fs.map Event.version = List.range' (es.length + 1) fs.length) :
    Gapless (es ++ fs) := by
  rw [Gapless, List.map_append, h, hfs, List.length_append, Nat.add_comm es.length 1,
    List.range'_append_1]

/-- Whatever a gapless history has come from was gapless. -/
theorem Gapless.of_append {es fs : List Event} (h : Gapless (es ++ fs)) : Gapless es := by
  rw [Gapless, List.map_append, List.length_append, ← List.range'_append_1] at h
  exact (List.append_inj h (by simp)).1

/-- The version of an event is its place in the history, counted from 1. -/
theorem Gapless.version_eq {es : List Event} (h : Gapless es) {i : Nat} {e : Event}
    (he : es[i]? = some e) : e.version = i + 1 := by
  obtain ⟨hlt, -⟩ := List.getElem?_eq_some_iff.1 he
  have hversion : (es.map Event.version)[i]? = some e.version := by
    rw [List.getElem?_map, he, Option.map_some]
  rw [h, List.getElem?_range' hlt] at hversion
  have := Option.some.inj hversion
  omega

/-- The versions of a gapless history do not go down. -/
theorem Gapless.pairwise {es : List Event} (h : Gapless es) :
    es.Pairwise fun a b => a.version ≤ b.version := by
  have hrange : (es.map Event.version).Pairwise (· ≤ ·) := by
    have hlt : (List.range' 1 es.length).Pairwise (· < ·) := List.pairwise_lt_range'
    rw [h]
    exact hlt.imp Nat.le_of_lt
  exact List.pairwise_map.1 hrange

/-- So a replay takes the events in the order in which they were saved. -/
theorem Gapless.sorted_eq {es : List Event} (h : Gapless es) : sorted es = es :=
  sorted_eq_self h.pairwise

/-- The events of a gapless history that lie beyond a version. -/
theorem Gapless.filter_version {es : List Event} (h : Gapless es) (version : Nat) :
    es.filter (fun e => version < e.version) = es.drop version := by
  -- The induction is from the end of the history: the last event has its length for a version.
  induction es using List.reverseRecOn with
  | nil => simp
  | append_singleton es e ih =>
    have hlast : (es ++ [e])[es.length]? = some e := List.getElem?_concat_length
    have hversion : e.version = es.length + 1 := h.version_eq hlast
    rw [List.filter_append, ih h.of_append]
    by_cases hle : version ≤ es.length
    · rw [List.drop_append_of_le_length hle, List.filter_cons_of_pos (by simp; omega),
        List.filter_nil]
    · rw [List.drop_eq_nil_of_le (by omega), List.drop_eq_nil_of_le (by simp; omega),
        List.filter_cons_of_neg (by simp; omega)]
      rfl

/-- The last version of a gapless history is its length. -/
theorem Gapless.lastVersion_eq {es : List Event} (h : Gapless es) :
    lastVersion es = es.length := by
  rcases List.eq_nil_or_concat es with rfl | ⟨es, e, rfl⟩
  · rfl
  · rw [List.concat_eq_append] at h ⊢
    have hlast : (es ++ [e])[es.length]? = some e := List.getElem?_concat_length
    rw [lastVersion, List.getLast?_append]
    simpa using h.version_eq hlast

end History

namespace EventRecord

/-- Every record that was made of an event is read back as this event; none is refused. -/
theorem toEvents_map_toRecord (es : List Event) : toEvents (es.map Event.toRecord) = .ok es := by
  induction es with
  | nil => rfl
  | cons e es ih =>
    rw [toEvents] at ih
    rw [toEvents, List.map_cons, List.mapM_cons, Event.toEvent_toRecord, ih]
    rfl

end EventRecord

namespace EventStore

open History

/-- The store that holds the given events, which were saved in this order. -/
def holding (es : List Event) : EventStore :=
  empty.adding (es.map Event.toRecord)

@[simp] theorem holding_nil : holding [] = empty := rfl

/-- The store that holds more events is the one to which their records were added. -/
theorem holding_append (es fs : List Event) :
    holding (es ++ fs) = (holding es).adding (fs.map Event.toRecord) := by
  rw [holding, List.map_append, adding_append, holding]

/-- Its records are those of the events, in the same order. -/
@[simp] theorem records_holding (es : List Event) :
    (holding es).records = es.map Event.toRecord :=
  records_adding empty _

/-- No event that was saved is missing. -/
theorem toRecord_mem_holding {es : List Event} {e : Event} (h : e ∈ es) :
    e.toRecord ∈ (holding es).records := by
  rw [records_holding]
  exact List.mem_map_of_mem h

/-- The stream of a user holds the user's history. -/
theorem stream_holding (es : List Event) (id : String) :
    (holding es).stream id = (ofUser id es).map Event.toRecord := by
  rw [stream, records_holding, ofUser, List.filter_map]
  rfl

/-- What is saved shows in the stream of a user if some of it is of the user. -/
theorem stream_holding_append_eq_iff {es fs : List Event} {id : String} :
    (holding (es ++ fs)).stream id = (holding es).stream id ↔ ofUser id fs = [] := by
  rw [stream_holding, stream_holding, ofUser_append, List.map_append, List.append_right_eq_self,
    List.map_eq_nil_iff]

/-- Of a gapless history the events beyond a version are loaded. -/
theorem loadAfter_of_stream {s : EventStore} {id : String} {es : List Event}
    (hs : s.stream id = es.map Event.toRecord) (h : Gapless es) (version : Nat) :
    s.loadAfter id version = .ok (es.drop version) := by
  have hbeyond : (es.map Event.toRecord).filter (fun r => version < r.version) =
      (es.drop version).map Event.toRecord := by
    rw [← h.filter_version, List.filter_map]
    rfl
  rw [loadAfter, hs, hbeyond, EventRecord.toEvents_map_toRecord]

/-- What is loaded of a user is the user's history beyond the version. -/
theorem loadAfter_holding {es : List Event} {id : String} (h : Gapless (ofUser id es))
    (version : Nat) : (holding es).loadAfter id version = .ok ((ofUser id es).drop version) :=
  loadAfter_of_stream (stream_holding es id) h version

/-- A gapless history is loaded as it is. -/
theorem load_holding {es : List Event} {id : String} (h : Gapless (ofUser id es)) :
    (holding es).load id = .ok (ofUser id es) :=
  loadAfter_holding h 0

/-- The version that the store asks to follow is the length of the history. -/
theorem lastVersion_holding {es : List Event} {id : String} (h : Gapless (ofUser id es)) :
    (holding es).lastVersion id = (ofUser id es).length := by
  rw [← h.lastVersion_eq, lastVersion, History.lastVersion, stream_holding, List.getLast?_map]
  cases (ofUser id es).getLast? <;> rfl

/-- What a save that succeeds has checked, and what it has done. -/
theorem save_eq_ok_iff {s s' : EventStore} {e : Event} {es : List Event} :
    s.save (e :: es) = .ok s' ↔
      (∀ x ∈ e :: es, x.aggregateId = e.aggregateId) ∧
        (e :: es).map Event.version =
          List.range' (s.lastVersion e.aggregateId + 1) (e :: es).length ∧
        s' = s.adding ((e :: es).map Event.toRecord) := by
  rw [← @checkVersions_eq_ok_iff e.aggregateId]
  -- The two checks come in the order of the store: first the ids, then the versions.
  by_cases hstray : es.any fun x => x.aggregateId ≠ e.aggregateId
  · have hne : ¬ ∀ x ∈ e :: es, x.aggregateId = e.aggregateId := by
      intro hall
      obtain ⟨x, hx, hid⟩ := List.any_eq_true.1 hstray
      exact (of_decide_eq_true hid) (hall x (List.mem_cons_of_mem e hx))
    simp only [save, if_pos hstray, hne, false_and]
    exact ⟨nofun, False.elim⟩
  · have hall : ∀ x ∈ e :: es, x.aggregateId = e.aggregateId := by
      simpa using hstray
    simp only [save, if_neg hstray]
    cases hcheck : checkVersions e.aggregateId (s.lastVersion e.aggregateId) (e :: es) with
    | error f => exact ⟨nofun, fun h => nomatch h.2.1⟩
    | ok u =>
      constructor
      · intro h
        cases h
        exact ⟨hall, rfl, rfl⟩
      · rintro ⟨-, -, rfl⟩
        rfl

/-- A batch of nothing is refused. -/
theorem save_nil (s : EventStore) : ∀ s', s.save [] ≠ .ok s' := by
  rintro s' ⟨⟩

/-- What is saved continues the history of its user, and all histories stay gapless. -/
theorem gapless_of_save {es fs : List Event} (h : ∀ id, Gapless (ofUser id es)) {s' : EventStore}
    (hs : (holding es).save fs = .ok s') :
    s' = holding (es ++ fs) ∧ ∀ id, Gapless (ofUser id (es ++ fs)) := by
  cases fs with
  | nil => exact absurd hs (save_nil _ s')
  | cons f fs =>
    obtain ⟨hids, hversions, rfl⟩ := save_eq_ok_iff.1 hs
    refine ⟨(holding_append es _).symm, fun id => ?_⟩
    rw [ofUser_append]
    -- All that was saved is of one user, so the other histories stay as they are.
    by_cases hid : f.aggregateId = id
    · subst hid
      rw [ofUser_of_forall hids]
      rw [lastVersion_holding (h _)] at hversions
      exact (h _).append hversions
    · rw [ofUser_of_ne hid hids, List.append_nil]
      exact h id

end EventStore

end Loyalty
