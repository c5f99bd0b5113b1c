import Loyalty.Proofs.Process.Composition
import Loyalty.Proofs.Simulation.Profiles

/-!
# A profile is the replay of a prefix

Events may be saved at any time, stored events may be delivered in any order and any number of
times, and a user may be caught up on at any time, all of it interleaved request by request; and any
operation of the store and of the read model may fail at any time, each time before it does
anything. Even so a profile is always the replay of the first events of its user, and the writes
that were taken in are those of these events, one each and in order.

What carries this is the version that a write bears. It is one more than that of the profile only
if the write is that of the very next event, whatever else happened since the profile was read. A
write that makes a profile has no such guard, but it needs that there is none, and nobody writes a
later event without having been shown one.

Main statement: in every state that can be reached every profile is a replay of a prefix.
-/

namespace Loyalty.Projection

open History Simulation

/-! ## One more write -/

/-- How a history, the writes that were taken in, and the profile of its user belong together. -/
inductive Projected (id : String) (es : List Event) : List Write → Option Profile → Prop where
  /-- nothing was written -/
  | absent : Projected id es [] none
  /-- the profile shows the replay of as many events as it has versions, and these were written -/
  | present {p : Profile} {u : User} {wrs : List Write} (hpos : 0 < p.version)
    (hle : p.version ≤ es.length) (hwritten : (es.take p.version).mapM writeFor = .ok wrs)
    (hu : User.ofHistory id (es.take p.version) = .ok u) (hshows : p.Shows u) :
    Projected id es wrs (some p)

/-- The history may grow. -/
theorem Projected.append {id : String} {es : List Event} {wrs : List Write}
    {row : Option Profile} (h : Projected id es wrs row) (later : List Event) :
    Projected id (es ++ later) wrs row := by
  cases h with
  | absent => exact .absent
  | present hpos hle hwritten hu hshows =>
    have htake : (es ++ later).take _ = es.take _ := List.take_append_of_le_length hle
    rw [← htake] at hwritten hu
    refine .present hpos ?_ hwritten hu hshows
    rw [List.length_append]
    omega

/-- A write that makes a profile of one that was there makes the next version. -/
theorem version_succ_of_makes {wr : Write} {now : Time.Timestamp} {p q : Profile}
    (h : wr.Makes now (some q) p) : p.version = q.version + 1 := by
  cases h with
  | amended hversion _ => exact hversion

/-- The write of an event of the history is taken in only if it is that of the next event. -/
theorem Projected.write {id : String} {es : List Event} {wrs : List Write} {row : Option Profile}
    (h : Projected id es wrs row) (hes : Gapless es) {e : Event} (he : e ∈ es)
    (hid : e.aggregateId = id) {wr : Write} (hwr : writeFor e = .ok wr)
    {now : Time.Timestamp} {p : Profile} (hp : wr.Makes now row p)
    (hfirst : row = none → e.version = 1) : Projected id es (wrs ++ [wr]) (some p) := by
  subst hid
  obtain ⟨i, hi⟩ := List.mem_iff_getElem?.1 he
  have hlt : i < es.length := (List.getElem?_eq_some_iff.1 hi).1
  have hevent : e.version = i + 1 := hes.version_eq hi
  have hversion : p.version = i + 1 := (version_of_makes hwr hp).trans hevent
  have htake : es.take (i + 1) = es.take i ++ [e] := by
    rw [List.take_add_one, hi, Option.toList_some]
  have hgapless : Gapless (es.take i ++ [e]) := by
    rw [← htake]
    rw [← List.take_append_drop (i + 1) es] at hes
    exact hes.of_append
  have hone : [e].mapM writeFor = .ok [wr] := by
    rw [List.mapM_cons, hwr]
    rfl
  cases h with
  | absent =>
    obtain rfl : i = 0 := Nat.succ.inj (hevent.symm.trans (hfirst rfl))
    obtain ⟨u, hu, hshows⟩ := Profile.shows_of_created hwr hp
    refine .present (by omega) (by omega) ?_ ?_ hshows
    · rw [hversion, htake, List.take_zero, List.nil_append, List.nil_append, hone]
    · rw [hversion, htake]
      exact (User.ofHistory_append_of_ok hgapless (User.ofHistory_nil _)).trans hu
  | @present q u _ hpos hle hwritten hu hshows =>
    obtain rfl : q.version = i := by
      have := version_succ_of_makes hp
      omega
    obtain ⟨v, hv, hshows'⟩ := hshows.of_makes hwr hp
    refine .present (by omega) (by omega) ?_ ?_ hshows'
    · rw [hversion, htake, List.mapM_append, hwritten, hone]
      rfl
    · rw [hversion, htake, User.ofHistory_append_of_ok hgapless hu]
      exact hv

/-! ## Who writes -/

/-- What may go on while events are projected. -/
inductive Job where
  /-- a batch of events is saved -/
  | save (es : List Event)
  /-- an event is delivered -/
  | handle (e : Event)
  /-- the projection catches up on a user -/
  | sync (id : String)

namespace Job

/-- What a job does. -/
def attempt : Job → Attempt Unit
  | save es => Attempt.save es
  | handle e => Projection.handle e
  | sync id => Projection.sync id

/-- A job as an activity. -/
def activity (t : Job) : Activity :=
  .ofAttempt t.attempt

/-- If the job is to deliver an event, it is one of these. -/
def Within (es : List Event) : Job → Prop
  | handle e => e ∈ es
  | _ => True

/-- The jobs that deliver none but these events, as parts of what is going on. -/
def part (es : List Event) (t : { t : Job // t.Within es }) : Calls Outcome :=
  t.1.attempt.run

theorem composed {es : List Event} {t : Job} (ht : t.Within es) :
    t.activity.Composed (part es) fun _ => False := by
  show Activity.Composed (part es) _ (Activity.ofCalls (part es ⟨t, ht⟩) .done)
  exact .part _ .done

end Job

theorem mem_ofUser_of_writeFor {es : List Event} {e : Event} (he : e ∈ es) {wr : Write}
    (hwr : writeFor e = .ok wr) : e ∈ ofUser wr.userId es :=
  List.mem_filter.2 ⟨he, decide_eq_true (userId_of_writeFor hwr).symm⟩

/-- The write is that of a stored event, which is the first of its user unless the user has been
shown to have a profile. -/
def Stores (log : Log) (wr : Write) : Prop :=
  ∃ e ∈ ofUser wr.userId log.saved, writeFor e = .ok wr ∧
    (e.version = 1 ∨ ∃ π x, (π, x) ∈ log ∧ x.ShowsProfile wr.userId)

/-- An event that is delivered has been stored. -/
theorem stores_of_delivered {log : Log} {e : Event} (he : e ∈ log.saved) {wr : Write}
    (hwr : writeFor e = .ok wr)
    (hfirst : e.version = 1 ∨ ∃ π x, (π, x) ∈ log ∧ x.ShowsProfile e.aggregateId) :
    Stores log wr := by
  refine ⟨e, mem_ofUser_of_writeFor he hwr, hwr, ?_⟩
  rwa [userId_of_writeFor hwr]

/-- Who catches up on a user writes events that were loaded. -/
theorem stores_of_loaded {log : Log} (ht : log.Truthful) {π : Place} {id : String} {current : Nat}
    {missing : List Event} (hload : (π, ⟨.loadAfter id current, .ok missing⟩) ∈ log) {e : Event}
    (he : e ∈ missing) {wr : Write} (hwr : writeFor e = .ok wr)
    (hfirst : (current = 0 ∧ ∃ rest, sorted missing = e :: rest) ∨
      ∃ π x, (π, x) ∈ log ∧ (x.ShowsProfile id ∨ ∃ e' ∈ missing, x.ShowsProfile e'.aggregateId)) :
    Stores log wr ∧ wr.userId = id := by
  obtain ⟨earlier, later, hhistory, hmissing⟩ := ht.loadedAfter hload
  have hofUser : ∀ x ∈ missing, x ∈ ofUser id log.saved := by
    intro x hx
    rw [hhistory]
    rw [hmissing] at hx
    exact List.mem_append_left _ (List.mem_of_mem_drop hx)
  have hids : ∀ x ∈ missing, x.aggregateId = id :=
    fun x hx => of_decide_eq_true (List.mem_filter.1 (hofUser x hx)).2
  refine ⟨stores_of_delivered (List.mem_filter.1 (hofUser e he)).1 hwr ?_,
    (userId_of_writeFor hwr).trans (hids e he)⟩
  rw [hids e he]
  rcases hfirst with ⟨rfl, rest, hsorted⟩ | ⟨ρ, x, hx, hshows⟩
  · -- Everything was loaded, so the first event of it is the first of the user.
    left
    have hearlier : Gapless earlier := (hhistory ▸ ht.gapless id).of_append
    rw [hmissing, List.drop_zero, hearlier.sorted_eq] at hsorted
    have hhead : earlier[0]? = some e := by
      rw [hsorted]
      rfl
    exact hearlier.version_eq hhead
  · refine .inr ⟨ρ, x, hx, ?_⟩
    rcases hshows with hshows | ⟨e', he', hshows⟩
    · exact hshows
    · exact hids e' he' ▸ hshows

/-- Whoever is about to write, writes a stored event, and has either been shown that its user has a
profile, or the event is the first. -/
theorem stores_of_sourced {log : Log} (ht : log.Truthful) {π : Place} {wr : Write}
    (h : Activity.Sourced (Job.part log.saved) (fun _ => False) (log.heardAt π) (.write wr)) :
    Stores log wr := by
  rcases h with hfree | ⟨⟨task, hwithin⟩, heard, k, hafter, hsuffix⟩
  · exact hfree.elim
  have hlog : ∀ x ∈ heard, (π, x) ∈ log :=
    fun x hx => Log.mem_of_mem_heardAt (hsuffix.subset hx)
  cases task with
  | save es =>
    rcases hafter.of_call with ⟨-, hcall⟩ | ⟨x, rest, -, hrest⟩
    · cases hcall
    · cases hrest.of_done.2
  | handle e =>
    obtain ⟨hwr, hfirst⟩ := heard_of_handle_write hafter
    refine stores_of_delivered hwithin hwr (hfirst.imp_right ?_)
    rintro ⟨x, hx, hshows⟩
    exact ⟨π, x, hlog x hx, hshows⟩
  | sync id =>
    obtain ⟨current, missing, e, hload, he, hwr, hfirst⟩ := heard_of_sync_write hafter
    refine (stores_of_loaded ht (hlog _ hload) he hwr (hfirst.imp_right ?_)).1
    rintro ⟨x, hx, hshows⟩
    exact ⟨π, x, hlog x hx, hshows⟩

/-! ## All profiles -/

/-- The read model of a pool is in step with the log: who was shown to have a profile has one, and
every profile is what the log says. -/
structure InStep (P : Pool World) : Prop where
  /-- profiles that were shown are there -/
  known : ∀ π x id, (π, x) ∈ P.log → x.ShowsProfile id →
    ∃ p, P.state.readModel.find? id = some p
  /-- profiles are replays of prefixes -/
  projected : ∀ id, Projected id (ofUser id P.log.saved) (P.log.writtenTo id)
    (P.state.readModel.find? id)

/-- A write of a stored event was taken in. -/
theorem InStep.projected_write {P : Pool World} (h : InStep P) (ht : P.log.Truthful) {wr : Write}
    {now : Time.Timestamp} {m : ReadModel} (hwrite : P.state.readModel.write now wr = .ok m)
    (hstores : Stores P.log wr) (id : String) :
    Projected id (ofUser id P.log.saved)
      (P.log.writtenTo id ++ (Exchange.written ⟨.write wr, .ok ()⟩).filter fun wr' => wr'.userId = id)
      (m.find? id) := by
  have hprojected := h.projected id
  obtain ⟨e, he, hwr, hfirst⟩ := hstores
  obtain ⟨p, hp, hfind⟩ := ReadModel.makes_of_write hwrite
  rw [hfind id]
  by_cases hid : id = wr.userId
  · subst hid
    have hwritten : (Exchange.written ⟨.write wr, .ok ()⟩).filter
        (fun wr' => wr'.userId = wr.userId) = [wr] := by
      simp [Exchange.written]
    rw [if_pos rfl, hwritten]
    refine hprojected.write (ht.gapless _) he (userId_of_writeFor hwr).symm hwr hp ?_
    intro hnone
    rcases hfirst with hversion | ⟨π, y, hy, hshows⟩
    · exact hversion
    · obtain ⟨q, hq⟩ := h.known π y _ hy hshows
      cases hq.symm.trans hnone
  · have hwritten : (Exchange.written ⟨.write wr, .ok ()⟩).filter
        (fun wr' => wr'.userId = id) = [] := by
      simp [Exchange.written, Ne.symm hid]
    rw [if_neg hid, hwritten, List.append_nil]
    exact hprojected

/-- A request was answered. -/
theorem InStep.answered {P Q : Pool World} (h : InStep P) {π : Place} {x : Exchange}
    (hlog : Q.log = P.log ++ [(π, x)])
    (hmodel : P.state.readModel.Becomes x Q.state.readModel) (ht : P.log.Truthful)
    (hstores : ∀ wr, x.request = .write wr → Stores P.log wr) : InStep Q := by
  refine ⟨fun ρ y id hy hshows => ?_, fun id => ?_⟩
  · rw [hlog] at hy
    rcases List.mem_append.1 hy with hy | hy
    · exact hmodel.known (.inl (h.known ρ y id hy hshows))
    · cases List.mem_singleton.1 hy
      exact hmodel.known (.inr hshows)
  rw [hlog, Log.saved_append, Log.saved_singleton, ofUser_append, Log.writtenTo_append,
    Log.writtenTo_singleton]
  generalize Q.state.readModel = m' at hmodel
  cases hmodel with
  | same hx _ =>
    rw [hx, List.filter_nil, List.append_nil]
    exact (h.projected id).append _
  | @wrote wr now _ hwrite =>
    have hnothing : ofUser id (Exchange.saved ⟨.write wr, .ok ()⟩) = [] := rfl
    rw [hnothing, List.append_nil]
    exact h.projected_write ht hwrite (hstores wr rfl) id

theorem inStep_empty {w : World} (hw : w.readModel = .empty) : InStep (.empty w) := by
  refine ⟨fun π x id hx => absurd hx List.not_mem_nil, fun id => ?_⟩
  show Projected id [] [] (w.readModel.find? id)
  rw [hw]
  exact .absent

/-- A move was made, and if it was a write it was that of a stored event. -/
theorem InStep.moved {P Q : Pool World} (h : InStep P) (hmoved : Pool.Moved World.surroundings P Q)
    (ht : P.log.Truthful)
    (hstores : ∀ π wr y, Q.log = P.log ++ [(π, ⟨.write wr, y⟩)] → Stores P.log wr) : InStep Q := by
  cases hmoved with
  | silent hstate hlog | passed _ hstate hlog =>
    refine ⟨fun π x id hx => ?_, fun id => ?_⟩
    · rw [hlog] at hx
      rw [hstate]
      exact h.known π x id hx
    · rw [hlog, hstate]
      exact h.projected id
  | answered π r hstate hlog =>
    refine h.answered hlog ?_ ht fun wr hr => ?_
    · rw [hstate]
      exact World.becomes_answer _ r
    · obtain rfl : r = .write wr := hr
      exact hstores π wr _ hlog

/-! ## Runs -/

/-- If a move starts the delivery of an event, the event is stored. -/
def DeliversStored (s : EventStore) : Move Job → Prop
  | .start (.handle e) => e.toRecord ∈ s.records
  | _ => True

instance (s : EventStore) : DecidablePred (DeliversStored s)
  | .start (.handle e) => inferInstanceAs (Decidable (e.toRecord ∈ s.records))
  | .start (.save _) | .start (.sync _) | .go .. | .pass _ => inferInstanceAs (Decidable True)

/-- The pool after the given moves. -/
def after (P : Pool World) (moves : List (Move Job)) : Pool World :=
  P.run World.surroundings Job.activity moves

/-- In a list of moves no event is delivered before it is stored. -/
def OnlyStored : Pool World → List (Move Job) → Prop
  | _, [] => True
  | P, move :: moves => DeliversStored P.state.store move ∧ OnlyStored (after P [move]) moves

instance decidableOnlyStored : (P : Pool World) → DecidablePred (OnlyStored P)
  | _, [] => inferInstanceAs (Decidable True)
  | P, move :: moves =>
    have := decidableOnlyStored (after P [move]) moves
    inferInstanceAs (Decidable (DeliversStored P.state.store move ∧ _))

/-- Nothing was stored and nothing was written. -/
def start (w : World) : Pool World :=
  .empty { w with store := .empty, readModel := .empty }

theorem onlyStored_append {P : Pool World} {moves more : List (Move Job)} :
    OnlyStored P (moves ++ more) ↔ OnlyStored P moves ∧ OnlyStored (after P moves) more := by
  induction moves generalizing P with
  | nil => exact ⟨fun h => ⟨True.intro, h⟩, fun h => h.2⟩
  | cons move moves ih => exact ⟨fun h => ⟨⟨h.1, (ih.1 h.2).1⟩, (ih.1 h.2).2⟩,
      fun h => ⟨h.1.1, ih.2 ⟨h.1.2, h.2⟩⟩⟩

theorem after_append (P : Pool World) (moves more : List (Move Job)) :
    after P (moves ++ more) = after (after P moves) more :=
  List.foldl_append

theorem faithful_after {P : Pool World} (hP : P.Faithful) (moves : List (Move Job)) :
    (after P moves).Faithful :=
  hP.run Job.activity moves

/-- What was delivered is among what is saved in the end. -/
theorem within_of_onlyStored {P : Pool World} (hP : P.Faithful) {moves : List (Move Job)}
    (h : OnlyStored P moves) {t : Job} (ht : Move.start t ∈ moves) :
    t.Within (after P moves).log.saved := by
  cases t with
  | save es => exact True.intro
  | sync id => exact True.intro
  | handle e =>
    obtain ⟨before, rest, rfl⟩ := List.append_of_mem ht
    have hstored : e.toRecord ∈ (after P before).state.store.records :=
      (onlyStored_append.1 h).2.1
    rw [(faithful_after hP before).store_eq, EventStore.records_holding] at hstored
    obtain ⟨e', he', hrecord⟩ := List.mem_map.1 hstored
    -- An event can be read off its record.
    have hread : (Except.ok e' : Except Failure Event) = .ok e := by
      rw [← Event.toEvent_toRecord, hrecord, Event.toEvent_toRecord]
    cases hread
    obtain ⟨later, hlater⟩ := Pool.log_run World.surroundings Job.activity (after P before)
      (.start (.handle e) :: rest)
    rw [after_append, after, ← hlater, Log.saved_append]
    exact List.mem_append_left _ he'

/-- It is known who asks. -/
theorem accounted_after {w : World} {moves : List (Move Job)} (h : OnlyStored (start w) moves) :
    (after (start w) moves).log.Accounted (Job.part (after (start w) moves).log.saved)
      fun _ => False := by
  have hcomposed : ∀ t, Move.start t ∈ moves →
      t.activity.Composed (Job.part (after (start w) moves).log.saved) fun _ => False := by
    intro t ht
    exact Job.composed (within_of_onlyStored (Pool.faithful_empty rfl) h ht)
  exact ((Pool.woven_empty _).run World.surroundings moves hcomposed).accounted

/-- Whatever moves are made, the read model is in step with the log. -/
theorem inStep_after {w : World} {moves : List (Move Job)} (h : OnlyStored (start w) moves) :
    InStep (after (start w) moves) := by
  -- The induction is from the end of the run; each time the whole run tells who asked last.
  induction moves using List.reverseRecOn with
  | nil => exact inStep_empty rfl
  | append_singleton moves move ih =>
    have hbefore : InStep (after (start w) moves) := ih (onlyStored_append.1 h).1
    have htruthful : (after (start w) moves).log.Truthful :=
      (faithful_after (Pool.faithful_empty rfl) _).truthful
    have haccounted := accounted_after h
    have hmoved : Pool.Moved World.surroundings (after (start w) moves)
        (after (start w) (moves ++ [move])) := by
      rw [after_append]
      exact Pool.moved_step _ _ _ move
    refine hbefore.moved hmoved htruthful fun π wr y hlog => ?_
    -- Nothing was saved, so the events are those of the moment before.
    have hsaved : (after (start w) (moves ++ [move])).log.saved = (after (start w) moves).log.saved := by
      rw [hlog, Log.saved_append, Log.saved_singleton]
      exact List.append_nil _
    rw [hsaved, hlog] at haccounted
    exact stores_of_sourced htruthful haccounted.of_concat.2

/-- **A profile is the replay of a prefix.** In every state that can be reached by saving, by
delivering stored events and by catching up, in whatever order and with whatever failures, a profile
of a version shows the user to whom so many of the first stored events replay; and the writes to it
that were taken in are those of these events, each once and in order. -/
theorem profile_shows_replay (w : World) (moves : List (Move Job))
    (hstored : OnlyStored (start w) moves) (id : String) :
    ∃ es : List Event, (after (start w) moves).state.store.stream id = es.map Event.toRecord ∧
      match (after (start w) moves).state.readModel.find? id with
      | none => (after (start w) moves).log.writtenTo id = []
      | some p =>
        0 < p.version ∧ p.version ≤ es.length ∧
          (∃ u, User.ofHistory id (es.take p.version) = .ok u ∧ p.Shows u) ∧
          (es.take p.version).mapM writeFor =
            .ok ((after (start w) moves).log.writtenTo id) := by
  have hfaithful : (after (start w) moves).Faithful := faithful_after (Pool.faithful_empty rfl) _
  refine ⟨ofUser id (after (start w) moves).log.saved, ?_, ?_⟩
  · rw [hfaithful.store_eq, EventStore.stream_holding]
  · have hprojected := (inStep_after hstored).projected id
    generalize (after (start w) moves).log.writtenTo id = wrs at hprojected ⊢
    generalize (after (start w) moves).state.readModel.find? id = row at hprojected ⊢
    cases hprojected with
    | absent => rfl
    | present hpos hle hwritten hu hshows => exact ⟨hpos, hle, ⟨_, hu, hshows⟩, hwritten⟩

/-- The sign-up of a user. -/
def signedUp : Event :=
  .ofChange "kim" 1 (.created ⟨"kim", "kim@example.org", "KIM", none⟩) (Supply.standard.time 0)

/-- The user is given points. -/
def gained : Event :=
  .ofChange "kim" 2 (.pointsEarned 5) (Supply.standard.time 1)

/-- The sign-up is delivered while the projection catches up on the user, and both find no profile
before either writes. Then the user is given points. -/
def overtakenDelivery : List (Move Job) :=
  [.start (.save [signedUp]), .go 0 [], .start (.handle signedUp), .start (.sync "kim"),
    .go 1 [], .go 2 [], .go 2 [], .go 1 [], .go 2 [],
    .start (.save [gained]), .go 3 [], .start (.handle gained), .go 4 [], .go 4 []]

/-- The projection finds that it was overtaken, and the profile is that of both events. -/
theorem overtakenDelivery_shows_replay :
    OnlyStored (start {}) overtakenDelivery ∧
      (((after (start {}) overtakenDelivery).state.readModel.find? "kim").map fun p =>
        (p.version, p.points)) = some (2, 5) ∧
      ∃ es : List Event, (after (start {}) overtakenDelivery).state.store.stream "kim" =
          es.map Event.toRecord ∧
        match (after (start {}) overtakenDelivery).state.readModel.find? "kim" with
        | none => (after (start {}) overtakenDelivery).log.writtenTo "kim" = []
        | some p =>
          0 < p.version ∧ p.version ≤ es.length ∧
            (∃ u, User.ofHistory "kim" (es.take p.version) = .ok u ∧ p.Shows u) ∧
            (es.take p.version).mapM writeFor =
              .ok ((after (start {}) overtakenDelivery).log.writtenTo "kim") := by
  have hstored : OnlyStored (start {}) overtakenDelivery := by decide +kernel
  exact ⟨hstored, by decide +kernel, profile_shows_replay {} overtakenDelivery hstored "kim"⟩

end Loyalty.Projection
