import Loyalty.Proofs.ReadModel.Dating
import Loyalty.Proofs.ReadModel.Resuming

/-!
# The same history at other times

A history can be brought into the read model in many ways: event by event as it is stored, or all at
once later on, in part by deliveries and in part by catching up, with failures in between, and at any
time. The writes are the same each time, one for each event and in order; only the clock differs. So
what comes of it is drawn of the history, by whatever clock there was.

How much of the clock there is in a profile depends on the history. Where a referral is completed, or
where points come last, it shows. Where nothing of it shows, every way leads to the same profile, and
the dates in it are those of the user if leaving was told at the time at which it happened.

Main statement: which dates profiles have, and for which histories they are those of the user.
-/

namespace Loyalty

open Time

namespace EventRecord

/-- Events can be told by their records. -/
theorem eq_of_map_toRecord {es fs : List Event} (h : es.map Event.toRecord = fs.map Event.toRecord) :
    es = fs :=
  Except.ok.inj ((toEvents_map_toRecord es).symm.trans (h ▸ toEvents_map_toRecord fs))

end EventRecord

/-- What can be saved is saved when nothing fails. -/
theorem Simulation.World.save_of_ok {w : World} (hw : w.FaultFree) {es : List Event} {s : EventStore}
    (hs : w.store.save es = .ok s) :
    w.save es = (.ok (), ({ w.note (.saving es) with store := s } : World).note (.saved es)) := by
  rw [save_of_no_fault (hw _), hs]

/-- A member who makes nothing but requests can come to its end by going on as often as it needs. -/
theorem Pool.exists_go_ofCalls {σ ι : Type} {s : Surroundings σ} {launch : ι → Activity} {i : Nat}
    {m : Calls Outcome} {P : Pool σ} (hi : P.members[i]? = some (.ofCalls m .done)) :
    ∃ n, (P.run s launch (List.replicate n (.go i []))).state = (m.run s P.state).2 := by
  induction m generalizing P with
  | done o => exact ⟨0, rfl⟩
  | call r k ih =>
    have hlt : i < P.members.length := (List.getElem?_eq_some_iff.1 hi).1
    have hstep : P.step s launch (.go i []) = P.took i
        ⟨.ofCalls (k (s.answer r P.state).1) .done, (s.answer r P.state).2,
          some ([], ⟨r, (s.answer r P.state).1⟩)⟩ := by
      rw [step, hi]
      rfl
    have hnext : (P.step s launch (.go i [])).members[i]? =
        some (.ofCalls (k (s.answer r P.state).1) .done) := by
      rw [hstep]
      exact List.getElem?_set_self hlt
    obtain ⟨n, hn⟩ := ih _ hnext
    refine ⟨n + 1, ?_⟩
    rw [List.replicate_succ, run, List.foldl_cons]
    refine hn.trans ?_
    rw [hstep]
    rfl

namespace Projection

open History Simulation

/-! ## Every profile is drawn by the clock -/

/-- The last event has the last write. -/
theorem of_mapM_writeFor_concat {es : List Event} {e : Event} {all : List Write}
    (h : (es ++ [e]).mapM writeFor = .ok all) :
    ∃ wrs wr, all = wrs ++ [wr] ∧ es.mapM writeFor = .ok wrs ∧ writeFor e = .ok wr := by
  rw [List.mapM_append] at h
  obtain ⟨wrs, hes, h⟩ := eq_ok_of_bind h
  obtain ⟨last, he, h⟩ := eq_ok_of_bind h
  rw [List.mapM_cons] at he
  obtain ⟨wr, hwr, he⟩ := eq_ok_of_bind he
  cases he
  cases h
  exact ⟨wrs, wr, rfl, hes, hwr⟩

/-- All writes of a pool were made by one clock: of whichever events they are, the profile was drawn of
these at times that the clock has shown. -/
structure Timed (clock : Nat → Timestamp) (P : Pool World) : Prop where
  /-- the clock -/
  time_eq : P.state.supply.time = clock
  /-- what is drawn -/
  drawn : ∀ id, ∃ ns : List Nat, ∀ es, es.mapM writeFor = .ok (P.log.writtenTo id) →
    Drawn es (ns.map clock) (P.state.readModel.find? id)

namespace Timed

variable {clock : Nat → Timestamp} {P Q : Pool World}

/-- Nothing was written. -/
theorem of_same (h : Timed clock P) (htime : Q.state.supply = P.state.supply)
    (hmodel : Q.state.readModel = P.state.readModel)
    (hlog : ∀ id, Q.log.writtenTo id = P.log.writtenTo id) : Timed clock Q := by
  refine ⟨(congrArg Supply.time htime).trans h.time_eq, fun id => ?_⟩
  rw [hlog, hmodel]
  exact h.drawn id

/-- A write was taken in, at a time that the clock shows. -/
theorem of_write (h : Timed clock P) (htime : Q.state.supply = P.state.supply) {π : Place}
    {wr : Write} (hlog : Q.log = P.log ++ [(π, ⟨.write wr, .ok ()⟩)])
    (hwrite : P.state.readModel.write (P.state.supply.time P.state.readings) wr =
      .ok Q.state.readModel) : Timed clock Q := by
  obtain ⟨p, hp, hfind⟩ := ReadModel.makes_of_write hwrite
  refine ⟨(congrArg Supply.time htime).trans h.time_eq, fun id => ?_⟩
  obtain ⟨ns, hns⟩ := h.drawn id
  rw [hfind, hlog, Log.writtenTo_append, Log.writtenTo_singleton]
  by_cases hid : id = wr.userId
  · subst hid
    have hwritten : (Exchange.written ⟨.write wr, .ok ()⟩).filter
        (fun wr' => wr'.userId = wr.userId) = [wr] := by
      simp [Exchange.written]
    rw [if_pos rfl, hwritten]
    refine ⟨ns ++ [P.state.readings], fun es hes => ?_⟩
    rcases List.eq_nil_or_concat es with rfl | ⟨fs, e, rfl⟩
    · simp [pure, Except.pure] at hes
    rw [List.concat_eq_append] at hes ⊢
    obtain ⟨wrs, last, hall, hfs, hwr⟩ := of_mapM_writeFor_concat hes
    obtain ⟨rfl, hlast⟩ := List.append_inj' hall rfl
    cases hlast
    rw [List.map_append]
    rw [h.time_eq] at hp
    exact (hns fs hfs).event hwr hp
  · have hwritten : (Exchange.written ⟨.write wr, .ok ()⟩).filter
        (fun wr' => wr'.userId = id) = [] := by
      simp [Exchange.written, Ne.symm hid]
    rw [if_neg hid, hwritten, List.append_nil]
    exact ⟨ns, hns⟩

theorem moved (h : Timed clock P) (hmoved : Pool.Moved World.surroundings P Q) : Timed clock Q := by
  cases hmoved with
  | silent hstate hlog =>
    exact h.of_same (by rw [hstate]) (by rw [hstate]) fun id => by rw [hlog]
  | passed nanos hstate hlog =>
    exact h.of_same (by rw [hstate]; rfl) (by rw [hstate]; rfl) fun id => by rw [hlog]
  | answered π r hstate hlog =>
    have htime : Q.state.supply = P.state.supply := by
      rw [hstate]
      exact (World.onward_answer P.state r).supply_eq
    rcases Exchange.written_eq ⟨r, (P.state.answer r).1⟩ with hnone | ⟨wr, hx⟩
    · have hmodel : (P.state.answer r).2.readModel = P.state.readModel := by
        refine World.readModel_of_hears ((Surroundings.Hears.start P.state).answered r) fun x hx => ?_
        obtain rfl := List.mem_singleton.1 hx
        exact hnone
      refine h.of_same htime (by rw [hstate]; exact hmodel) fun id => ?_
      rw [hlog, Log.writtenTo_append, Log.writtenTo_singleton]
      exact (congrArg (_ ++ ·) (congrArg _ hnone)).trans (List.append_nil _)
    · obtain rfl : r = .write wr := congrArg Exchange.request hx
      have hok : (P.state.write wr).1 = .ok () := by
        injection hx
      have hQ : (P.state.write wr).2 = Q.state := hstate.symm
      have hentry : Q.log = P.log ++ [(π, ⟨.write wr, .ok ()⟩)] :=
        hlog.trans (congrArg (fun x => P.log ++ [(π, x)]) hx)
      have hwrote := World.wrote_write P.state wr
      generalize P.state.write wr = result at hwrote hok hQ
      cases hwrote with
      | failed => cases hok
      | takenIn _ _ hwrite =>
        subst hQ
        exact h.of_write htime hentry hwrite

end Timed

/-- All moves keep to the clock. -/
theorem timed_after (w : World) (moves : List (Move Job)) :
    Timed w.supply.time (after (start w) moves) := by
  induction moves using List.reverseRecOn with
  | nil =>
    refine ⟨rfl, fun id => ⟨[], fun es hes => ?_⟩⟩
    rcases List.eq_nil_or_concat es with rfl | ⟨fs, e, rfl⟩
    · exact .nothing
    · rw [List.concat_eq_append] at hes
      obtain ⟨wrs, wr, hnone, -⟩ := of_mapM_writeFor_concat hes
      exact absurd hnone.symm (List.append_ne_nil_of_right_ne_nil _ (List.cons_ne_nil _ _))
  | append_singleton moves move ih =>
    rw [after_append]
    exact ih.moved (Pool.moved_step World.surroundings Job.activity _ move)

/-! ## Ways of bringing a history into the read model -/

/-- By a clock this profile has come of a history: the history was stored somehow and projected somehow,
and all of it has been taken in. -/
def Brought (clock : Nat → Timestamp) (id : String) (es : List Event) (p : Profile) : Prop :=
  ∃ (w : World) (moves : List (Move Job)), w.supply.time = clock ∧ OnlyStored (start w) moves ∧
    (after (start w) moves).state.store.stream id = es.map Event.toRecord ∧
    (after (start w) moves).state.readModel.find? id = some p ∧ p.version = es.length

/-- Whatever way it was, the profile was drawn of the history. -/
theorem Brought.drawn {clock : Nat → Timestamp} {id : String} {es : List Event} {p : Profile}
    (h : Brought clock id es p) : ∃ ns : List Nat, Drawn es (ns.map clock) (some p) := by
  obtain ⟨w, moves, rfl, hstored, hstream, hrow, hversion⟩ := h
  have hfaithful := faithful_after (Pool.faithful_empty (w := { w with
    store := .empty, readModel := .empty }) rfl) moves
  have hsaved : ofUser id (after (start w) moves).log.saved = es := by
    have hrecords := hstream
    rw [show (after (start w) moves).state.store = _ from hfaithful.store_eq,
      EventStore.stream_holding] at hrecords
    exact EventRecord.eq_of_map_toRecord hrecords
  have hprojected := (inStep_after hstored).projected id
  obtain ⟨ns, hns⟩ := (timed_after w moves).drawn id
  rw [hsaved, hrow] at hprojected
  rw [hrow] at hns
  generalize (after (start w) moves).log.writtenTo id = wrs at hprojected hns
  cases hprojected with
  | present _ _ hwritten _ _ =>
    rw [hversion, List.take_length] at hwritten
    exact ⟨ns, hns es hwritten⟩

theorem onlyStored_replicate_go (P : Pool World) (n i : Nat) (π : Place) :
    OnlyStored P (List.replicate n (.go i π)) := by
  induction n generalizing P with
  | zero => exact True.intro
  | succ n ih => exact ⟨True.intro, ih _⟩

/-- Any job can be done without interruption. -/
theorem exists_moves (P : Pool World) {t : Job} (ht : DeliversStored P.state.store (.start t)) :
    ∃ moves, OnlyStored P moves ∧ (after P moves).state = (World.attempt t.attempt P.state).2 := by
  have hmember : (P.members ++ [t.activity])[P.members.length]? =
      some (.ofCalls t.attempt.run .done) := List.getElem?_concat_length
  have hrun : ∃ n, (after { P with members := P.members ++ [t.activity] }
      (List.replicate n (.go P.members.length []))).state = (World.attempt t.attempt P.state).2 :=
    Pool.exists_go_ofCalls hmember
  obtain ⟨n, hn⟩ := hrun
  exact ⟨.start t :: List.replicate n (.go P.members.length []),
    ⟨ht, onlyStored_replicate_go _ _ _ _⟩, hn⟩

/-- A history can be saved where nothing is stored. -/
theorem save_eq_holding {id : String} {es : List Event} (hes : Projectable id es) (hne : es ≠ []) :
    EventStore.empty.save es = .ok (.holding es) := by
  obtain ⟨e, rest, rfl⟩ := List.exists_cons_of_ne_nil hne
  refine EventStore.save_eq_ok_iff.2 ⟨fun x hx => ?_, hes.gapless, rfl⟩
  rw [hes.aggregateId_eq x hx, hes.aggregateId_eq e List.mem_cons_self]

/-- By every clock a history can be stored, with nothing projected yet. -/
theorem exists_saved {id : String} {es : List Event} (hes : Projectable id es) (hne : es ≠ [])
    (clock : Nat → Timestamp) :
    ∃ (w : World) (moves : List (Move Job)), w.supply.time = clock ∧ OnlyStored (start w) moves ∧
      (after (start w) moves).state.FaultFree ∧
      (after (start w) moves).state.store.stream id = es.map Event.toRecord ∧
      (after (start w) moves).state.readModel.find? id = none := by
  let w : World := { supply := { Supply.standard with time := clock } }
  have hw : w.FaultFree := fun _ => rfl
  obtain ⟨moves, hmoves, hsaved⟩ := exists_moves (start w) (t := .save es) True.intro
  have hsave : World.attempt (Attempt.save es) w = _ :=
    World.save_of_ok hw (save_eq_holding hes hne)
  have hstate : (after (start w) moves).state = _ := hsaved.trans (congrArg Prod.snd hsave)
  refine ⟨w, moves, rfl, hmoves, ?_, ?_, ?_⟩
  · rw [hstate]
    exact hw
  · rw [hstate]
    refine (EventStore.stream_holding es id).trans ?_
    rw [ofUser_of_forall hes.aggregateId_eq]
  · rw [hstate]
    rfl

/-- Every history can be brought into the read model by every clock. -/
theorem exists_brought {id : String} {es : List Event} (hes : Projectable id es) (hne : es ≠ [])
    (clock : Nat → Timestamp) : ∃ p, Brought clock id es p := by
  obtain ⟨w, saving, hclock, hsaving, hfaults, hstream, hnobody⟩ := exists_saved hes hne clock
  obtain ⟨syncing, hsyncing, hsynced⟩ := exists_moves (after (start w) saving) (t := .sync id) True.intro
  have hnothing : Drawn (es.take 0) [] ((after (start w) saving).state.readModel.find? id) := by
    rw [hnobody]
    exact .nothing
  have hprogress := World.progress_sync hes (Nat.zero_le _) hstream hnothing
  obtain ⟨hok, -⟩ := hprogress.undisturbed hfaults
  obtain ⟨j, ts, -, -, hdrawn, hall⟩ := hprogress.drawn
  rw [hall hok, List.take_length] at hdrawn
  rcases hdrawn.shows hes with ⟨hnil, -⟩ | ⟨p, u, hp, hversion, -⟩
  · exact absurd hnil hne
  refine ⟨p, w, saving ++ syncing, hclock, onlyStored_append.2 ⟨hsaving, hsyncing⟩, ?_, ?_, hversion⟩
  · rw [after_append, hsynced]
    exact (congrArg (EventStore.stream · id) hprogress.store_eq).trans hstream
  · rw [after_append, hsynced]
    exact hp

/-! ## Whether the times of writing show -/

/-- Who left by the last event did so at the time of the event. -/
def LeftOnTime (es : List Event) : Prop :=
  ∀ e deletedAt, es.getLast? = some e → e.decode = .ok (.deleted deletedAt) → deletedAt = e.eventAt

/-- What a user is dated by. -/
theorem dates_of_ofHistory {id : String} {es : List Event} (hes : Gapless es) {u : User}
    (hu : User.ofHistory id es = .ok u) :
    u.updatedAt = es.getLast?.map Event.eventAt ∧ User.Refer u.referrals (facts es) := by
  rw [User.ofHistory_of_gapless _ hes] at hu
  have hmeans : u.Means id es := (User.applyInOrder_means id es).2 u hu
  exact ⟨hmeans.updatedAt_eq, hmeans.told.referrals⟩

namespace Drawn

variable {id : String} {es : List Event} {ts : List Timestamp} {p : Profile} {u : User}

/-- Where the times of writing do not show, the dates are those of the user. -/
theorem dates_eq (h : Drawn es ts (some p)) (hes : Projectable id es)
    (hu : User.ofHistory id es = .ok u) (ht : Timeless es) (hleft : LeftOnTime es) :
    some p.updatedAt = u.updatedAt ∧ p.referrals = u.referrals := by
  obtain ⟨hupdated, hreferrals⟩ := dates_of_ofHistory hes.gapless hu
  refine ⟨?_, ?_⟩
  · rcases List.eq_nil_or_concat es with rfl | ⟨before, e, rfl⟩
    · cases h.of_nil.2
    rw [List.concat_eq_append] at h hes ht hleft hupdated
    obtain ⟨-, -, -, _, _, -, happly, -⟩ := hes.of_concat
    obtain ⟨c, -, hc, -⟩ := User.applyEvent_eq_ok_iff.1 happly
    rw [h.updatedAt_of_timeless ht hc, hupdated, List.getLast?_concat, Option.map_some]
    cases c with
    | deleted t => exact congrArg some (hleft e t List.getLast?_concat hc)
    | created | referralCreated => rfl
    | referralCompleted =>
      exact absurd (Event.type_of_decode hc).symm (ht.completed e (by simp))
    | pointsEarned => exact absurd (Event.type_of_decode hc).symm (ht.last e List.getLast?_concat)
  · have hp := h.refer
    rw [h.noticed_eq_facts ht.completed] at hp
    exact hp.unique hreferrals

/-- A profile that is dated like the user who left says that this was on time. -/
theorem leftOnTime (h : Drawn es ts (some p)) (hes : Projectable id es)
    (hu : User.ofHistory id es = .ok u) (hdate : some p.updatedAt = u.updatedAt) :
    LeftOnTime es := by
  intro e t he hc
  rw [(dates_of_ofHistory hes.gapless hu).1, he, Option.map_some] at hdate
  obtain ⟨before, rfl⟩ := List.getLast?_eq_some_iff.1 he
  obtain ⟨_, _, _, _, q, -, hq, -, hwr, hp⟩ := h.of_concat
  obtain rfl := Option.some.inj hq
  obtain ⟨c, hc', rfl⟩ := writeFor_eq_ok_iff.1 hwr
  cases hc.symm.trans hc'
  exact Option.some.inj ((updatedAt_of_makes hp).symm.trans hdate)

end Drawn

/-- If the dates are the same by all clocks, then the times of writing do not show. -/
theorem timeless_of_brought (updatedAt : Timestamp) (dates : List Timestamp) {id : String}
    {es : List Event} (hes : Projectable id es) (hne : es ≠ [])
    (h : ∀ clock p, Brought clock id es p →
      p.updatedAt = updatedAt ∧ p.referrals.map Referral.updatedAt = dates) : Timeless es := by
  refine Drawn.timeless_of_dates updatedAt dates hes fun now => ?_
  -- The clock stands still at this time.
  obtain ⟨p, hp⟩ := exists_brought hes hne fun _ => now
  obtain ⟨ns, hns⟩ := hp.drawn
  exact ⟨_, p, hns, by simp, h _ p hp⟩

/-- **Which dates profiles have.** A history that can be projected can be brought into the read model
by any clock, and whatever way it came, its profile shows the user; the profile is dated by the time
noted last, and the referrals are as they are noticed, at times that the clock has shown. These are
the dates of the user for every clock and on every way exactly if no referral is completed, the last
event gives no points, and who left last did so at the time of the event. And exactly if no referral
is completed and the last event gives no points, every way leads to the same profile. -/
theorem profile_dates {id : String} {es : List Event} (hes : Projectable id es) (hne : es ≠ [])
    {u : User} (hu : User.ofHistory id es = .ok u) :
    (∀ clock, ∃ p, Brought clock id es p) ∧
    (∀ clock p, Brought clock id es p → p.Shows u ∧ ∃ ns : List Nat, ns.length = es.length ∧
      some p.updatedAt = (noted es (ns.map clock)).getLast? ∧
      User.Refer p.referrals (noticed es (ns.map clock))) ∧
    ((∀ clock p, Brought clock id es p → some p.updatedAt = u.updatedAt ∧
        p.referrals.map Referral.updatedAt = u.referrals.map Referral.updatedAt) ↔
      Timeless es ∧ LeftOnTime es) ∧
    ((∀ clock clock' p p', Brought clock id es p → Brought clock' id es p' → p = p') ↔
      Timeless es) := by
  have hshows : ∀ {ts p}, Drawn es ts (some p) → p.Shows u := by
    intro ts p hp
    rcases hp.shows hes with ⟨-, hnone⟩ | ⟨q, v, hq, -, hv, hshows⟩
    · cases hnone
    · cases hq
      cases hu.symm.trans hv
      exact hshows
  refine ⟨exists_brought hes hne, fun clock p hp => ?_, ⟨fun h => ?_, ?_⟩, ⟨fun h => ?_, ?_⟩⟩
  · obtain ⟨ns, hns⟩ := hp.drawn
    exact ⟨hshows hns, ns, by simpa using hns.length_eq, hns.updatedAt_eq, hns.refer⟩
  · obtain ⟨p, hp⟩ := exists_brought hes hne Supply.standard.time
    obtain ⟨ns, hns⟩ := hp.drawn
    refine ⟨timeless_of_brought p.updatedAt _ hes hne fun clock q hq => ⟨?_, (h clock q hq).2⟩,
      hns.leftOnTime hes hu (h _ p hp).1⟩
    exact Option.some.inj ((h clock q hq).1.trans (h _ p hp).1.symm)
  · rintro ⟨ht, hleft⟩ clock p hp
    obtain ⟨ns, hns⟩ := hp.drawn
    obtain ⟨hupdated, hreferrals⟩ := hns.dates_eq hes hu ht hleft
    exact ⟨hupdated, by rw [hreferrals]⟩
  · obtain ⟨p, hp⟩ := exists_brought hes hne Supply.standard.time
    refine timeless_of_brought p.updatedAt (p.referrals.map Referral.updatedAt) hes hne
      fun clock q hq => ?_
    obtain rfl := h _ _ q p hq hp
    exact ⟨rfl, rfl⟩
  · intro ht clock clock' p p' hp hp'
    obtain ⟨ns, hns⟩ := hp.drawn
    obtain ⟨ns', hns'⟩ := hp'.drawn
    exact Option.some.inj (hns.eq_of_timeless hns' hes ht)

/-- A user who refers someone, is given points, and sees the referral completed. -/
def referrer : List Event :=
  [signedUp, .ofChange "kim" 2 (.referralCreated ⟨"r", "KIM", "lee@example.org", .created⟩)
      (Supply.standard.time 1),
    .ofChange "kim" 3 (.pointsEarned 200) (Supply.standard.time 2),
    .ofChange "kim" 4 (.referralCompleted "r") (Supply.standard.time 3)]

theorem projectable_referrer : Projectable "kim" referrer where
  aggregateId_eq := by decide
  gapless := rfl
  created_iff_first := by decide
  replays := by
    have hgapless : Gapless referrer := rfl
    have happlied : ((User.new "kim").applyInOrder referrer).failure? = none := by decide +kernel
    rw [User.ofHistory_of_gapless _ hgapless, User.Replayed.result, happlied]
    exact ⟨_, rfl⟩

/-- The times at which this history is projected show in the profile: some clock makes dates that are
not those of the user, and two clocks make two profiles. -/
theorem referrer_dates :
    (∃ clock p, Brought clock "kim" referrer p) ∧
    (∀ u, User.ofHistory "kim" referrer = .ok u →
      ¬ (∀ clock p, Brought clock "kim" referrer p → some p.updatedAt = u.updatedAt ∧
        p.referrals.map Referral.updatedAt = u.referrals.map Referral.updatedAt)) ∧
    ¬ ∀ clock clock' p p', Brought clock "kim" referrer p → Brought clock' "kim" referrer p' →
      p = p' := by
  have hne : referrer ≠ [] := by simp [referrer]
  have hshows : ¬ Timeless referrer := by
    intro h
    exact h.completed _ (List.mem_of_getLast? rfl) rfl
  obtain ⟨u, hu⟩ := projectable_referrer.replays
  obtain ⟨hways, -, hdates, hsame⟩ := profile_dates projectable_referrer hne hu
  obtain ⟨p, hp⟩ := hways Supply.standard.time
  refine ⟨⟨_, p, hp⟩, fun v hv h => ?_, fun h => hshows (hsame.1 h)⟩
  cases hu.symm.trans hv
  exact hshows (hdates.1 h).1

end Projection

end Loyalty
