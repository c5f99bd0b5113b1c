import Mathlib.Logic.Function.Basic
import Loyalty.Proofs.Process.Prompt
import Loyalty.Proofs.ReadModel.Profile
import Loyalty.Proofs.Simulation.Passage
import Loyalty.Proofs.Stream.Growth

/-!
# Catching up

A world in which no operation is going to fail any more, and a read model that shows of each history
as much as it has taken in: `World.Showing` says which part of the history that is. Then the newest
event of a user is delivered to the projection.

If the projection has not caught up on the user before, it does so now. If it has, it takes the event
in when the event is the next. Both ways the first attempt succeeds, without a pause, as long as the
history can be replayed; when it cannot, the read model has nothing to show, and whatever the attempts
come to, they touch no profile but that of this user. There remains a profile that lacks other events,
too, of a user on whom the projection has caught up. All attempts fail in the same way, and the profile
stays as it is.

Main statement: which of these it is that comes of the delivery.
-/

namespace Loyalty

open Function (update)
open History Simulation Projection

/-- What the read model has to show of a history: nothing of an empty one, and of a history that can
be replayed the user that it replays to. -/
inductive Profile.Current (id : String) (es : List Event) : Option Profile → Prop where
  /-- there is no history, and no profile -/
  | nobody (hes : es = []) : Current id es none
  /-- the profile shows the user -/
  | shown {p : Profile} {u : User} (hne : es ≠ []) (hu : User.ofHistory id es = .ok u)
    (hp : p.Shows u) : Current id es (some p)
  /-- the history cannot be replayed -/
  | unreadable {row : Option Profile} (hne : es ≠ []) (hu : ∀ u, User.ofHistory id es ≠ .ok u) :
    Current id es row

namespace Profile.Current

variable {id : String} {es : List Event} {e : Event} {row : Option Profile}

/-- Nobody without a history has a profile. -/
theorem eq_none (h : Current id [] row) : row = none := by
  cases h with
  | nobody => rfl
  | shown hne => exact absurd rfl hne
  | unreadable hne => exact absurd rfl hne

/-- A history that can be replayed has a profile. -/
theorem shows (h : Current id es row) (hne : es ≠ []) {u : User}
    (hu : User.ofHistory id es = .ok u) : ∃ p, row = some p ∧ p.Shows u := by
  cases h with
  | nobody hnil => exact absurd hnil hne
  | unreadable _ hnone => exact absurd hu (hnone u)
  | @shown p v _ hv hp =>
    cases hu.symm.trans hv
    exact ⟨p, rfl, hp⟩

/-- The version of the profile is the length of the history before the newest event. -/
theorem version_eq (h : Current id es row) (hgrown : Grown id (es ++ [e])) :
    (row.map Profile.version).getD 0 = es.length := by
  cases h with
  | nobody hes => rw [hes]; rfl
  | shown hne hu hp =>
    exact hp.version_eq.trans (User.reflects_of_ofHistory hgrown.gapless.of_append hu).version_eq
  | unreadable hne hu =>
    rcases hgrown.of_concat with ⟨rfl, -⟩ | ⟨-, -, u, c, now, hu', -⟩
    · exact absurd rfl hne
    · exact absurd hu' (hu u)

/-- If the history can be replayed with the newest event, too, the write of this event is taken in,
and the profile that it makes shows the user. -/
theorem makes (h : Current id es row) (hgrown : Grown id (es ++ [e])) {v : User}
    (hv : User.ofHistory id (es ++ [e]) = .ok v) (now : Time.Timestamp) :
    ∃ wr, writeFor e = .ok wr ∧ (∃ q, wr.Makes now row q) ∧ ∀ q, wr.Makes now row q → q.Shows v := by
  rcases hgrown.of_concat with ⟨rfl, s, at', hs, rfl⟩ | ⟨hne, hbefore, u, c, at', hu, hc, rfl⟩
  · -- Somebody has signed up.
    obtain rfl := h.eq_none
    have hwr := writeFor_eq_ok_iff.2 ⟨_, Event.decode_ofChange hs id 1 at', rfl⟩
    refine ⟨_, hwr, ⟨_, .created _⟩, fun q hq => ?_⟩
    obtain ⟨v', hv', hshows⟩ := Profile.shows_of_created hwr hq
    rw [User.ofHistory_append_of_ok hgrown.gapless (User.ofHistory_nil id)] at hv
    cases hv.symm.trans hv'
    exact hshows
  · obtain ⟨p, rfl, hp⟩ := h.shows hne hu
    rw [User.ofHistory_append_of_ok hgrown.gapless hu] at hv
    have hversion : es.length + 1 = p.version + 1 := by
      rw [hp.version_eq, (User.reflects_of_ofHistory hbefore.gapless hu).version_eq]
    obtain ⟨wr, q, hwr, hq⟩ := hp.makes hv hc.not_created hversion now
    refine ⟨wr, hwr, ⟨q, hq⟩, fun q' hq' => ?_⟩
    obtain ⟨v', hv', hshows⟩ := hp.of_makes hwr hq'
    cases hv.symm.trans hv'
    exact hshows

end Profile.Current

/-- What a handler keeps is kept however often it is delivered to. -/
theorem Activity.Keeps.deliver {σ : Type} {s : Surroundings σ} {I : σ → Prop} {sub : Subscription}
    {e : Event} (hhandle : (sub.handler.handle e).Keeps s I)
    (hsync : (sub.handler.sync e.aggregateId).Keeps s I) (hpass : ∀ n w, I w → I (s.pass n w))
    (hasked : ∀ w, I w → I (s.answer (.isSynced sub.number e.aggregateId) w).2)
    (hmarked : ∀ w, I w → I (s.answer (.markSynced sub.number e.aggregateId) w).2)
    (hwatch : ∀ w, I w → I (s.answer .stopwatch w).2) (b : Bus) :
    (b.deliver e sub).Keeps s I := by
  have hattempt : (sub.attempt e).Keeps s I := by
    refine keeps_call hasked fun synced => ?_
    split
    · exact hhandle
    · exact hsync.andThen (keeps_call hmarked fun _ => hhandle)
  exact (hattempt.retrying hpass hwatch b.policy).mapFailure _

namespace Simulation.World

/-! ## What touches one profile only -/

/-- Nothing has changed but the profile of one user. -/
structure Touches (id : String) (w w' : World) : Prop where
  /-- no operation is going to fail -/
  faultFree : w'.FaultFree
  /-- nothing was saved -/
  store_eq : w'.store = w.store
  /-- nobody has noted anything -/
  synced_eq : w'.synced = w.synced
  /-- all other profiles are as they were -/
  find?_eq : ∀ other, other ≠ id → w'.readModel.find? other = w.readModel.find? other

variable {w w' w'' : World} {id : String} {es : List Event} {e : Event}

theorem FaultFree.touches (hw : w.FaultFree) (id : String) : Touches id w w :=
  ⟨hw, rfl, rfl, fun _ _ => rfl⟩

theorem Touches.trans (h : Touches id w w') (h' : Touches id w' w'') : Touches id w w'' :=
  ⟨h'.faultFree, h'.store_eq.trans h.store_eq, h'.synced_eq.trans h.synced_eq,
    fun other hne => (h'.find?_eq other hne).trans (h.find?_eq other hne)⟩

/-- A write, when no operation fails. -/
theorem write_eq (hw : w.FaultFree) (wr : Write) :
    w.write wr =
      match w.readModel.write (w.supply.time w.readings) wr with
      | .error f => (.error f, { w with readings := w.readings + 1 })
      | .ok m => (.ok (), { w with readings := w.readings + 1, readModel := m }) := by
  rw [write, gated_of_no_fault (hw _)]
  rfl

theorem touches_write (hw : w.FaultFree) (wr : Write) :
    Touches wr.userId w (w.write wr).2 := by
  rw [write_eq hw]
  cases hm : w.readModel.write (w.supply.time w.readings) wr with
  | error f => exact ⟨hw, rfl, rfl, fun _ _ => rfl⟩
  | ok m =>
    obtain ⟨p, -, hfind⟩ := ReadModel.makes_of_write hm
    exact ⟨hw, rfl, rfl, fun other hne => by rw [hfind, if_neg hne]⟩

/-- Projecting an event is asking for its write. -/
theorem attempt_project (w : World) (e : Event) :
    attempt (project e) w =
      match writeFor e with
      | .error f => (.error f, w)
      | .ok wr => w.write wr := by
  rw [project_eq]
  cases writeFor e with
  | error f => rfl
  | ok wr => rfl

theorem touches_project (hw : w.FaultFree) (e : Event) :
    Touches e.aggregateId w (attempt (project e) w).2 := by
  rw [attempt_project]
  split
  · exact hw.touches _
  · next wr hwr =>
    rw [← userId_of_writeFor hwr]
    exact touches_write hw wr

/-- The version of a profile, when no operation fails. -/
theorem attempt_projectedVersion (hw : w.FaultFree) (id : String) :
    attempt (projectedVersion id) w =
      (.ok (((w.readModel.find? id).map Profile.version).getD 0), w) := by
  have huser : attempt (Attempt.user id) w = (w.readModel.user id, w) :=
    gated_of_no_fault (hw _) _
  have hversion : attempt (do let p ← Attempt.user id; pure p.version : Attempt Nat) w =
      ((w.readModel.user id).map Profile.version, w) := by
    rw [attempt_bind, huser]
    cases w.readModel.user id <;> rfl
  rw [attempt] at hversion
  rw [projectedVersion, attempt, Attempt.run_orAbsent, Calls.run_bind, hversion, ReadModel.user]
  cases w.readModel.find? id <;> rfl

theorem touches_handle (hw : w.FaultFree) (e : Event) :
    Touches e.aggregateId w (attempt (handle e) w).2 := by
  rw [handle, attempt_bind_of_ok (attempt_projectedVersion hw _)]
  split
  · exact hw.touches _
  split
  · exact touches_project hw e
  · exact hw.touches _

theorem touches_projectAll (hw : w.FaultFree) {fs : List Event}
    (hfs : ∀ e ∈ fs, e.aggregateId = id) : Touches id w (attempt (projectAll fs) w).2 := by
  induction fs generalizing w with
  | nil => exact hw.touches id
  | cons e fs ih =>
    have hfirst : Touches id w (attempt (project e) w).2 :=
      hfs e List.mem_cons_self ▸ touches_project hw e
    rw [projectAll, attempt_bind]
    rcases hrun : attempt (project e) w with ⟨x, w'⟩
    rw [hrun] at hfirst
    cases x with
    | error f => exact hfirst
    | ok u =>
      exact hfirst.trans (ih hfirst.faultFree fun e' he' => hfs e' (List.mem_cons_of_mem e he'))

/-- The events beyond a version, when no operation fails. -/
theorem attempt_loadAfter (hw : w.FaultFree) (hstore : w.store = .holding es)
    (hes : Gapless (ofUser id es)) (version : Nat) :
    attempt (Attempt.loadAfter id version) w = (.ok ((ofUser id es).drop version), w) := by
  show gated .loadAfter _ w = _
  rw [gated_of_no_fault (hw _), hstore, EventStore.loadAfter_holding hes]

theorem touches_sync (hw : w.FaultFree) (hstore : w.store = .holding es)
    (hes : Gapless (ofUser id es)) : Touches id w (attempt (sync id) w).2 := by
  rw [sync, attempt_bind_of_ok (attempt_projectedVersion hw id),
    attempt_bind_of_ok (attempt_loadAfter hw hstore hes _)]
  refine touches_projectAll hw fun e he => ?_
  have hmem := List.mem_of_mem_drop ((sorted_perm _).mem_iff.1 he)
  exact of_decide_eq_true (List.mem_filter.1 hmem).2

/-! ## What the read model shows -/

/-- A world in which no operation is going to fail. What was saved is `saved`, and the read model
shows of each history the part `shown`. -/
structure Showing (saved : List Event) (shown : String → List Event) (w : World) : Prop where
  /-- no operation is going to fail -/
  faultFree : w.FaultFree
  /-- the events are in the store -/
  store_eq : w.store = .holding saved
  /-- all histories have grown in order -/
  grown : ∀ id, Grown id (ofUser id saved)
  /-- what is shown are the first events of a history -/
  part : ∀ id, shown id <+: ofUser id saved
  /-- the read model shows what it has to show of them -/
  current : ∀ id, Profile.Current id (shown id) (w.readModel.find? id)

namespace Showing

variable {saved : List Event} {shown : String → List Event} {rest : List Event}

/-- Whoever saves and writes nothing leaves the world as it is. -/
theorem answer (h : Showing saved shown w) {r : Request} (hsave : r.IsNoSave) (hwrite : r.IsNoWrite) :
    Showing saved shown (w.answer r).2 := by
  have hhears := (Surroundings.Hears.start (s := surroundings) w).answered r
  have hstore : (w.answer r).2.store = w.store := by
    have htells := (tells_answer w r).store_eq
    rcases Exchange.saved_eq ⟨r, (w.answer r).1⟩ with hnone | ⟨es, hsaved⟩
    · rw [hnone] at htells
      simpa using htells
    · obtain rfl : r = .save es := congrArg Exchange.request hsaved
      exact hsave.elim
  have hmodel : (w.answer r).2.readModel = w.readModel := by
    refine readModel_of_hears hhears fun x hx => ?_
    obtain rfl := List.mem_singleton.1 hx
    rcases Exchange.written_eq ⟨r, (w.answer r).1⟩ with hnone | ⟨wr, hwritten⟩
    · exact hnone
    · obtain rfl : r = .write wr := congrArg Exchange.request hwritten
      exact hwrite.elim
  refine ⟨h.faultFree.hears hhears, hstore.trans h.store_eq, h.grown, h.part, fun id => ?_⟩
  rw [hmodel]
  exact h.current id

theorem pass (h : Showing saved shown w) (nanos : Nat) : Showing saved shown (w.pass nanos) :=
  ⟨h.faultFree, h.store_eq, h.grown, h.part, h.current⟩

/-- As long as the read model does not show all of a history it shows so many events. -/
theorem version_eq (h : Showing saved shown w) (hhistory : ofUser id saved = shown id ++ e :: rest) :
    ((w.readModel.find? id).map Profile.version).getD 0 = (shown id).length := by
  have hgrown := h.grown id
  rw [hhistory, List.append_cons] at hgrown
  exact (h.current id).version_eq hgrown.of_append

/-- So it does when it shows all of a history that can be replayed. -/
theorem version_eq_of_replays (h : Showing saved shown w) {v : User}
    (hv : User.ofHistory id (ofUser id saved) = .ok v) (hshown : shown id = ofUser id saved) :
    ((w.readModel.find? id).map Profile.version).getD 0 = (ofUser id saved).length := by
  have hcurrent := h.current id
  rw [hshown] at hcurrent
  by_cases hne : ofUser id saved = []
  · rw [hne] at hcurrent ⊢
    rw [hcurrent.eq_none]
    rfl
  · obtain ⟨p, hp, hshows⟩ := hcurrent.shows hne hv
    rw [hp, Option.map_some, Option.getD_some, hshows.version_eq,
      (User.reflects_of_ofHistory (h.grown id).gapless hv).version_eq]

/-- Of a history that cannot be replayed the read model may show what it likes. -/
theorem touched (h : Showing saved shown w) (hw : Touches id w w') (hne : ofUser id saved ≠ [])
    (hunreadable : ∀ u, User.ofHistory id (ofUser id saved) ≠ .ok u) :
    Showing saved (update shown id (ofUser id saved)) w' := by
  have hother : ∀ other, update shown id (ofUser id saved) other <+: ofUser other saved ∧
      Profile.Current other (update shown id (ofUser id saved) other)
        (w'.readModel.find? other) := by
    intro other
    by_cases hne' : other = id
    · subst hne'
      rw [Function.update_self]
      exact ⟨List.prefix_rfl, .unreadable hne hunreadable⟩
    · rw [Function.update_of_ne hne', hw.find?_eq other hne']
      exact ⟨h.part other, h.current other⟩
  exact ⟨hw.faultFree, hw.store_eq.trans h.store_eq, h.grown, fun other => (hother other).1,
    fun other => (hother other).2⟩

/-! ## Taking events in -/

/-- The next event has been taken in. -/
theorem projected (h : Showing saved shown w) {v : User}
    (hhistory : ofUser e.aggregateId saved = shown e.aggregateId ++ e :: rest)
    (hv : User.ofHistory e.aggregateId (shown e.aggregateId ++ [e]) = .ok v) :
    ∃ w', attempt (project e) w = (.ok (), w') ∧
      Showing saved (update shown e.aggregateId (shown e.aggregateId ++ [e])) w' := by
  have hgrown := h.grown e.aggregateId
  rw [hhistory, List.append_cons] at hgrown
  obtain ⟨wr, hwr, ⟨q, hq⟩, hshows⟩ :=
    (h.current e.aggregateId).makes hgrown.of_append hv (w.supply.time w.readings)
  have hid : wr.userId = e.aggregateId := userId_of_writeFor hwr
  rw [← hid] at hq
  obtain ⟨m, hm⟩ := ReadModel.write_of_makes hq
  obtain ⟨p, hp, hfind⟩ := ReadModel.makes_of_write hm
  rw [hid] at hp hfind
  refine ⟨{ w with readings := w.readings + 1, readModel := m }, ?_, h.faultFree, h.store_eq, h.grown,
    fun id => ?_, fun id => ?_⟩
  · rw [attempt_project, hwr]
    simp only
    rw [write_eq h.faultFree, hm]
  · by_cases hne : id = e.aggregateId
    · subst hne
      rw [Function.update_self, hhistory]
      exact ⟨rest, by simp⟩
    · rw [Function.update_of_ne hne]
      exact h.part id
  · show Profile.Current id _ (m.find? id)
    rw [hfind]
    split
    · next heq =>
      subst heq
      rw [Function.update_self]
      exact .shown (by simp) hv (hshows p hp)
    · next hne =>
      rw [Function.update_of_ne hne]
      exact h.current id

/-- All further events have been taken in. -/
theorem projected_all (h : Showing saved shown w) {v : User}
    (hhistory : ofUser id saved = shown id ++ rest)
    (hv : User.ofHistory id (ofUser id saved) = .ok v) :
    ∃ w', attempt (projectAll rest) w = (.ok (), w') ∧
      Showing saved (update shown id (ofUser id saved)) w' := by
  induction rest generalizing shown w with
  | nil =>
    rw [List.append_nil] at hhistory
    rw [hhistory, Function.update_eq_self]
    exact ⟨w, rfl, h⟩
  | cons e rest ih =>
    obtain rfl : e.aggregateId = id := by
      have hmem : e ∈ ofUser id saved := by simp [hhistory]
      exact of_decide_eq_true (List.mem_filter.1 hmem).2
    have hnext : ∃ u, User.ofHistory e.aggregateId (shown e.aggregateId ++ [e]) = .ok u := by
      cases rest with
      | nil => exact ⟨v, hhistory ▸ hv⟩
      | cons e' rest =>
        have hgrown := h.grown e.aggregateId
        rw [hhistory, List.append_cons] at hgrown
        exact hgrown.replays_of_append
    obtain ⟨u, hu⟩ := hnext
    obtain ⟨w₁, hproject, hw₁⟩ := h.projected hhistory hu
    obtain ⟨w', hall, hw'⟩ := ih hw₁ (by rw [Function.update_self, hhistory, List.append_cons])
    rw [Function.update_idem] at hw'
    exact ⟨w', by rw [projectAll, attempt_bind_of_ok hproject, hall], hw'⟩

/-- The projection has caught up on a user. -/
theorem caughtUp (h : Showing saved shown w) {v : User}
    (hv : User.ofHistory id (ofUser id saved) = .ok v) :
    ∃ w', attempt (sync id) w = (.ok (), w') ∧
      Showing saved (update shown id (ofUser id saved)) w' := by
  have hgapless := (h.grown id).gapless
  obtain ⟨rest, hhistory⟩ := h.part id
  have hversion : ((w.readModel.find? id).map Profile.version).getD 0 = (shown id).length := by
    cases rest with
    | nil =>
      rw [List.append_nil] at hhistory
      rw [h.version_eq_of_replays hv hhistory, hhistory]
    | cons e rest => exact h.version_eq hhistory.symm
  have hsorted : sorted rest = rest := by
    rw [← hhistory] at hgapless
    exact sorted_eq_self (List.pairwise_append.1 hgapless.pairwise).2.1
  rw [sync, attempt_bind_of_ok (attempt_projectedVersion h.faultFree _), hversion,
    attempt_bind_of_ok (attempt_loadAfter h.faultFree h.store_eq hgapless _), ← hhistory,
    List.drop_left, hsorted, hhistory]
  exact h.projected_all hhistory.symm hv

/-- The newest event is delivered, and it is the next. -/
theorem handled (h : Showing saved shown w) {v : User}
    (hhistory : ofUser e.aggregateId saved = shown e.aggregateId ++ [e])
    (hv : User.ofHistory e.aggregateId (ofUser e.aggregateId saved) = .ok v) :
    ∃ w', attempt (handle e) w = (.ok (), w') ∧
      Showing saved (update shown e.aggregateId (ofUser e.aggregateId saved)) w' := by
  have hgapless := (h.grown e.aggregateId).gapless
  rw [hhistory] at hgapless hv
  have hversion : e.version = (shown e.aggregateId).length + 1 :=
    hgapless.version_eq List.getElem?_concat_length
  rw [handle, attempt_bind_of_ok (attempt_projectedVersion h.faultFree _), h.version_eq hhistory,
    if_neg (by omega), if_pos hversion, hhistory]
  exact h.projected hhistory hv

/-- An event that has been taken in already is passed over. -/
theorem passedOver (h : Showing saved shown w) {v : User} (he : e ∈ ofUser e.aggregateId saved)
    (hv : User.ofHistory e.aggregateId (ofUser e.aggregateId saved) = .ok v)
    (hshown : shown e.aggregateId = ofUser e.aggregateId saved) :
    attempt (handle e) w = (.ok (), w) := by
  obtain ⟨i, hi⟩ := List.mem_iff_getElem?.1 he
  have hlt := (List.getElem?_eq_some_iff.1 hi).1
  have hversion : e.version = i + 1 := (h.grown e.aggregateId).gapless.version_eq hi
  rw [handle, attempt_bind_of_ok (attempt_projectedVersion h.faultFree _),
    h.version_eq_of_replays hv hshown, if_pos (by omega)]
  rfl

/-- An event that comes too early is refused. -/
theorem refused (h : Showing saved shown w) {es : List Event}
    (hhistory : ofUser e.aggregateId saved = es ++ [e]) (hshown : shown e.aggregateId <+: es)
    (hne : shown e.aggregateId ≠ es) :
    attempt (handle e) w =
      (.error (.outOfOrder e.aggregateId (shown e.aggregateId).length e.version), w) := by
  obtain ⟨rest, hes⟩ := hshown
  have hgapless := (h.grown e.aggregateId).gapless
  rw [hhistory] at hgapless
  have hversion : e.version = es.length + 1 := hgapless.version_eq List.getElem?_concat_length
  cases rest with
  | nil => exact absurd (by simpa using hes) hne
  | cons e' rest =>
    have hlength : es.length = (shown e.aggregateId).length + (rest.length + 1) := by
      rw [← hes, List.length_append, List.length_cons]
    have hbefore : ofUser e.aggregateId saved = shown e.aggregateId ++ e' :: (rest ++ [e]) := by
      rw [hhistory, ← hes, List.append_assoc, List.cons_append]
    rw [handle, attempt_bind_of_ok (attempt_projectedVersion h.faultFree _), h.version_eq hbefore,
      if_neg (by omega), if_neg (by omega)]
    rfl

end Showing

/-! ## The delivery -/

variable {saved : List Event} {shown : String → List Event}

/-- The projection is going to catch up on the user of the newest event, or needs not to. -/
def Ready (number : Nat) (w : World) (shown : String → List Event) (id : String) (es : List Event) :
    Prop :=
  (number, id) ∉ w.synced ∨ shown id = es

theorem contains_synced_eq_false {x : Nat × String} (h : x ∉ w.synced) :
    w.synced.contains x = false := by
  rw [← Bool.not_eq_true, List.contains_iff_mem]
  exact h

/-- One attempt to deliver an event to the projection. -/
theorem prompt_attempt_of_synced {number : Nat} (hsynced : (number, e.aggregateId) ∈ w.synced)
    {o : Outcome} (hhandle : attempt (handle e) w = (o, w')) :
    (Subscription.attempt ⟨number, Projection.handler⟩ e).Prompt surroundings w o w' := by
  refine .call ?_
  show Activity.Prompt surroundings (if w.synced.contains (number, e.aggregateId) then _ else _)
    w _ _
  rw [List.contains_iff_mem.2 hsynced, if_pos rfl]
  exact .ofAttempt hhandle

/-- The newest event is delivered to the projection when it is ready. The first attempt succeeds,
without a pause. -/
theorem Showing.prompt_deliver (h : Showing saved shown w) (number : Nat) {v : User}
    (hhistory : ofUser e.aggregateId saved = es ++ [e])
    (hv : User.ofHistory e.aggregateId (ofUser e.aggregateId saved) = .ok v)
    (hready : Ready number w shown e.aggregateId es) (b : Bus) :
    ∃ w', (b.deliver e ⟨number, Projection.handler⟩).Prompt surroundings w (.ok ()) w' ∧
      Showing saved (update shown e.aggregateId (ofUser e.aggregateId saved)) w' ∧
      ∀ x, x.2 ≠ e.aggregateId → (x ∈ w'.synced ↔ x ∈ w.synced) := by
  suffices hattempt : ∃ w', (Subscription.attempt ⟨number, Projection.handler⟩ e).Prompt
      surroundings w (.ok ()) w' ∧
      Showing saved (update shown e.aggregateId (ofUser e.aggregateId saved)) w' ∧
      ∀ x, x.2 ≠ e.aggregateId → (x ∈ w'.synced ↔ x ∈ w.synced) by
    obtain ⟨w', hprompt, hw'⟩ := hattempt
    exact ⟨w', (Activity.Prompt.retrying hprompt b.policy).mapFailure _, hw'⟩
  by_cases hsynced : (number, e.aggregateId) ∈ w.synced
  · have hshown : shown e.aggregateId = es := hready.resolve_left fun hnot => hnot hsynced
    obtain ⟨w', hhandle, hw'⟩ := h.handled (hshown.symm ▸ hhistory) hv
    have hsame : w'.synced = w.synced := by
      have htouches := touches_handle h.faultFree e
      rw [hhandle] at htouches
      exact htouches.synced_eq
    exact ⟨w', prompt_attempt_of_synced hsynced hhandle, hw', fun x _ => by rw [hsame]⟩
  · obtain ⟨w₁, hsync, hw₁⟩ := h.caughtUp hv
    have hsame : w₁.synced = w.synced := by
      have htouches := touches_sync h.faultFree h.store_eq (h.grown e.aggregateId).gapless
      rw [hsync] at htouches
      exact htouches.synced_eq
    have hmarked := hw₁.answer (r := .markSynced number e.aggregateId) True.intro True.intro
    refine ⟨_, .call ?_, hmarked, fun x hx => ?_⟩
    · show Activity.Prompt surroundings (if w.synced.contains (number, e.aggregateId) then _ else _)
        w _ _
      rw [contains_synced_eq_false hsynced, if_neg Bool.false_ne_true]
      refine (Activity.Prompt.ofAttempt hsync).andThen (.call (.ofAttempt ?_))
      exact hmarked.passedOver (by simp [hhistory]) hv (Function.update_self ..)
    · rw [synced_answer, ← hsame, List.mem_cons, or_iff_right]
      rintro rfl
      exact hx rfl

/-- What has come of the delivery of the newest event to the projection. -/
inductive Delivered (number : Nat) (saved : List Event) (shown : String → List Event) (e : Event)
    (es : List Event) (w : World) : Outcome × World → Prop where
  /-- the projection was ready and has taken in the whole history; this fails only if the history
  cannot be replayed -/
  | upToDate {o : Outcome} {w' : World} (hready : Ready number w shown e.aggregateId es)
    (hw' : Showing saved (update shown e.aggregateId (ofUser e.aggregateId saved)) w')
    (hothers : ∀ x, x.2 ≠ e.aggregateId → (x ∈ w'.synced ↔ x ∈ w.synced))
    (ho : ∀ v, User.ofHistory e.aggregateId (ofUser e.aggregateId saved) = .ok v → o = .ok ()) :
    Delivered number saved shown e es w (o, w')
  /-- other events are missing, too, and nothing has changed -/
  | behind {w' : World} (hready : ¬ Ready number w shown e.aggregateId es)
    (hw' : Showing saved shown w') (hsynced : w'.synced = w.synced) :
    Delivered number saved shown e es w (.error (.publish "user-projector" e.type e.aggregateId
      (.outOfOrder e.aggregateId (shown e.aggregateId).length e.version)), w')

/-- All attempts fail when other events are missing. -/
theorem Showing.run_deliver_behind (h : Showing saved shown w) (number : Nat)
    (hhistory : ofUser e.aggregateId saved = es ++ [e]) (hshown : shown e.aggregateId <+: es)
    (hready : ¬ Ready number w shown e.aggregateId es) (b : Bus) :
    ∃ w', (b.deliver e ⟨number, Projection.handler⟩).run surroundings w =
        (.error (.publish "user-projector" e.type e.aggregateId
          (.outOfOrder e.aggregateId (shown e.aggregateId).length e.version)), w') ∧
      Showing saved shown w' ∧ w'.synced = w.synced := by
  obtain ⟨hsynced, hne⟩ := not_or.1 hready
  have hfails : ∀ w₁, Showing saved shown w₁ ∧ w₁.synced = w.synced →
      ∃ w₂, (Subscription.attempt ⟨number, Projection.handler⟩ e).run surroundings w₁ =
        (.error (.outOfOrder e.aggregateId (shown e.aggregateId).length e.version), w₂) ∧
        Showing saved shown w₂ ∧ w₂.synced = w.synced := by
    rintro w₁ ⟨hw₁, hsame⟩
    refine ⟨w₁, ?_, hw₁, hsame⟩
    have hmem : (number, e.aggregateId) ∈ w₁.synced := hsame ▸ not_not.1 hsynced
    exact (prompt_attempt_of_synced hmem (hw₁.refused hhistory hshown hne)).run_eq
  obtain ⟨w', hrun, hw'⟩ := Activity.run_retrying_of_error (s := surroundings) hfails
    (fun n w₁ h₁ => ⟨h₁.1.pass n, h₁.2⟩)
    (fun w₁ h₁ => ⟨h₁.1.answer True.intro True.intro, h₁.2⟩) b.policy ⟨h, rfl⟩
  refine ⟨w', ?_, hw'⟩
  rw [Bus.deliver, Activity.run_mapFailure, hrun]
  rfl

/-- If the history cannot be replayed, nothing changes but the profile of its user, whatever comes of
the delivery. -/
theorem Showing.run_deliver_unreadable (h : Showing saved shown w) (number : Nat)
    (hne : ofUser e.aggregateId saved ≠ [])
    (hunreadable : ∀ u, User.ofHistory e.aggregateId (ofUser e.aggregateId saved) ≠ .ok u) (b : Bus) :
    let w' := ((b.deliver e ⟨number, Projection.handler⟩).run surroundings w).2
    Showing saved (update shown e.aggregateId (ofUser e.aggregateId saved)) w' ∧
      ∀ x, x.2 ≠ e.aggregateId → (x ∈ w'.synced ↔ x ∈ w.synced) := by
  let I : World → Prop := fun w' =>
    Showing saved (update shown e.aggregateId (ofUser e.aggregateId saved)) w' ∧
      ∀ x, x.2 ≠ e.aggregateId → (x ∈ w'.synced ↔ x ∈ w.synced)
  have htouched : ∀ {w₁ w₂}, I w₁ → Touches e.aggregateId w₁ w₂ → I w₂ := by
    rintro w₁ w₂ ⟨hw₁, hothers⟩ htouches
    have hw₂ := hw₁.touched htouches hne hunreadable
    rw [Function.update_idem] at hw₂
    exact ⟨hw₂, fun x hx => htouches.synced_eq ▸ hothers x hx⟩
  have hhandle : (Activity.ofAttempt (handle e)).Keeps surroundings I := by
    intro w₁ hw₁
    rw [Activity.run_ofAttempt]
    exact htouched hw₁ (touches_handle hw₁.1.faultFree e)
  have hsync : (Activity.ofAttempt (sync e.aggregateId)).Keeps surroundings I := by
    intro w₁ hw₁
    rw [Activity.run_ofAttempt]
    exact htouched hw₁ (touches_sync hw₁.1.faultFree hw₁.1.store_eq (hw₁.1.grown _).gapless)
  have hkeeps : (b.deliver e ⟨number, Projection.handler⟩).Keeps surroundings I := by
    refine Activity.Keeps.deliver hhandle hsync (fun n w₁ hw₁ => ⟨hw₁.1.pass n, hw₁.2⟩)
      (fun w₁ hw₁ => ⟨hw₁.1.answer True.intro True.intro, hw₁.2⟩) (fun w₁ hw₁ => ?_)
      (fun w₁ hw₁ => ⟨hw₁.1.answer True.intro True.intro, hw₁.2⟩) b
    refine ⟨hw₁.1.answer True.intro True.intro, fun x hx => ?_⟩
    rw [← hw₁.2 x hx]
    show x ∈ (number, e.aggregateId) :: w₁.synced ↔ _
    rw [List.mem_cons, or_iff_right]
    rintro rfl
    exact hx rfl
  exact hkeeps w ⟨h.touched (h.faultFree.touches _) hne hunreadable, fun x _ => Iff.rfl⟩

/-- **The newest event is delivered to the projection.** The read model shows the whole history then
if the projection was ready, and what it showed before if it was not. -/
theorem Showing.delivered (h : Showing saved shown w) (number : Nat)
    (hhistory : ofUser e.aggregateId saved = es ++ [e]) (hshown : shown e.aggregateId <+: es)
    (b : Bus) :
    Delivered number saved shown e es w
      ((b.deliver e ⟨number, Projection.handler⟩).run surroundings w) := by
  by_cases hready : Ready number w shown e.aggregateId es
  · by_cases hv : ∃ v, User.ofHistory e.aggregateId (ofUser e.aggregateId saved) = .ok v
    · obtain ⟨v, hv⟩ := hv
      obtain ⟨w', hprompt, hw', hothers⟩ := h.prompt_deliver number hhistory hv hready b
      rw [hprompt.run_eq]
      exact .upToDate hready hw' hothers fun _ _ => rfl
    · have hunreadable := not_exists.1 hv
      obtain ⟨hw', hothers⟩ := h.run_deliver_unreadable number
        (by rw [hhistory]; simp) hunreadable b
      exact .upToDate hready hw' hothers fun v hv => absurd hv (hunreadable v)
  · obtain ⟨w', hrun, hw', hsynced⟩ := h.run_deliver_behind number hhistory hshown hready b
    rw [hrun]
    exact .behind hready hw' hsynced

end Simulation.World

end Loyalty
