import Loyalty.Proofs.ReadModel.CatchingUp
import Loyalty.Proofs.ReadModel.Image
import Loyalty.Proofs.ReadModel.Prefix

/-!
# Catching up can be broken off and resumed

The projection catches up on a user event by event. Any operation may fail on the way, the reading
of the version and the loading of the events as well as each of the writes, and then the projection
stops. A write that fails has done nothing, so what is left behind was drawn of the events up to
there. That is all that catching up needs to begin with, so it can be resumed.

There is one failure that does not stop the projection at once: when the profile is reported missing
although it is there, all events are projected from the first. But the first is a sign-up, and nobody
signs up twice.

Main statement: how far catching up comes, and that nothing is done where nothing is left to be done.
-/

namespace Loyalty

open History Projection

namespace Simulation.World

variable {w w₁ w₂ : World} {id : String} {es : List Event} {e : Event}

/-! ## Reading -/

/-- Neither the store nor the read model has changed. -/
structure Still (w w₁ : World) : Prop where
  /-- nothing was saved -/
  store_eq : w₁.store = w.store
  /-- nothing was written -/
  readModel_eq : w₁.readModel = w.readModel
  /-- no new faults are to come -/
  faultFree : w.FaultFree → w₁.FaultFree

theorem Still.refl (w : World) : w.Still w :=
  ⟨rfl, rfl, fun h => h⟩

theorem Still.trans (h : w.Still w₁) (h' : w₁.Still w₂) : w.Still w₂ :=
  ⟨h'.store_eq.trans h.store_eq, h'.readModel_eq.trans h.readModel_eq,
    fun hw => h'.faultFree (h.faultFree hw)⟩

theorem still_fault (op : Operation) (w : World) : w.Still (w.fault op).2 := by
  refine ⟨fault_store op w, fault_readModel op w, fun hw => ?_⟩
  rw [fault, hw op]
  exact hw

/-- What is read from a world is there, unless the reading fails. -/
theorem still_gated {α : Type} (op : Operation) {read : World → Except Failure α}
    (hread : ∀ w₁, w.Still w₁ → read w₁ = read w) :
    w.Still (gated op (fun w => (read w, w)) w).2 ∧
      ∀ a, (gated op (fun w => (read w, w)) w).1 = .ok a → read w = .ok a := by
  rw [gated_eq]
  have hstill := still_fault op w
  cases (w.fault op).1 with
  | some f => exact ⟨hstill, nofun⟩
  | none => exact ⟨hstill, fun a ha => (hread _ hstill).symm.trans ha⟩

/-- An attempt that may find nothing. -/
theorem attempt_orAbsent {α : Type} (a : α) (m : Attempt α) (w : World) :
    attempt (.orAbsent a m) w =
      match attempt m w with
      | (.ok b, w₁) => (.ok b, w₁)
      | (.error f, w₁) => (if f.isNotFound then .ok a else .error f, w₁) := by
  rw [attempt, Attempt.run_orAbsent, Calls.run_bind, attempt]
  obtain ⟨x, w₁⟩ := Calls.run surroundings m.run w
  cases x with
  | ok b => rfl
  | error f => rfl

/-- Reading the version of a profile leaves everything as it is. If it succeeds, it gives the version,
or 0 although there may be a profile. -/
theorem still_projectedVersion (id : String) (w : World) :
    w.Still (attempt (projectedVersion id) w).2 ∧
      ∀ v, (attempt (projectedVersion id) w).1 = .ok v →
        v = 0 ∨ v = ((w.readModel.find? id).map Profile.version).getD 0 := by
  have huser : w.Still (attempt (Attempt.user id) w).2 ∧
      ∀ p, (attempt (Attempt.user id) w).1 = .ok p → w.readModel.user id = .ok p :=
    still_gated .user fun w₁ h => congrArg (ReadModel.user · id) h.readModel_eq
  rw [projectedVersion, attempt_orAbsent, attempt_bind]
  generalize attempt (Attempt.user id) w = r at huser
  obtain ⟨x, w₁⟩ := r
  obtain ⟨hstill, hread⟩ := huser
  cases x with
  | error f =>
    refine ⟨hstill, fun v hv => .inl ?_⟩
    simp only at hv
    split at hv
    · exact (Except.ok.inj hv).symm
    · cases hv
  | ok p =>
    refine ⟨hstill, fun v hv => .inr ?_⟩
    have hp := hread p rfl
    rw [ReadModel.user] at hp
    split at hp
    · cases hp
    · next q hq =>
      cases hp
      rw [hq]
      exact (Except.ok.inj hv).symm

/-- So does loading events. If it succeeds, it gives those beyond the version. -/
theorem still_loadAfter (hstore : w.store.stream id = es.map Event.toRecord) (hes : Gapless es)
    (version : Nat) :
    w.Still (attempt (Attempt.loadAfter id version) w).2 ∧
      ∀ fs, (attempt (Attempt.loadAfter id version) w).1 = .ok fs → fs = es.drop version := by
  obtain ⟨hstill, hread⟩ : w.Still (attempt (Attempt.loadAfter id version) w).2 ∧
      ∀ fs, (attempt (Attempt.loadAfter id version) w).1 = .ok fs →
        w.store.loadAfter id version = .ok fs :=
    still_gated .loadAfter fun w₁ h => congrArg (EventStore.loadAfter · id version) h.store_eq
  refine ⟨hstill, fun fs hfs => ?_⟩
  have hload := hread fs hfs
  rw [EventStore.loadAfter_of_stream hstore hes] at hload
  exact (Except.ok.inj hload).symm

/-! ## Writing -/

/-- What comes of a write, whether or not it fails: the read model takes it in at the time that the
clock shows, or it stays as it is. -/
inductive Wrote (w : World) (wr : Write) : Outcome × World → Prop where
  /-- the write was taken in -/
  | takenIn {w₁ : World} (hstore : w₁.store = w.store) (hfaults : w.FaultFree → w₁.FaultFree)
    (hwrite : w.readModel.write (w.supply.time w.readings) wr = .ok w₁.readModel) :
    Wrote w wr (.ok (), w₁)
  /-- the write failed -/
  | failed {f : Failure} {w₁ : World} (hstill : w.Still w₁) : Wrote w wr (.error f, w₁)

theorem wrote_write (w : World) (wr : Write) : Wrote w wr (w.write wr) := by
  have hstill := still_fault (.ofWrite wr) w
  have hclock : (w.fault (.ofWrite wr)).2.supply = w.supply ∧
      (w.fault (.ofWrite wr)).2.readings = w.readings := by
    rw [fault]
    split <;> exact ⟨rfl, rfl⟩
  rw [write, gated_eq]
  cases (w.fault (.ofWrite wr)).1 with
  | some f => exact .failed hstill
  | none =>
    simp only [readClock, hclock, hstill.readModel_eq]
    cases hwrite : w.readModel.write (w.supply.time w.readings) wr with
    | error f => exact .failed ⟨hstill.store_eq, rfl, hstill.faultFree⟩
    | ok m => exact .takenIn hstill.store_eq hstill.faultFree hwrite

/-- How far the projection has come with a history, of whose first `k` events a profile was drawn
before. -/
structure Progress (id : String) (es : List Event) (k : Nat) (ts : List Time.Timestamp) (w : World)
    (r : Outcome × World) : Prop where
  /-- nothing was saved -/
  store_eq : r.2.store = w.store
  /-- all other profiles are as they were -/
  find?_eq : ∀ other, other ≠ id → r.2.readModel.find? other = w.readModel.find? other
  /-- more was drawn, and all of it if nothing failed -/
  drawn : ∃ j ts', k ≤ j ∧ j ≤ es.length ∧
    Drawn (es.take j) (ts ++ ts') (r.2.readModel.find? id) ∧ (r.1 = .ok () → j = es.length)
  /-- nothing fails as long as the operations do not -/
  undisturbed : w.FaultFree → r.1 = .ok () ∧ r.2.FaultFree

namespace Progress

variable {k j : Nat} {ts ts' : List Time.Timestamp} {r : Outcome × World}

/-- Everything was there already. -/
theorem done (hrow : Drawn es ts (w.readModel.find? id)) :
    Progress id es es.length ts w (.ok (), w) := by
  refine ⟨rfl, fun _ _ => rfl, ⟨es.length, [], Nat.le_refl _, Nat.le_refl _, ?_, fun _ => rfl⟩,
    fun hw => ⟨rfl, hw⟩⟩
  rwa [List.take_length, List.append_nil]

/-- Something failed, and what was drawn is left. -/
theorem stopped (hk : k ≤ es.length) (hrow : Drawn (es.take k) ts (w.readModel.find? id))
    (hstill : w.Still w₁) {f : Failure} (hfault : ¬ w.FaultFree) :
    Progress id es k ts w (.error f, w₁) := by
  refine ⟨hstill.store_eq, fun other _ => by rw [hstill.readModel_eq],
    ⟨k, [], Nat.le_refl _, hk, ?_, nofun⟩, fun hw => absurd hw hfault⟩
  rwa [hstill.readModel_eq, List.append_nil]

/-- What comes after more was drawn. -/
theorem later (h : Progress id es j (ts ++ ts') w₁ r) (hkj : k ≤ j) (hstore : w₁.store = w.store)
    (hfind : ∀ other, other ≠ id → w₁.readModel.find? other = w.readModel.find? other)
    (hfaults : w.FaultFree → w₁.FaultFree) : Progress id es k ts w r := by
  obtain ⟨i, ts'', hij, hi, hdrawn, hall⟩ := h.drawn
  refine ⟨h.store_eq.trans hstore, fun other hne => (h.find?_eq other hne).trans (hfind other hne),
    ⟨i, ts' ++ ts'', Nat.le_trans hkj hij, hi, ?_, hall⟩, fun hw => h.undisturbed (hfaults hw)⟩
  rwa [← List.append_assoc]

/-- What comes after something was read. -/
theorem of_still (h : Progress id es k ts w₁ r) (hstill : w.Still w₁) : Progress id es k ts w r := by
  rw [← List.append_nil ts] at h
  exact h.later (Nat.le_refl k) hstill.store_eq (fun other _ => by rw [hstill.readModel_eq])
    hstill.faultFree

end Progress

/-! ## Projecting -/

theorem wrote_project {wr : Write} (hwr : writeFor e = .ok wr) (w : World) :
    Wrote w wr (attempt (project e) w) := by
  rw [attempt_project, hwr]
  exact wrote_write w wr

/-- Nobody who has a profile signs up. -/
theorem still_project_of_known (htype : e.type = .userCreated) {p : Profile}
    (hp : w.readModel.find? e.aggregateId = some p) :
    ∃ f w₁, attempt (project e) w = (.error f, w₁) ∧ w.Still w₁ := by
  cases hwr : writeFor e with
  | error f => exact ⟨f, w, by rw [attempt_project, hwr], .refl w⟩
  | ok wr =>
    have hwrote := wrote_project hwr w
    generalize attempt (project e) w = r at hwrote
    cases hwrote with
    | failed hstill => exact ⟨_, _, rfl, hstill⟩
    | takenIn _ _ hwrite =>
      obtain ⟨q, hq, -⟩ := ReadModel.makes_of_write hwrite
      rw [userId_of_writeFor hwr, hp] at hq
      obtain ⟨c, hc, rfl⟩ := writeFor_eq_ok_iff.1 hwr
      have hcreated : c.type = .userCreated := (Event.type_of_decode hc).trans htype
      cases c with
      | created s => cases hq
      | deleted | referralCreated | referralCompleted | pointsEarned => cases hcreated

/-- The events that are missing are projected, one after the other. -/
theorem progress_projectAll (hes : Projectable id es) {k : Nat} (hk : k ≤ es.length)
    {ts : List Time.Timestamp} (hrow : Drawn (es.take k) ts (w.readModel.find? id)) :
    Progress id es k ts w (attempt (projectAll (es.drop k)) w) := by
  induction hn : es.length - k generalizing k ts w with
  | zero =>
    obtain rfl : k = es.length := by omega
    rw [List.take_length] at hrow
    rw [List.drop_length]
    exact .done hrow
  | succ n ih =>
    have hlt : k < es.length := by omega
    have hnext : es.take (k + 1) = es.take k ++ [es[k]] := List.take_succ_eq_append_getElem hlt
    have hid : es[k].aggregateId = id := hes.aggregateId_eq _ (List.getElem_mem hlt)
    obtain ⟨wr, p, hwr, hp⟩ :=
      hrow.exists_makes (hnext ▸ hes.take (k + 1)) (w.supply.time w.readings)
    have hwrote := wrote_project hwr w
    have hundisturbed : w.FaultFree → (attempt (project es[k]) w).1 = .ok () := by
      intro hw
      obtain ⟨m, hm⟩ := ReadModel.write_of_makes
        (show wr.Makes _ (w.readModel.find? wr.userId) p by rwa [userId_of_writeFor hwr, hid])
      rw [attempt_project, hwr]
      simp only [write_eq hw, hm]
    rw [List.drop_eq_getElem_cons hlt, projectAll, attempt_bind]
    generalize attempt (project es[k]) w = r at hwrote hundisturbed
    cases hwrote with
    | failed hstill =>
      refine .stopped hk hrow hstill fun hw => ?_
      cases hundisturbed hw
    | @takenIn w₁ hstore hfaults hwrite =>
      obtain ⟨q, hq, hfind⟩ := ReadModel.makes_of_write hwrite
      rw [userId_of_writeFor hwr, hid] at hq hfind
      have hrow₁ : Drawn (es.take (k + 1)) (ts ++ [w.supply.time w.readings])
          (w₁.readModel.find? id) := by
        rw [hnext, hfind, if_pos rfl]
        exact hrow.event hwr hq
      exact (ih hlt hrow₁ (by omega)).later (Nat.le_succ k) hstore
        (fun other hne => by rw [hfind, if_neg hne]) hfaults

/-- All events are projected although there is a profile. The first of them stops it. -/
theorem still_projectAll_of_known {rest : List Event} (hes : Projectable id (e :: rest)) {p : Profile}
    (hp : w.readModel.find? id = some p) :
    ∃ f w₁, attempt (projectAll (e :: rest)) w = (.error f, w₁) ∧ w.Still w₁ := by
  obtain rfl := hes.aggregateId_eq e List.mem_cons_self
  have hversion : e.version = 1 := hes.gapless.version_eq (i := 0) rfl
  have htype : e.type = .userCreated := (hes.created_iff_first e List.mem_cons_self).2 hversion
  obtain ⟨f, w₁, hproject, hstill⟩ := still_project_of_known htype hp
  refine ⟨f, w₁, ?_, hstill⟩
  rw [projectAll, attempt_bind, hproject]

/-- Catching up comes as far as nothing fails. -/
theorem progress_sync (hes : Projectable id es) {k : Nat} (hk : k ≤ es.length)
    (hstore : w.store.stream id = es.map Event.toRecord) {ts : List Time.Timestamp}
    (hrow : Drawn (es.take k) ts (w.readModel.find? id)) :
    Progress id es k ts w (attempt (sync id) w) := by
  have hversion := hrow.version_eq (hes.take k)
  rw [List.length_take, Nat.min_eq_left hk] at hversion
  have hsorted : ∀ v, sorted (es.drop v) = es.drop v := fun v =>
    sorted_eq_self (hes.gapless.pairwise.sublist (List.drop_sublist v es))
  by_cases hw : w.FaultFree
  · have hload : attempt (Attempt.loadAfter id k) w = (.ok (es.drop k), w) := by
      show gated .loadAfter _ w = _
      rw [gated_of_no_fault (hw _), EventStore.loadAfter_of_stream hstore hes.gapless]
    rw [sync, attempt_bind_of_ok (attempt_projectedVersion hw id), hversion,
      attempt_bind_of_ok hload, hsorted]
    exact progress_projectAll hes hk hrow
  obtain ⟨hread, hcurrent⟩ := still_projectedVersion id w
  rw [sync, attempt_bind]
  generalize attempt (projectedVersion id) w = r at hread hcurrent
  obtain ⟨_ | v, w₁⟩ := r
  · exact .stopped hk hrow hread hw
  obtain ⟨hload, hmissing⟩ := still_loadAfter (hread.store_eq ▸ hstore) hes.gapless v
  simp only
  rw [attempt_bind]
  generalize attempt (Attempt.loadAfter id v) w₁ = r at hload hmissing
  obtain ⟨_ | fs, w₂⟩ := r
  · exact .stopped hk hrow (hread.trans hload) hw
  have hstill : w.Still w₂ := hread.trans hload
  obtain rfl := hmissing fs rfl
  simp only [hsorted]
  rcases hcurrent v rfl with rfl | rfl
  · -- The version is 0 because there is no profile, or because it was not found.
    cases k with
    | zero => exact (progress_projectAll hes hk (hstill.readModel_eq ▸ hrow)).of_still hstill
    | succ k =>
      obtain ⟨e, rest, rfl⟩ := List.exists_cons_of_length_pos (Nat.lt_of_lt_of_le k.succ_pos hk)
      rcases hrow.shows (hes.take _) with ⟨hnil, -⟩ | ⟨p, -, hp, -⟩
      · cases hnil
      obtain ⟨f, w₃, hall, hstill'⟩ :=
        still_projectAll_of_known hes ((congrArg (ReadModel.find? · id) hstill.readModel_eq).trans hp)
      rw [List.drop_zero, hall]
      exact .stopped hk hrow (hstill.trans hstill') hw
  · rw [hversion]
    exact (progress_projectAll hes hk (hstill.readModel_eq ▸ hrow)).of_still hstill

/-! ## When nothing is left to be done -/

/-- Where all events have been taken in, reading the version leaves little to choose from. -/
theorem projectedVersion_of_drawn (hes : Projectable id es) {ts : List Time.Timestamp}
    (hrow : Drawn es ts (w.readModel.find? id)) {v : Nat}
    (hv : (attempt (projectedVersion id) w).1 = .ok v) : v = 0 ∨ v = es.length := by
  have hversion := (still_projectedVersion id w).2 v hv
  rwa [hrow.version_eq hes] at hversion

/-- An event that has been taken in changes nothing when it is delivered again, whatever fails. -/
theorem still_handle_of_drawn (hes : Projectable id es) {ts : List Time.Timestamp}
    (hrow : Drawn es ts (w.readModel.find? id)) (he : e ∈ es) :
    w.Still (attempt (handle e) w).2 := by
  obtain rfl := hes.aggregateId_eq e he
  obtain ⟨i, hi⟩ := List.mem_iff_getElem?.1 he
  have hlt := (List.getElem?_eq_some_iff.1 hi).1
  have hversion : e.version = i + 1 := hes.gapless.version_eq hi
  have hstill := (still_projectedVersion e.aggregateId w).1
  have hcurrent := fun v => projectedVersion_of_drawn (v := v) hes hrow
  rw [handle, attempt_bind]
  generalize attempt (projectedVersion e.aggregateId) w = r at hstill hcurrent
  obtain ⟨_ | v, w₁⟩ := r
  · exact hstill
  simp only
  split
  · exact hstill
  next hbeyond =>
  split
  · next hnext =>
    -- Only the first event can be taken for the next, and it is a sign-up.
    obtain rfl : v = 0 := (hcurrent v rfl).resolve_right (by omega)
    have htype : e.type = .userCreated := (hes.created_iff_first e he).2 hnext
    rcases hrow.shows hes with ⟨rfl, -⟩ | ⟨p, -, hp, -⟩
    · cases he
    obtain ⟨f, w₂, hproject, hstill'⟩ := still_project_of_known (w := w₁) htype
      ((congrArg (ReadModel.find? · _) hstill.readModel_eq).trans hp)
    rw [hproject]
    exact hstill.trans hstill'
  · exact hstill

end Simulation.World

namespace Projection

open Simulation World

/-- The job brings nothing new when all these events have been taken in: it catches up on their user,
or delivers one of them. -/
def Job.Repeats (id : String) (es : List Event) : Job → Prop
  | .save _ => False
  | .handle e => e ∈ es
  | .sync other => other = id

/-- All events of a user have been taken in. -/
structure Complete (id : String) (es : List Event) (ts : List Time.Timestamp) (w : World) : Prop where
  /-- they are stored -/
  stored : w.store.stream id = es.map Event.toRecord
  /-- they can be projected -/
  projectable : Projectable id es
  /-- the profile was drawn of them -/
  drawn : Drawn es ts (w.readModel.find? id)

namespace Complete

variable {id : String} {es : List Event} {ts : List Time.Timestamp} {w : World}

/-- Catching up has come as far as it can. -/
theorem progress (h : Complete id es ts w) :
    Progress id es es.length ts w (World.attempt (sync id) w) :=
  progress_sync h.projectable (Nat.le_refl _) h.stored
    (show Drawn (es.take es.length) ts _ by rw [List.take_length]; exact h.drawn)

/-- No more can be drawn. -/
theorem find?_sync (h : Complete id es ts w) (other : String) :
    (World.attempt (sync id) w).2.readModel.find? other = w.readModel.find? other := by
  by_cases hother : other = id
  · subst hother
    obtain ⟨j, ts', hle, hj, hdrawn, -⟩ := h.progress.drawn
    obtain rfl := Nat.le_antisymm hj hle
    rw [List.take_length] at hdrawn
    obtain rfl : ts' = [] := by
      have hlength := hdrawn.length_eq
      rw [List.length_append, h.drawn.length_eq] at hlength
      exact List.length_eq_zero_iff.1 (by omega)
    rw [List.append_nil] at hdrawn
    exact h.drawn.unique hdrawn
  · exact h.progress.find?_eq other hother

/-- What brings nothing new leaves all profiles as they are, whatever fails. -/
theorem find?_attempt (h : Complete id es ts w) {t : Job} (ht : t.Repeats id es) :
    (∀ other, (World.attempt t.attempt w).2.readModel.find? other = w.readModel.find? other) ∧
      (World.attempt t.attempt w).2.store = w.store := by
  cases t with
  | save => exact ht.elim
  | handle e =>
    have hstill := still_handle_of_drawn h.projectable h.drawn ht
    exact ⟨fun other => congrArg (ReadModel.find? · other) hstill.readModel_eq, hstill.store_eq⟩
  | sync other =>
    obtain rfl : other = id := ht
    exact ⟨h.find?_sync, h.progress.store_eq⟩

/-- If nothing fails, it does nothing at all, and succeeds. -/
theorem attempt_eq (h : Complete id es ts w) (hw : w.FaultFree) {t : Job} (ht : t.Repeats id es) :
    World.attempt t.attempt w = (.ok (), w) := by
  have hversion := h.drawn.version_eq h.projectable
  cases t with
  | save => exact ht.elim
  | handle e =>
    obtain rfl := h.projectable.aggregateId_eq e ht
    obtain ⟨i, hi⟩ := List.mem_iff_getElem?.1 ht
    have hlt := (List.getElem?_eq_some_iff.1 hi).1
    have hevent : e.version = i + 1 := h.projectable.gapless.version_eq hi
    rw [Job.attempt, handle, attempt_bind_of_ok (attempt_projectedVersion hw _), hversion,
      if_pos (by omega)]
    rfl
  | sync other =>
    obtain rfl : other = id := ht
    have hload : World.attempt (Attempt.loadAfter other es.length) w = (.ok [], w) := by
      show gated .loadAfter _ w = _
      rw [gated_of_no_fault (hw _),
        EventStore.loadAfter_of_stream h.stored h.projectable.gapless, List.drop_length]
    rw [Job.attempt, sync, attempt_bind_of_ok (attempt_projectedVersion hw _), hversion,
      attempt_bind_of_ok hload, gapless_nil.sorted_eq]
    rfl

/-- So it is with any number of such jobs. -/
theorem finishAll_eq (h : Complete id es ts w) {jobs : List Job}
    (hjobs : ∀ t ∈ jobs, t.Repeats id es) :
    (∀ other, (finishAll (jobs.map fun t => t.attempt.run) w).2.readModel.find? other =
        w.readModel.find? other) ∧
      (w.FaultFree → finishAll (jobs.map fun t => t.attempt.run) w = (jobs.map fun _ => .ok (), w)) := by
  induction jobs generalizing w with
  | nil => exact ⟨fun _ => rfl, fun _ => rfl⟩
  | cons t jobs ih =>
    have ht := hjobs t List.mem_cons_self
    obtain ⟨hfind, hstore⟩ := h.find?_attempt ht
    have hnext : Complete id es ts (World.attempt t.attempt w).2 := by
      refine ⟨?_, h.projectable, ?_⟩
      · rw [hstore]
        exact h.stored
      · rw [hfind]
        exact h.drawn
    obtain ⟨hkept, -⟩ := ih hnext fun t' ht' => hjobs t' (List.mem_cons_of_mem t ht')
    refine ⟨fun other => (hkept other).trans (hfind other), fun hw => ?_⟩
    obtain ⟨-, hall⟩ := ih h fun t' ht' => hjobs t' (List.mem_cons_of_mem t ht')
    have hfirst : t.attempt.run.run surroundings w = (.ok (), w) := h.attempt_eq hw ht
    rw [List.map_cons, finishAll, hfirst]
    simp only [hall hw, List.map_cons]

end Complete

/-- **Catching up can be broken off and resumed.** Let a history be stored that can be projected, and
let the profile of its user be drawn of the first `k` events. Catching up on the user adds to it what
comes of the events that are missing, up to the first that fails, and all of them if nothing fails;
what was drawn before is kept, and so is everything else. A later attempt without faults completes
it. When all events have been taken in, catching up again and delivering any of them again, as often
as one likes, changes no profile, and succeeds when no operation fails. -/
theorem sync_resumes {id : String} {es : List Event} (hes : Projectable id es) {k : Nat}
    (hk : k ≤ es.length) {w : World} (hstore : w.store.stream id = es.map Event.toRecord)
    {ts : List Time.Timestamp} (hrow : Drawn (es.take k) ts (w.readModel.find? id)) :
    Progress id es k ts w (World.attempt (sync id) w) ∧
    (∀ w₁ : World, w₁.FaultFree → w₁.store.stream id = es.map Event.toRecord →
      w₁.readModel.find? id = (World.attempt (sync id) w).2.readModel.find? id →
      ∃ w₂ ts', World.attempt (sync id) w₁ = (.ok (), w₂) ∧
        Drawn es (ts ++ ts') (w₂.readModel.find? id)) ∧
    (k = es.length → ∀ jobs : List Job, (∀ t ∈ jobs, t.Repeats id es) →
      (∀ other, (finishAll (jobs.map fun t => t.attempt.run) w).2.readModel.find? other =
        w.readModel.find? other) ∧
      (w.FaultFree →
        finishAll (jobs.map fun t => t.attempt.run) w = (jobs.map fun _ => .ok (), w))) ∧
    ∀ ts' p, Drawn es ts' (some p) →
      p.version = es.length ∧ ∃ u, User.ofHistory id es = .ok u ∧ p.Shows u := by
  have hprogress := progress_sync hes hk hstore hrow
  refine ⟨hprogress, fun w₁ hw₁ hstore₁ hrow₁ => ?_, fun hall jobs hjobs => ?_,
    fun ts' p hp => ?_⟩
  · obtain ⟨j, ts', -, hj, hdrawn, -⟩ := hprogress.drawn
    rw [← hrow₁] at hdrawn
    have hlater := progress_sync hes hj hstore₁ hdrawn
    obtain ⟨hok, -⟩ := hlater.undisturbed hw₁
    obtain ⟨i, ts'', -, -, hdrawn', hcomplete⟩ := hlater.drawn
    rw [hcomplete hok, List.take_length, List.append_assoc] at hdrawn'
    exact ⟨_, ts' ++ ts'', Prod.ext hok rfl, hdrawn'⟩
  · subst hall
    rw [List.take_length] at hrow
    exact Complete.finishAll_eq ⟨hstore, hes, hrow⟩ hjobs
  · rcases hp.shows hes with ⟨-, hnone⟩ | ⟨q, u, hq, hversion, hu, hshows⟩
    · cases hnone
    · cases hq
      exact ⟨hversion, u, hu, hshows⟩

/-- What is drawn of a sign-up. -/
def signedUpProfile : Profile :=
  ⟨"kim", "kim", "kim@example.org", 0, "KIM", none, [], 1, Supply.standard.time 0,
    Supply.standard.time 0, none⟩

/-- A world that holds two events of a user, of which the first has been taken in, and where the next
attempt to add points fails. -/
def interrupted : World where
  store := .holding [signedUp, gained]
  readModel := ⟨[signedUpProfile], by decide⟩
  faults
    | .earnPoints => [some (.readModel "not available")]
    | _ => []

theorem projectable_kim : Projectable "kim" [signedUp, gained] where
  aggregateId_eq := by decide
  gapless := rfl
  created_iff_first := by decide
  replays := by
    have hgapless : Gapless [signedUp, gained] := rfl
    rw [User.ofHistory_of_gapless _ hgapless]
    exact ⟨_, rfl⟩

/-- The first attempt fails, the second completes what it left, and then nothing is left to be done. -/
theorem interrupted_resumes :
    ∃ w₁ w₂ ts, World.attempt (sync "kim") interrupted = (.error (.readModel "not available"), w₁) ∧
      World.attempt (sync "kim") w₁ = (.ok (), w₂) ∧
      Drawn [signedUp, gained] ts (w₂.readModel.find? "kim") ∧
      finishAll ([Job.handle gained, .sync "kim", .handle signedUp].map fun t => t.attempt.run) w₂ =
        ([.ok (), .ok (), .ok ()], w₂) := by
  have hstore : interrupted.store.stream "kim" = [signedUp, gained].map Event.toRecord := by
    decide +kernel
  have hwrite : writeFor signedUp = .ok (.createUser signedUpProfile) := rfl
  have hfirst : Drawn ([signedUp, gained].take 1) [Supply.standard.time 0]
      (interrupted.readModel.find? "kim") := Drawn.nothing.event hwrite (.created signedUpProfile)
  have hfails : (World.attempt (sync "kim") interrupted).1 = .error (.readModel "not available") := by
    decide +kernel
  have hfaults : (World.attempt (sync "kim") interrupted).2.FaultFree := by
    intro op
    cases op <;> decide +kernel
  obtain ⟨hprogress, -⟩ := sync_resumes projectable_kim (by decide) hstore hfirst
  have hstore₁ := (congrArg (EventStore.stream · "kim") hprogress.store_eq).trans hstore
  obtain ⟨j, ts', -, hj, hdrawn, -⟩ := hprogress.drawn
  obtain ⟨hlater, -⟩ := sync_resumes projectable_kim hj hstore₁ hdrawn
  obtain ⟨hok, hfaults₂⟩ := hlater.undisturbed hfaults
  obtain ⟨i, ts'', -, hi, hdrawn₂, hall⟩ := hlater.drawn
  have hstore₂ := (congrArg (EventStore.stream · "kim") hlater.store_eq).trans hstore₁
  obtain ⟨-, -, hrepeat, -⟩ := sync_resumes projectable_kim hi hstore₂ hdrawn₂
  rw [hall hok] at hdrawn₂
  exact ⟨_, _, _, Prod.ext hfails rfl, Prod.ext hok rfl, hdrawn₂,
    (hrepeat (hall hok) [.handle gained, .sync "kim", .handle signedUp]
      (by simp [Job.Repeats])).2 hfaults₂⟩

end Projection

end Loyalty
