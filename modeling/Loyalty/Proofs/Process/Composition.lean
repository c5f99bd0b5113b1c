import Loyalty.Proofs.Process.Interleaving

/-!
# Activities composed of known parts

The activities of the program are put together from a few attempts that matter and much else that
does not: of what is not in a *part* we only ask that it makes no requests but *free* ones. That is
what `Activity.Composed` says, and each way of putting activities together keeps it.

While such an activity is under way, some of its parts are under way. `Activity.Woven` keeps track:
at each place where a part is under way, what that part has heard is the latest that was heard
there. So when a request is made that is not free, the part that makes it is known, and so is all
that this part was answered before.

Main statement: after every list of moves, of a pool in which only such activities are started,
each request in the log that is not free was made by a part with the answers that the log has.
-/

namespace Loyalty

namespace Activity

variable {ι α : Type} (part : ι → Calls α) (free : Request → Prop)

/-- An activity that makes free requests, and lets parts happen. -/
inductive Composed : Activity → Prop where
  /-- the end -/
  | done (o : Outcome) : Composed (done o)
  /-- a free request -/
  | call {r : Request} (hr : free r) {k : r.Answer → Activity} (hk : ∀ x, Composed (k x)) :
    Composed (call r k)
  /-- a pause -/
  | pause (n : Nat) {a : Activity} (ha : Composed a) : Composed (pause n a)
  /-- two sides -/
  | fork {a b : Activity} (ha : Composed a) (hb : Composed b) {k : Outcome → Activity}
    (hk : ∀ o, Composed (k o)) : Composed (fork a b k)
  /-- many members -/
  | crowd {n : Nat} {members : Fin n → Activity} (hm : ∀ i, Composed (members i))
    {k : Outcome → Activity} (hk : ∀ o, Composed (k o)) : Composed (crowd n members k)
  /-- a part -/
  | part (i : ι) {g : α → Activity} (hg : ∀ x, Composed (g x)) : Composed (ofCalls (part i) g)

variable {part free}

theorem ofCalls_bind (m : Calls α) (g : α → Activity) (h : Outcome → Activity) :
    (ofCalls m g).bind h = ofCalls m fun x => (g x).bind h := by
  induction m with
  | done a => rfl
  | call r k ih => exact congrArg (call r) (funext ih)

theorem Composed.bind {a : Activity} (ha : Composed part free a) {g : Outcome → Activity}
    (hg : ∀ o, Composed part free (g o)) : Composed part free (a.bind g) := by
  induction ha with
  | done o => exact hg o
  | call hr _ ih => exact .call hr ih
  | pause n _ ih => exact .pause n ih
  | fork ha hb _ _ _ ih => exact .fork ha hb ih
  | crowd hm _ _ ih => exact .crowd hm ih
  | part i _ ih =>
    rw [ofCalls_bind]
    exact .part i ih

/-! ## Parts under way -/

/-- What is heard at each place once something more has been heard. -/
def hear (H : Place → List Exchange) (x : Option (Place × Exchange)) (π : Place) :
    List Exchange :=
  H π ++ Log.heardAt x.toList π

/-- What is heard at each place of a part. -/
def heardIn (H : Place → List Exchange) (i : Nat) (π : Place) : List Exchange :=
  H (i :: π)

theorem heardIn_hear_self (H : Place → List Exchange) (i : Nat) (x : Option (Place × Exchange)) :
    heardIn (hear H (x.map fun e => (i :: e.1, e.2))) i = hear (heardIn H i) x := by
  cases x with
  | none => rfl
  | some e => simp [funext_iff, heardIn, hear, Log.heardAt_cons]

theorem heardIn_hear_ne (H : Place → List Exchange) {i j : Nat} (h : j ≠ i)
    (x : Option (Place × Exchange)) :
    heardIn (hear H (x.map fun e => (i :: e.1, e.2))) j = heardIn H j := by
  cases x with
  | none => simp [funext_iff, heardIn, hear]
  | some e => simp [funext_iff, heardIn, hear, Log.heardAt_cons, h.symm]

variable (part free)

/-- An activity composed of known parts, of which some are under way: at each place where one is,
what it has heard is the latest that was heard there. -/
inductive Woven : (Place → List Exchange) → Activity → Prop where
  /-- no part is under way -/
  | composed {H : Place → List Exchange} {a : Activity} (ha : Composed part free a) : Woven H a
  /-- a part is under way here -/
  | going {H : Place → List Exchange} (i : ι) {heard : List Exchange} {m : Calls α}
    (hm : (part i).After heard m) (hH : heard <:+ H []) {g : α → Activity}
    (hg : ∀ x, Composed part free (g x)) : Woven H (ofCalls m g)
  /-- parts are under way on the sides of a fork -/
  | fork {H : Place → List Exchange} {a b : Activity} (ha : Woven (heardIn H 0) a)
    (hb : Woven (heardIn H 1) b) {k : Outcome → Activity}
    (hk : ∀ o, Composed part free (k o)) : Woven H (fork a b k)
  /-- parts are under way among the members of a crowd -/
  | crowd {H : Place → List Exchange} {n : Nat} {members : Fin n → Activity}
    (hm : ∀ i : Fin n, Woven (heardIn H i) (members i)) {k : Outcome → Activity}
    (hk : ∀ o, Composed part free (k o)) : Woven H (crowd n members k)

/-- Who made a request that is not free, at a place where so much had been heard: a part that was
about to make it after what it heard last. -/
def Sourced (H : List Exchange) (r : Request) : Prop :=
  free r ∨ ∃ i heard k, (part i).After heard (.call r k) ∧ heard <:+ H

/-- What a step does to an activity composed of known parts. -/
structure Weaves {σ : Type} (H : Place → List Exchange) (x : Stepped σ) : Prop where
  /-- the parts under way are still known -/
  woven : Woven part free (hear H x.exchange?) x.activity
  /-- so is who made the request -/
  sourced : ∀ π e, x.exchange? = some (π, e) → Sourced part free (H π) e.request

variable {part free} {σ : Type}

theorem Weaves.silent {H : Place → List Exchange} {a : Activity} (ha : Woven part free H a)
    (w : σ) : Weaves part free H (.silent a w) where
  woven := by
    have hH : hear H none = H := by simp [funext_iff, hear]
    rw [Stepped.silent, hH]
    exact ha
  sourced := by
    rintro π e ⟨⟩

theorem Weaves.within {H : Place → List Exchange} {i : Nat} {x : Stepped σ}
    (hx : Weaves part free (heardIn H i) x) {whole : Activity → Activity}
    (hwhole : ∀ H', heardIn H' i = hear (heardIn H i) x.exchange? →
      (∀ j ≠ i, heardIn H' j = heardIn H j) → Woven part free H' (whole x.activity)) :
    Weaves part free H (x.within i whole) where
  woven := hwhole _ (heardIn_hear_self H i _) fun _ hj => heardIn_hear_ne H hj _
  sourced := by
    intro π e h
    obtain ⟨⟨ρ, e'⟩, hx', he⟩ := Option.map_eq_some_iff.1 h
    cases he
    exact hx.sourced ρ e' hx'

/-- A request that is made here, and answered. -/
theorem Weaves.here (s : Surroundings σ) (w : σ) {H : Place → List Exchange} {r : Request}
    (hr : Sourced part free (H []) r) {k : r.Answer → Activity}
    (hk : ∀ x H', H' [] = H [] ++ [⟨r, x⟩] → Woven part free H' (k x)) (π : Place) :
    Weaves part free H ((call r k).advance s w π) where
  woven := hk _ _ (by simp [advance, hear, Log.heardAt_cons])
  sourced := by
    rintro ρ e ⟨⟩
    exact hr

/-- A part goes on. -/
theorem weaves_ofCalls (s : Surroundings σ) (w : σ) (i : ι) {m : Calls α} {heard : List Exchange}
    (hm : (part i).After heard m) {H : Place → List Exchange} (hH : heard <:+ H [])
    {g : α → Activity} (hg : ∀ x, Composed part free (g x)) {π : Place}
    (hend : ∀ x, Weaves part free H ((g x).advance s w π)) :
    Weaves part free H ((ofCalls m g).advance s w π) := by
  cases m with
  | done a => exact hend a
  | call r k =>
    -- The answer is the latest that is heard at the place, and the latest that the part has heard.
    refine .here s w (.inr ⟨i, heard, k, hm, hH⟩) (fun x H' hH' => ?_) π
    refine .going i (hm.next x) ?_ hg
    obtain ⟨before, hbefore⟩ := hH
    exact ⟨before, by rw [hH', ← hbefore, List.append_assoc]⟩

theorem weaves_fork (s : Surroundings σ) (w : σ) {H : Place → List Exchange} {a b : Activity}
    (ha : Woven part free (heardIn H 0) a) (hb : Woven part free (heardIn H 1) b)
    (iha : ∀ π, Weaves part free (heardIn H 0) (a.advance s w π))
    (ihb : ∀ π, Weaves part free (heardIn H 1) (b.advance s w π)) {k : Outcome → Activity}
    (hk : ∀ o, Composed part free (k o)) (π : Place) :
    Weaves part free H ((Activity.fork a b k).advance s w π) := by
  unfold advance
  split
  · exact .silent (.composed (hk _)) w
  · split
    · exact .silent (.fork ha hb hk) w
    · refine (iha _).within fun H' h0 hne => .fork ?_ ?_ hk
      · rw [h0]
        exact (iha _).woven
      · rw [hne 1 (by decide)]
        exact hb
    · refine (ihb _).within fun H' h1 hne => .fork ?_ ?_ hk
      · rw [hne 0 (by decide)]
        exact ha
      · rw [h1]
        exact (ihb _).woven

theorem weaves_crowd (s : Surroundings σ) (w : σ) {H : Place → List Exchange} {n : Nat}
    {members : Fin n → Activity} (hm : ∀ i : Fin n, Woven part free (heardIn H i) (members i))
    (ih : ∀ (i : Fin n) π, Weaves part free (heardIn H i) ((members i).advance s w π))
    {k : Outcome → Activity} (hk : ∀ o, Composed part free (k o)) (π : Place) :
    Weaves part free H ((Activity.crowd n members k).advance s w π) := by
  unfold advance
  split
  · exact .silent (.composed (hk _)) w
  · split
    · exact .silent (.crowd hm hk) w
    · split
      · next i ρ hi =>
        -- Nothing was heard where the other members are.
        refine (ih ⟨i, hi⟩ ρ).within fun H' hself hne => .crowd (fun j => ?_) hk
        by_cases hj : j = ⟨i, hi⟩
        · subst hj
          rw [Function.update_self, hself]
          exact (ih ⟨i, hi⟩ ρ).woven
        · have hval : (j : Nat) ≠ i := fun h => hj (Fin.ext h)
          rw [Function.update_of_ne hj, hne j hval]
          exact hm j
      · exact .silent (.crowd hm hk) w

theorem Composed.weaves {a : Activity} (ha : Composed part free a) (s : Surroundings σ) (w : σ)
    (H : Place → List Exchange) (π : Place) : Weaves part free H (a.advance s w π) := by
  induction ha generalizing H π with
  | done o => exact .silent (.composed (.done o)) w
  | call hr hk _ => exact .here s w (.inl hr) (fun x _ _ => .composed (hk x)) π
  | pause n ha _ => exact .silent (.composed ha) w
  | fork ha hb hk iha ihb _ =>
    exact weaves_fork s w (.composed ha) (.composed hb) (iha _) (ihb _) hk π
  | crowd hm hk ih _ => exact weaves_crowd s w (fun i => .composed (hm i)) (fun i => ih i _) hk π
  | part i hg ih => exact weaves_ofCalls s w i (.start _) (List.nil_suffix) hg fun x => ih x H π

/-- One step, wherever it is taken, and whatever is answered. -/
theorem Woven.weaves {H : Place → List Exchange} {a : Activity} (ha : Woven part free H a)
    (s : Surroundings σ) (w : σ) (π : Place) : Weaves part free H (a.advance s w π) := by
  -- The induction is on how the activity is woven; what each place has heard changes with it.
  induction ha generalizing π with
  | composed ha => exact ha.weaves s w _ π
  | going i hm hH hg => exact weaves_ofCalls s w i hm hH hg fun x => (hg x).weaves s w _ π
  | fork ha hb hk iha ihb => exact weaves_fork s w ha hb iha ihb hk π
  | crowd hm hk ih => exact weaves_crowd s w hm ih hk π

end Activity

/-! ## Pools -/

/-- A log all of whose requests that are not free were made by parts with the answers that the log
has. -/
def Log.Accounted {ι α : Type} (part : ι → Calls α) (free : Request → Prop) : Log → Prop :=
  Log.Each fun before π x => Activity.Sourced part free (before.heardAt π) x.request

namespace Pool

variable {ι α : Type} (part : ι → Calls α) (free : Request → Prop) {σ κ : Type}

/-- A pool of activities that are composed of known parts. -/
structure Woven (P : Pool σ) : Prop where
  /-- the parts of the members that are under way are known -/
  members : ∀ i a, P.members[i]? = some a →
    Activity.Woven part free (Activity.heardIn P.log.heardAt i) a
  /-- so is who made the requests of the log -/
  accounted : P.log.Accounted part free

variable {part free}

theorem woven_empty (w : σ) : (empty w).Woven part free where
  members i a h := by simp [empty] at h
  accounted := .nil

theorem Woven.took {P : Pool σ} (hP : P.Woven part free) {i : Nat} {a : Activity}
    (ha : P.members[i]? = some a) {x : Activity.Stepped σ}
    (hx : Activity.Weaves part free (Activity.heardIn P.log.heardAt i) x) :
    (P.took i x).Woven part free where
  members j b hb := by
    have hlog : (P.took i x).log.heardAt =
        Activity.hear P.log.heardAt (x.exchange?.map fun e => (i :: e.1, e.2)) := by
      funext π
      rw [Pool.took, Log.heardAt_append, Activity.hear]
    rw [hlog]
    -- The places of another member begin with another number, so nothing new was heard there.
    by_cases hj : j = i
    · subst hj
      have hlt : j < P.members.length := (List.getElem?_eq_some_iff.1 ha).1
      obtain rfl : x.activity = b := by simpa [Pool.took, hlt] using hb
      rw [Activity.heardIn_hear_self]
      exact hx.woven
    · rw [Activity.heardIn_hear_ne _ hj]
      refine hP.members j b ?_
      simpa [Pool.took, List.getElem?_set_ne (Ne.symm hj)] using hb
  accounted := by
    rw [Pool.took]
    cases hex : x.exchange? with
    | none => simpa using hP.accounted
    | some e => exact .more hP.accounted (hx.sourced e.1 e.2 hex)

theorem Woven.step (s : Surroundings σ) {launch : κ → Activity} {move : Move κ}
    (hlaunch : ∀ x, move = .start x → (launch x).Composed part free) {P : Pool σ}
    (hP : P.Woven part free) : (P.step s launch move).Woven part free := by
  cases move with
  | start x =>
    refine ⟨fun i a ha => ?_, hP.accounted⟩
    by_cases hi : i < P.members.length
    · exact hP.members i a ((List.getElem?_append_left hi).symm.trans ha)
    · have hlast : [launch x][i - P.members.length]? = some a :=
        (List.getElem?_append_right (Nat.le_of_not_lt hi)).symm.trans ha
      obtain rfl : a = launch x := by simpa using List.mem_of_getElem? hlast
      exact .composed (hlaunch x rfl)
  | pass nanos => exact ⟨hP.members, hP.accounted⟩
  | go i π =>
    rw [Pool.step]
    split
    · exact hP
    · next a ha => exact hP.took ha ((hP.members i a ha).weaves s P.state π)

/-- Whatever moves are made, it is known who makes the requests. -/
theorem Woven.run (s : Surroundings σ) {launch : κ → Activity} (moves : List (Move κ))
    (hlaunch : ∀ x, Move.start x ∈ moves → (launch x).Composed part free) {P : Pool σ}
    (hP : P.Woven part free) : (P.run s launch moves).Woven part free := by
  induction moves generalizing P with
  | nil => exact hP
  | cons move moves ih =>
    have hfirst : (P.step s launch move).Woven part free :=
      hP.step s fun x hx => hlaunch x (hx ▸ List.mem_cons_self)
    exact ih (fun x hx => hlaunch x (List.mem_cons_of_mem move hx)) hfirst

end Pool

end Loyalty
