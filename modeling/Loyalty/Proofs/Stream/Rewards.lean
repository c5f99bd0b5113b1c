import Loyalty.Proofs.Stream.Balance
import Loyalty.Proofs.Stream.Dispatch

/-!
# What rewards come to

Somebody has signed up, and the rewards are told of it, in a world without faults. Without a code one
command is given, and it is accepted. With a code it depends on whether somebody hands it out. If so,
three commands are given, and each of them is accepted: the user who referred has a sound history and
has not left, and what one command does is no reason to refuse the next. If not, the look-up fails, and
however often it is repeated it does nothing.

There is one thing that can go wrong, that a balance does not hold its points. Then the store is out of
bounds, and stays so. So all of this is said of stores that are in bounds in the end.

Main statement: what the rewards for a sign-up add to the balances.
-/

namespace Loyalty

open History Simulation Execution

/-- How the rewards are told of an event. -/
def Wiring.tellReward (w : Wiring) (e : Event) : Activity :=
  w.bus.deliver e ⟨1, Reward.handler w.dispatchReward⟩

/-- Somebody with this identity has signed up and has not left. -/
structure History.Active (id : String) (es : List Event) : Prop where
  /-- there is a history -/
  ne_nil : ofUser id es ≠ []
  /-- and no deletion in it -/
  not_deleted : ∀ e ∈ ofUser id es, e.type ≠ .userDeleted

/-- The reward for a sign-up that was just saved: how many points the user `id` is given when
`newUser` has signed up with the given code. -/
def EventStore.signUpReward (s : EventStore) (newUser : String) (givenCode : Option String)
    (id : String) : Nat :=
  match givenCode with
  | none => if newUser = id then 100 else 0
  | some code =>
    (if newUser = id ∧ s.taken code = true then 200 else 0) + (if s.holds id code = true then 200 else 0)

theorem History.Active.concat {id : String} {es : List Event} (h : Active id es) {e : Event}
    (he : e.type ≠ .userDeleted) : Active id (es ++ [e]) where
  ne_nil := by
    rw [ofUser_append]
    exact List.append_ne_nil_of_left_ne_nil h.ne_nil _
  not_deleted x hx := by
    rw [ofUser_append] at hx
    rcases List.mem_append.1 hx with hx | hx
    · exact h.not_deleted x hx
    · obtain rfl := List.mem_singleton.1 (List.mem_filter.1 hx).1
      exact he

/-- Who has just signed up has not left. -/
theorem History.active_signUp {es : List Event} {e : Event} {s : SignUp}
    (hs : e.decode = .ok (.created s)) (hnone : ofUser e.aggregateId es = []) :
    Active e.aggregateId (es ++ [e]) := by
  have hnew : ofUser e.aggregateId (es ++ [e]) = [e] := by
    rw [ofUser_concat_self, hnone, List.nil_append]
  refine ⟨by simp [hnew], fun x hx => ?_⟩
  rw [hnew] at hx
  obtain rfl := List.mem_singleton.1 hx
  rw [← Event.type_of_decode hs]
  exact nofun

/-- Who hands out a code has not left. -/
theorem EventStore.active_of_holds {es : List Event} {id code : String}
    (hes : Gapless (ofUser id es)) (h : (holding es).holds id code = true) : Active id es where
  ne_nil := ne_nil_of_holds hes h
  not_deleted e he htype := by
    obtain ⟨u, hu, hactive, -⟩ := (holds_holding_iff hes).1 h
    have hdeleted := (User.reflects_of_ofHistory hes hu).isDeleted_iff.2 ⟨e, he, htype⟩
    rw [hactive] at hdeleted
    cases hdeleted

theorem History.Active.isDeleted_eq {id : String} {es : List Event} (h : Active id es)
    (hes : Gapless (ofUser id es)) {u : User} (hu : User.ofHistory id (ofUser id es) = .ok u) :
    u.isDeleted = false := by
  refine Bool.eq_false_iff.2 fun hdeleted => ?_
  obtain ⟨e, he, htype⟩ := (User.reflects_of_ofHistory hes hu).isDeleted_iff.1 hdeleted
  exact h.not_deleted e he htype

/-! ## What events add -/

/-- Some events came, with which nobody signed up. `gain` says how many points each user was given. -/
structure History.Gains (es : List Event) (gain : String → Nat) (es' : List Event) : Prop where
  /-- there are no new codes -/
  codes_eq : codes es' = codes es
  /-- points were added -/
  balance_eq : ∀ id, (EventStore.holding es').balance id = (EventStore.holding es).balance id + gain id

theorem History.Gains.refl (es : List Event) : Gains es (fun _ => 0) es :=
  ⟨rfl, fun _ => rfl⟩

theorem History.Gains.trans {es es' es'' : List Event} {gain gain' : String → Nat}
    (h : Gains es gain es') (h' : Gains es' gain' es'') :
    Gains es (fun id => gain id + gain' id) es'' where
  codes_eq := h'.codes_eq.trans h.codes_eq
  balance_eq id := by
    rw [h'.balance_eq, h.balance_eq, Nat.add_assoc]

theorem History.Gains.congr {es es' : List Event} {gain gain' : String → Nat}
    (h : Gains es gain es') (hgain : ∀ id, gain id = gain' id) : Gains es gain' es' where
  codes_eq := h.codes_eq
  balance_eq id := by
    rw [h.balance_eq, hgain]

theorem Commit.On.points_eq {m : Commit} {es : List Event} (hm : m.On es) :
    m.event.points = m.command.points :=
  Command.points_of_decide (Basis.decide_eq_ok hm.decided)

theorem Commit.On.not_deleted {m : Commit} {history : List Event} (hm : m.On history) {c : Command}
    (hmc : m.command = c) (hc : c.kind ≠ .deleteUser) : m.event.type ≠ .userDeleted :=
  Command.type_of_decide (hmc ▸ hc) (Basis.decide_eq_ok hm.decided)

/-- The event of a command gives what the command says to whom it says. -/
theorem Commit.On.gains_of {m : Commit} {history : List Event} (hm : m.On history) {c : Command}
    (hmc : m.command = c) (hc : c.kind ≠ .createUser) (es : List Event) :
    Gains es (fun id => if c.aggregateId = id then c.points else 0) (es ++ [m.event]) where
  codes_eq := by
    subst hmc
    have htype : m.event.type ≠ .userCreated := Basis.not_created_of_decide hc hm.decided
    rw [codes_concat, Event.code?_eq_none htype, Option.toList_none, List.append_nil]
  balance_eq id := by
    rw [EventStore.balance_concat, hm.aggregateId_eq, hm.points_eq, hmc]

/-! ## Searching by code -/

namespace Simulation.World

variable {w : World} {es : List Event}

/-- Whoever is found by a code hands it out. -/
theorem At.holds_of_found (h : At es es w) (hbounds : (EventStore.holding es).InBounds)
    {code : String} {p : Profile} (hp : w.readModel.userByReferralCode code = .ok p) :
    (EventStore.holding es).holds p.userId code = true := by
  rw [ReadModel.userByReferralCode] at hp
  split at hp
  · cases hp
  · next q hq =>
    cases hp
    have hfound := List.find?_some hq
    obtain ⟨hactive, hcode⟩ := Bool.and_eq_true_iff.1 hfound
    have hcurrent := h.current p.userId
    rw [ReadModel.find?_of_mem (List.mem_of_find?_eq_some hq)] at hcurrent
    have hne : ofUser p.userId es ≠ [] := by
      intro hnil
      rw [hnil] at hcurrent
      cases hcurrent.eq_none
    obtain ⟨u, hu⟩ := hbounds.replays (h.grown p.userId)
    obtain ⟨q, hpq, hshows⟩ := hcurrent.shows hne hu
    obtain rfl := Option.some.inj hpq
    refine (EventStore.holds_holding_iff (h.grown _).gapless).2 ⟨u, hu, ?_, ?_⟩
    · rw [User.isDeleted, ← hshows.deletedAt_eq, Option.isSome_eq_false_iff, hactive]
    · rw [← hshows.referralCode_eq, eq_of_beq hcode]

/-- A code that somebody hands out is found. -/
theorem At.found_of_holds (h : At es es w) {id code : String}
    (hid : (EventStore.holding es).holds id code = true) :
    ∃ p, w.readModel.userByReferralCode code = .ok p := by
  have hgapless := (h.grown id).gapless
  obtain ⟨u, hu, hactive, hcode⟩ := (EventStore.holds_holding_iff hgapless).1 hid
  rw [ReadModel.userByReferralCode]
  cases hfind : w.readModel.profiles.find? fun p => p.deletedAt.isNone && p.referralCode == code with
  | some p => exact ⟨p, rfl⟩
  | none =>
    obtain ⟨p, hrow, hshows⟩ := (h.current id).shows (EventStore.ne_nil_of_holds hgapless hid) hu
    have hmem : p ∈ w.readModel.profiles := List.mem_of_find?_eq_some hrow
    refine absurd ?_ (List.find?_eq_none.1 hfind p hmem)
    rw [User.isDeleted, ← hshows.deletedAt_eq, Option.isSome_eq_false_iff] at hactive
    rw [← hshows.referralCode_eq] at hcode
    simp [hactive, Option.some.inj hcode]

/-- A search, when no operation fails. -/
theorem perform_userByReferralCode (hw : w.FaultFree) (code : String) (g : Profile → Activity) :
    perform (.attempt (Attempt.userByReferralCode code) g) w =
      match w.readModel.userByReferralCode code with
      | .ok p => perform (g p) w
      | .error f => (.error f, w) := by
  have hanswer : Calls.run surroundings (Attempt.userByReferralCode code).run w =
      (w.readModel.userByReferralCode code, w) := gated_of_no_fault (hw _) _
  rw [perform, Activity.attempt, Activity.run_ofCalls, hanswer]
  cases w.readModel.userByReferralCode code with
  | ok p => rfl
  | error f => rfl

/-! ## Accepted commands -/

/-- The world is as it should be after some event was delivered; all users have identities, and newly
made identities are not blank. -/
structure Ordered (es : List Event) (w : World) : Prop extends At es es w where
  /-- nobody is without an identity -/
  named : ∀ e ∈ es, Text.isBlank e.aggregateId = false
  /-- newly made identities are not blank -/
  ids : ∀ n, Text.isBlank (w.supply.id n) = false

theorem named_concat (h : ∀ e ∈ es, Text.isBlank e.aggregateId = false) {m : Commit}
    {history : List Event} (hm : m.On history) :
    ∀ e ∈ es ++ [m.event], Text.isBlank e.aggregateId = false := by
  intro e he
  rcases List.mem_append.1 he with he | he
  · exact h e he
  · obtain rfl := List.mem_singleton.1 he
    rw [hm.aggregateId_eq]
    exact notBlank_of_on hm

theorem Ordered.answer (h : Ordered es w) {r : Request} (hsave : r.IsNoSave)
    (hwrite : r.IsNoWrite) : Ordered es (w.answer r).2 where
  toAt := h.toAt.answer hsave hwrite
  named := h.named
  ids n := by
    rw [(onward_answer w r).supply_eq]
    exact h.ids n

theorem Ordered.isBlank_eq (h : Ordered es w) {id : String} (hne : ofUser id es ≠ []) :
    Text.isBlank id = false := by
  obtain ⟨e, he⟩ := List.exists_mem_of_ne_nil _ hne
  obtain ⟨hmem, hid⟩ := List.mem_filter.1 he
  rw [← of_decide_eq_true hid]
  exact h.named e hmem

/-- A command on which the rule decides, given what the world has to offer, can be committed. -/
theorem Ordered.committable (h : Ordered es w) {c : Command} (hc : c.kind ≠ .createUser)
    (hne : ofUser c.aggregateId es ≠ []) {u : User}
    (hu : User.ofHistory c.aggregateId (ofUser c.aggregateId es) = .ok u)
    (hdecides : ∃ e, c.decide u (w.textFor c) (w.supply.time w.readings) = .ok [e]) :
    ∃ m : Commit, m.command = c ∧ m.GoesBy w ∧ m.On (ofUser c.aggregateId es) := by
  obtain ⟨e, he⟩ := hdecides
  obtain ⟨d, -, hes⟩ := Command.decide_eq_ok hc he
  have hid : e.aggregateId = c.aggregateId := by
    rw [(List.cons.inj hes).1]
    exact User.id_of_ofHistory hu
  have hdecided : Basis.decide ⟨w.supply.time w.readings, u, w.textFor c⟩ c = .ok [e] := by
    rw [Basis.decide, he]
    rfl
  have hsound : Repository.batchFault? [e] = none :=
    Repository.batchFault?_eq_none_iff.2 ⟨hid ▸ h.isBlank_eq hne, by simp⟩
  exact ⟨⟨c, _, e⟩, rfl, ⟨rfl, rfl⟩, hdecided, hid, hsound, fun hkind => absurd hkind hc,
    fun _ => ⟨hne, hu⟩⟩

/-- Points for a user who has not left. -/
theorem Ordered.committable_points (h : Ordered es w)
    (hbounds : (EventStore.holding es).InBounds) {id : String} (hid : Active id es) {n : Points}
    (hn : n ≠ 0) :
    ∃ m : Commit, m.command = .earnPoints ⟨id, n⟩ ∧ m.GoesBy w ∧ m.On (ofUser id es) := by
  obtain ⟨u, hu⟩ := hbounds.replays (h.grown id)
  have hactive := hid.isDeleted_eq (h.grown id).gapless hu
  exact h.committable (c := .earnPoints ⟨id, n⟩) nofun hid.ne_nil hu
    (Command.accepts_points hactive id hn)

/-- A referral of a user who hands out the code. -/
theorem Ordered.committable_referral (h : Ordered es w) {id referredId email code : String}
    (hid : (EventStore.holding es).holds id code = true)
    (hreferred : Text.isBlank referredId = false) (hemail : Text.isBlank email = false) :
    ∃ m : Commit, m.command = .completeReferral ⟨id, referredId, email, code⟩ ∧ m.GoesBy w ∧
      m.On (ofUser id es) := by
  have hgrown := h.grown id
  have hne := EventStore.ne_nil_of_holds hgrown.gapless hid
  obtain ⟨u, hu, hactive, hcode⟩ := (EventStore.holds_holding_iff hgrown.gapless).1 hid
  exact h.committable (c := .completeReferral ⟨id, referredId, email, code⟩) nofun hne hu
    (Command.accepts_referral hactive (User.sound_of_ofHistory hgrown hne hu) (h.ids _) hcode
      hreferred hemail)

/-! ## Commands that are dispatched -/

variable (policy : RetryPolicy)

/-- A command that signs nobody up is dispatched, and the store is in bounds afterwards. The dispatch
succeeds, and an event was saved; or it fails, and there was nothing that could be saved. -/
theorem Ordered.dispatchWithin (h : Ordered es w) (levels : Nat) {c : Command}
    (hc : c.kind ≠ .createUser)
    (hbounds : (perform ((Wiring.standard policy).dispatchWithin (levels + 1) c) w).2.store.InBounds) :
    (∃ (m : Commit) (w' : World),
        perform ((Wiring.standard policy).dispatchWithin (levels + 1) c) w = (.ok (), w') ∧
        m.command = c ∧ m.On (ofUser c.aggregateId es) ∧ Ordered (es ++ [m.event]) w') ∨
      ∃ f w', perform ((Wiring.standard policy).dispatchWithin (levels + 1) c) w = (.error f, w') ∧
        (∀ m : Commit, m.command = c → m.GoesBy w → ¬ m.On (ofUser c.aggregateId es)) ∧
          Ordered es w' := by
  have hsettled := h.dispatch policy ((Wiring.standard policy).dispatchWithin levels) hc
  change Settled w es c (perform ((Wiring.standard policy).dispatchWithin (levels + 1) c) w) at hsettled
  have hids : ∀ n, Text.isBlank
      ((perform ((Wiring.standard policy).dispatchWithin (levels + 1) c) w).2.supply.id n) = false := by
    intro n
    have honward := onward_run (Activity.family_uncrowded.dispatchWithin policy (levels + 1) c) w
    rw [perform, honward.supply_eq]
    exact h.ids n
  generalize perform ((Wiring.standard policy).dispatchWithin (levels + 1) c) w = r
    at hbounds hsettled hids ⊢
  cases hsettled with
  | refused hw' hnone => exact .inr ⟨_, _, rfl, hnone, hw', h.named, hids⟩
  | @stored m o w' hmc hm _ hw' ho =>
    rw [hw'.store_eq] at hbounds
    obtain ⟨v, hv⟩ := hbounds.replays (hw'.grown c.aggregateId)
    obtain rfl := ho v hv
    exact .inl ⟨m, w', rfl, hmc, hm, hw', named_concat h.named hm, hids⟩

/-! ## Rewards -/

theorem uncrowded_carryOut (cs : List Command) :
    (Reward.carryOut (Wiring.standard policy).dispatchReward cs).Uncrowded :=
  Activity.family_uncrowded.closed.carryOut fun c _ =>
    Activity.family_uncrowded.dispatchWithin policy 1 c

theorem uncrowded_reward (e : Event) :
    (Reward.handle (Wiring.standard policy).dispatchReward e).Uncrowded :=
  (Activity.family_uncrowded.closed.reward (fun _ => True.intro) fun c _ =>
    Activity.family_uncrowded.dispatchWithin policy 1 c).handle e

/-- The store was in bounds before. -/
theorem Ordered.inBounds_of_perform (h : Ordered es w) {a : Activity} (ha : a.Uncrowded)
    (hbounds : (perform a w).2.store.InBounds) : (EventStore.holding es).InBounds := by
  rw [← h.store_eq]
  exact hbounds.of_isPrefix (isPrefix_run ha w)

/-- Commands are given one after the other, and the first of them can be committed. It succeeds, and
the others come next. -/
theorem Ordered.carryOut_cons (h : Ordered es w) {c : Command} {cs : List Command}
    (hm : ∃ m : Commit, m.command = c ∧ m.GoesBy w ∧ m.On (ofUser c.aggregateId es))
    (hc : c.kind ≠ .createUser)
    (hbounds : (perform (Reward.carryOut (Wiring.standard policy).dispatchReward (c :: cs))
      w).2.store.InBounds) :
    ∃ (m : Commit) (w' : World), m.command = c ∧ m.On (ofUser c.aggregateId es) ∧
      Ordered (es ++ [m.event]) w' ∧
      perform (Reward.carryOut (Wiring.standard policy).dispatchReward (c :: cs)) w =
        perform (Reward.carryOut (Wiring.standard policy).dispatchReward cs) w' := by
  have hafter : (perform ((Wiring.standard policy).dispatchReward c) w).2.store.InBounds := by
    refine hbounds.of_isPrefix ?_
    rw [Reward.carryOut, perform, perform, Activity.andThen, Activity.run_bind]
    refine isPrefix_run ?_ _
    split
    · exact uncrowded_carryOut policy cs
    · exact True.intro
  rcases h.dispatchWithin policy 0 hc hafter with ⟨m, w', hrun, hmc, hm', hw'⟩ | ⟨f, w', -, hnone, -⟩
  · exact ⟨m, w', hmc, hm', hw', Activity.run_andThen_of_ok surroundings hrun _⟩
  · obtain ⟨m, hmc, hbasis, hm⟩ := hm
    exact absurd hm (hnone m hmc hbasis)

/-- The rewards without a code are accepted. -/
theorem Ordered.carryOut_withoutCode (h : Ordered es w) {newUser : String}
    (hnew : Active newUser es)
    (hbounds : (perform (Reward.carryOut (Wiring.standard policy).dispatchReward
      (Reward.planWithoutCode newUser)) w).2.store.InBounds) :
    ∃ es' w', perform (Reward.carryOut (Wiring.standard policy).dispatchReward
        (Reward.planWithoutCode newUser)) w = (.ok (), w') ∧ Ordered es' w' ∧
      Gains es (fun id => if newUser = id then 100 else 0) es' := by
  have hm := h.committable_points (h.inBounds_of_perform (uncrowded_carryOut policy _) hbounds) hnew
    (n := PointsAction.signUpWithoutReferral.points) (by decide)
  obtain ⟨m, w', hmc, hm, hw', hrun⟩ := h.carryOut_cons policy hm nofun hbounds
  refine ⟨_, w', hrun, hw', ?_⟩
  exact hm.gains_of hmc nofun es

/-- The rewards with a code that somebody hands out are accepted. -/
theorem Ordered.carryOut_withCode (h : Ordered es w) {newUser email code referrer : String}
    (hnew : Active newUser es) (hreferrer : (EventStore.holding es).holds referrer code = true)
    (hemail : Text.isBlank email = false)
    (hbounds : (perform (Reward.carryOut (Wiring.standard policy).dispatchReward
      (Reward.planWithCode newUser email code referrer)) w).2.store.InBounds) :
    ∃ es' w', perform (Reward.carryOut (Wiring.standard policy).dispatchReward
        (Reward.planWithCode newUser email code referrer)) w = (.ok (), w') ∧ Ordered es' w' ∧
      Gains es (fun id => (if newUser = id then 200 else 0) + (if referrer = id then 200 else 0))
        es' := by
  have hactive := EventStore.active_of_holds (h.grown referrer).gapless hreferrer
  simp only [Reward.planWithCode, Reward.earn] at hbounds ⊢
  -- The referral is completed.
  have hm₁ := h.committable_referral hreferrer (h.isBlank_eq hnew.ne_nil) hemail
  obtain ⟨m₁, w₁, hc₁, hm₁, hw₁, hrun₁⟩ := h.carryOut_cons policy hm₁ (by rintro ⟨⟩) hbounds
  have hkept₁ : m₁.event.type ≠ .userDeleted := hm₁.not_deleted hc₁ (by rintro ⟨⟩)
  rw [hrun₁] at hbounds ⊢
  -- The user who referred is rewarded.
  have hm₂ := hw₁.committable_points (hw₁.inBounds_of_perform (uncrowded_carryOut policy _) hbounds)
    (hactive.concat hkept₁) (n := PointsAction.referUser.points) (by decide)
  obtain ⟨m₂, w₂, hc₂, hm₂, hw₂, hrun₂⟩ := hw₁.carryOut_cons policy hm₂ (by rintro ⟨⟩) hbounds
  have hkept₂ : m₂.event.type ≠ .userDeleted := hm₂.not_deleted hc₂ (by rintro ⟨⟩)
  rw [hrun₂] at hbounds ⊢
  -- The new user is rewarded.
  have hm₃ := hw₂.committable_points (hw₂.inBounds_of_perform (uncrowded_carryOut policy _) hbounds)
    ((hnew.concat hkept₁).concat hkept₂) (n := PointsAction.signUpWithReferral.points) (by decide)
  obtain ⟨m₃, w₃, hc₃, hm₃, hw₃, hrun₃⟩ := hw₂.carryOut_cons policy hm₃ (by rintro ⟨⟩) hbounds
  refine ⟨_, w₃, hrun₃, hw₃, ?_⟩
  have hgains := ((hm₁.gains_of hc₁ (by rintro ⟨⟩) es).trans
    (hm₂.gains_of hc₂ (by rintro ⟨⟩) _)).trans (hm₃.gains_of hc₃ (by rintro ⟨⟩) _)
  refine hgains.congr fun id => ?_
  have hnothing : (if referrer = id then 0 else 0) = 0 := ite_self 0
  show (if referrer = id then 0 else 0) + (if referrer = id then 200 else 0) +
    (if newUser = id then 200 else 0) = _
  omega

/-- The rewards for a sign-up, when there was no code or somebody hands it out. -/
theorem Ordered.rewarded (h : Ordered es w) (hcodes : (History.codes es).Nodup) {e : Event} {s : SignUp}
    (hs : e.decode = .ok (.created s)) (hnew : Active e.aggregateId es)
    (htaken : ∀ code, s.referredByCode = some code → (EventStore.holding es).taken code = true)
    (hbounds : (perform (Reward.handle (Wiring.standard policy).dispatchReward e)
      w).2.store.InBounds) :
    ∃ es' w', perform (Reward.handle (Wiring.standard policy).dispatchReward e) w = (.ok (), w') ∧
      Ordered es' w' ∧
      Gains es ((EventStore.holding es).signUpReward e.aggregateId s.referredByCode) es' := by
  have hes := h.inBounds_of_perform (uncrowded_reward policy e) hbounds
  simp only [Reward.handle, hs, Reward.rewardSignUp] at hbounds ⊢
  cases hcode : s.referredByCode with
  | none =>
    rw [hcode] at hbounds
    exact h.carryOut_withoutCode policy hnew hbounds
  | some code =>
    have hgapless := fun id => (h.grown id).gapless
    obtain ⟨holder, hholder⟩ := (EventStore.taken_holding_iff hgapless).1 (htaken code hcode)
    obtain ⟨p, hp⟩ := h.found_of_holds hholder
    have hp' := h.holds_of_found hes hp
    rw [hcode] at hbounds
    simp only [perform_userByReferralCode h.faultFree, hp] at hbounds ⊢
    have hemail : Text.isBlank s.email = false :=
      Change.requireFields_eq_none_iff.1 (Event.fault?_of_decode hs) ("email", _) (by simp)
    obtain ⟨es', w', hrun, hw', hgains⟩ := h.carryOut_withCode policy hnew hp' hemail hbounds
    refine ⟨es', w', hrun, hw', hgains.congr fun id => ?_⟩
    -- Nobody else hands out this code.
    have hunique : (EventStore.holding es).holds id code = true ↔ p.userId = id := by
      refine ⟨EventStore.holds_unique h.grown hcodes hp', fun hid => ?_⟩
      rw [← hid]
      exact hp'
    simp only [EventStore.signUpReward, htaken code hcode, hunique, and_true]

/-- The rewards for a sign-up with a code that nobody hands out do nothing. -/
theorem keeps_reward_of_unknown (hes : (EventStore.holding es).InBounds)
    (hgrown : ∀ id, Grown id (ofUser id es)) {e : Event} {s : SignUp}
    (hs : e.decode = .ok (.created s)) {code : String} (hcode : s.referredByCode = some code)
    (hunknown : (EventStore.holding es).taken code = false) (d : Command → Activity) :
    (Reward.handle d e).Keeps surroundings (Ordered es) := by
  intro w h
  simp only [Reward.handle, hs, Reward.rewardSignUp, hcode]
  show Ordered es (perform _ w).2
  rw [perform_userByReferralCode h.faultFree]
  cases hp : w.readModel.userByReferralCode code with
  | error f => exact h
  | ok p =>
    have hp' := h.holds_of_found hes hp
    rw [EventStore.holds_eq_false (fun id => (hgrown id).gapless) hunknown] at hp'
    cases hp'

/-- One attempt to tell the rewards of an event. Catching up is nothing to them. -/
theorem Ordered.attempt_reward (h : Ordered es w) (d : Command → Activity) (e : Event) :
    ∃ w', Ordered es w' ∧ perform (Subscription.attempt ⟨1, Reward.handler d⟩ e) w =
      perform (Reward.handle d e) w' := by
  cases hsynced : w.synced.contains (1, e.aggregateId) with
  | true =>
    refine ⟨w, h, ?_⟩
    show perform (if w.synced.contains (1, e.aggregateId) then _ else _) w = _
    rw [hsynced, if_pos rfl]
    rfl
  | false =>
    refine ⟨_, h.answer (r := .markSynced 1 e.aggregateId) True.intro True.intro, ?_⟩
    show perform (if w.synced.contains (1, e.aggregateId) then _ else _) w = _
    rw [hsynced, if_neg Bool.false_ne_true]
    rfl

/-- If nobody hands out the code, there is nothing to be had. -/
theorem signUpReward_of_unknown (hgrown : ∀ id, Grown id (ofUser id es)) {code : String}
    (hunknown : (EventStore.holding es).taken code = false) (newUser id : String) :
    (EventStore.holding es).signUpReward newUser (some code) id = 0 := by
  have hnobody := EventStore.holds_eq_false (fun id => (hgrown id).gapless) hunknown id
  simp [EventStore.signUpReward, hunknown, hnobody]

theorem uncrowded_attempt_reward (e : Event) :
    (Subscription.attempt ⟨1, Reward.handler (Wiring.standard policy).dispatchReward⟩ e).Uncrowded :=
  fun synced => by
    cases synced with
    | true => exact uncrowded_reward policy e
    | false => exact fun _ => uncrowded_reward policy e

theorem uncrowded_tellReward (e : Event) : ((Wiring.standard policy).tellReward e).Uncrowded :=
  Activity.family_uncrowded.closed.mapFailure
    (Activity.family_uncrowded.retrying policy (uncrowded_attempt_reward policy e)) _

/-- The store was in bounds after the first attempt. -/
theorem inBounds_of_tellReward {e : Event}
    (hbounds : (perform ((Wiring.standard policy).tellReward e) w).2.store.InBounds) :
    (perform (Subscription.attempt ⟨1, Reward.handler (Wiring.standard policy).dispatchReward⟩ e)
      w).2.store.InBounds := by
  obtain ⟨rest, hrest, hretrying⟩ :=
    Activity.family_uncrowded.exists_rest policy (uncrowded_attempt_reward policy e)
  refine hbounds.of_isPrefix ?_
  have hbus : (Wiring.standard policy).bus.policy = policy := rfl
  rw [perform, perform, Wiring.tellReward, Bus.deliver, hbus, Activity.run_mapFailure, hretrying,
    Activity.run_call, Activity.run_bind]
  exact isPrefix_run (hrest _ _) _

/-- **What the rewards for a sign-up add to the balances.** The rewards are told of a sign-up, and the
store is in bounds afterwards. Then all users were given what the rewards have for them, and nothing
else. -/
theorem Ordered.tellReward (h : Ordered es w) (hcodes : (History.codes es).Nodup) {e : Event}
    {s : SignUp} (hs : e.decode = .ok (.created s)) (hnew : Active e.aggregateId es)
    (hbounds : (perform ((Wiring.standard policy).tellReward e) w).2.store.InBounds) :
    ∃ es', Ordered es' (perform ((Wiring.standard policy).tellReward e) w).2 ∧
      Gains es ((EventStore.holding es).signUpReward e.aggregateId s.referredByCode) es' := by
  have hfirst := inBounds_of_tellReward policy hbounds
  obtain ⟨w₁, hw₁, hattempt⟩ := h.attempt_reward (Wiring.standard policy).dispatchReward e
  by_cases htaken : ∀ code, s.referredByCode = some code → (EventStore.holding es).taken code = true
  · rw [hattempt] at hfirst
    obtain ⟨es', w', hrun, hw', hgains⟩ := hw₁.rewarded policy hcodes hs hnew htaken hfirst
    refine ⟨es', ?_, hgains⟩
    rw [perform, Wiring.tellReward, Bus.deliver, Activity.run_mapFailure,
      Activity.run_retrying_of_ok surroundings (hattempt.trans hrun)]
    exact hw'
  · obtain ⟨code, hcode, hunknown⟩ : ∃ code, s.referredByCode = some code ∧
        (EventStore.holding es).taken code = false := by
      simpa using htaken
    have hes := h.inBounds_of_perform (uncrowded_attempt_reward policy e) hfirst
    have hkeeps := keeps_reward_of_unknown hes h.grown hs hcode hunknown
      (Wiring.standard policy).dispatchReward
    refine ⟨es, ?_, (Gains.refl es).congr fun id => ?_⟩
    · have hanswer : ∀ r : Request, r.IsNoSave → r.IsNoWrite →
          ∀ w, Ordered es w → Ordered es (w.answer r).2 := fun _ hsave hwrite _ h => h.answer hsave hwrite
      exact Activity.Keeps.deliver hkeeps (Activity.keeps_done _)
        (fun _ _ h => ⟨⟨h.faultFree, h.store_eq, h.grown, h.current⟩, h.named, h.ids⟩)
        (hanswer (.isSynced 1 e.aggregateId) True.intro True.intro)
        (hanswer (.markSynced 1 e.aggregateId) True.intro True.intro)
        (hanswer .stopwatch True.intro True.intro) _ w h
    · rw [hcode, signUpReward_of_unknown h.grown hunknown]

end Simulation.World

end Loyalty
