import Loyalty.Proofs.Stream.Rewards
import Loyalty.Proofs.User.Fulfilment

/-!
# The ledger

Where do the points of a user come from? From nothing but the commands that were dispatched and what
became of them. `Dispatched` is one entry of the ledger: a command, how its dispatch ended, and the
store before and after. `Dispatched.earns` reads off the entry what the dispatch was worth to each
user.

Points that were asked for and accepted are entered for the user for whom they were asked. Whoever
signs up gets 100 points without a code, and 200 with a code that some user handed out at that
moment, who gets 200 as well. A code counts without the white space around it, and one that is
nothing else is no code (`CreateUser.broughtCode`). There are no other entries; a dispatch that was
refused is worth nothing, and so is a search for a code that fails, however often it is repeated.

Main statement: at any time the balance of every user, replayed and projected, is the sum of the
user's entries.
-/

namespace Loyalty

open History Simulation Execution

/-- A command that was dispatched. -/
structure Dispatched where
  /-- the command -/
  command : Command
  /-- how the dispatch ended -/
  outcome : Outcome
  /-- the store before -/
  before : EventStore
  /-- the store afterwards -/
  after : EventStore

namespace Dispatched

/-- The dispatch made a user of somebody who was none. -/
def signedUp (d : Dispatched) (id : String) : Bool :=
  d.before.streamLength id = 0 && d.after.streamLength id ≠ 0

/-- The store when one more event was just saved. -/
def atFirstEvent (d : Dispatched) : EventStore :=
  .adding .empty (d.after.records.take (d.before.records.length + 1))

/-- How many points the dispatch was worth to a user. -/
def earns (d : Dispatched) (id : String) : Nat :=
  match d.command with
  | .earnPoints c =>
    match d.outcome with
    | .ok () => if c.userId = id then c.points.toNat else 0
    | .error _ => 0
  | .createUser c =>
    if d.signedUp c.userId then
      d.atFirstEvent.signUpReward c.userId c.broughtCode id
    else 0
  | .deleteUser _ | .createReferral _ | .completeReferral _ => 0

theorem earns_of_ok {c : Command} (hc : c.kind ≠ .createUser) (before after : EventStore)
    (id : String) :
    earns ⟨c, .ok (), before, after⟩ id = if c.aggregateId = id then c.points else 0 := by
  cases c with
  | createUser c => exact absurd rfl hc
  | earnPoints c => rfl
  | deleteUser | createReferral | completeReferral => simp [earns, Command.points]

theorem earns_of_error {c : Command} (hc : c.kind ≠ .createUser) (f : Failure)
    (before after : EventStore) (id : String) : earns ⟨c, .error f, before, after⟩ id = 0 := by
  cases c with
  | createUser c => exact absurd rfl hc
  | deleteUser | createReferral | completeReferral | earnPoints => rfl

/-- Somebody signed up who had no history, and the first event of the history was the first that was
saved. -/
theorem earns_of_signedUp {c : CreateUser} {before after : EventStore}
    {es : List Event} {e : Event} (hbefore : before = .holding es) (hnone : ofUser c.userId es = [])
    (hnew : ofUser c.userId (es ++ [e]) = [e])
    (hafter : (EventStore.holding (es ++ [e])).records <+: after.records) (o : Outcome)
    (id : String) :
    earns ⟨.createUser c, o, before, after⟩ id =
      (EventStore.holding (es ++ [e])).signUpReward c.userId c.broughtCode id := by
  subst hbefore
  have hlength : 0 < after.streamLength c.userId := by
    have hstream := (hafter.filter fun r => r.aggregateId = c.userId).length_le
    change ((EventStore.holding (es ++ [e])).stream c.userId).length ≤ after.streamLength c.userId
      at hstream
    rw [EventStore.stream_holding, hnew] at hstream
    exact hstream
  have hsignedUp : signedUp ⟨.createUser c, o, .holding es, after⟩ c.userId = true := by
    have hempty : (EventStore.holding es).streamLength c.userId = 0 := by
      rw [EventStore.streamLength, EventStore.stream_holding, hnone]
      rfl
    simp [signedUp, hempty, Nat.ne_of_gt hlength]
  have hfirst : atFirstEvent ⟨.createUser c, o, .holding es, after⟩ = .holding (es ++ [e]) := by
    have hlength : (EventStore.holding (es ++ [e])).records.length =
        (EventStore.holding es).records.length + 1 := by simp
    have htake := List.prefix_iff_eq_take.1 hafter
    rw [atFirstEvent, ← hlength, ← htake, EventStore.records_holding, EventStore.holding]
  simp only [earns, hsignedUp, if_true, hfirst]

theorem earns_of_not_signedUp {c : CreateUser} {o : Outcome} {before after : EventStore}
    (h : signedUp ⟨.createUser c, o, before, after⟩ c.userId = false) (id : String) :
    earns ⟨.createUser c, o, before, after⟩ id = 0 := by
  simp [earns, h]

end Dispatched

/-- The codes that were made on the way from one world to another. -/
def Simulation.World.codesMade (w w' : World) : List String :=
  (List.range' w.codes (w'.codes - w.codes)).map w.supply.code

namespace Runtime

/-- What becomes of commands that are dispatched one after the other. -/
def dispatches (policy : RetryPolicy) : List Command → World → List Dispatched
  | [], _ => []
  | c :: cs, w =>
    let r := World.perform ((Wiring.standard policy).dispatch c) w
    ⟨c, r.1, w.store, r.2.store⟩ :: dispatches policy cs r.2

end Runtime

namespace Simulation.World

/-! ## Codes -/

variable {w₀ w w' : World}

theorem codesMade_isPrefix (h : w₀.Onward w) (h' : w.Onward w') :
    w₀.codesMade w <+: w₀.codesMade w' := by
  have hle := h.codes_le
  have hle' := h'.codes_le
  have hsplit : w'.codes - w₀.codes = w.codes - w₀.codes + (w'.codes - w.codes) := by omega
  rw [codesMade, codesMade, hsplit, ← List.range'_append_1, List.map_append]
  exact List.prefix_append _ _

/-- One code more was made. -/
theorem codesMade_concat_isPrefix (h : w₀.Onward w) (hcodes : w.codes < w'.codes) :
    w₀.codesMade w ++ [w.supply.code w.codes] <+: w₀.codesMade w' := by
  have hle := h.codes_le
  have hsplit : w'.codes - w₀.codes = w.codes - w₀.codes + 1 + (w'.codes - w.codes - 1) := by omega
  have hnext : w₀.codes + 1 * (w.codes - w₀.codes) = w.codes := by omega
  rw [codesMade, codesMade, hsplit, ← List.range'_append_1, List.map_append, List.range'_concat,
    List.map_append, List.map_singleton, hnext, h.supply_eq]
  exact List.prefix_append _ _

/-! ## One dispatch -/

/-- How things are between two commands. `w₀` is the world in the beginning. -/
structure Booked (w₀ : World) (es : List Event) (w : World) : Prop extends Ordered es w where
  /-- the world has come from the first one -/
  onward : w₀.Onward w
  /-- who has signed up hands out a code that was made since -/
  codes : (History.codes es).Sublist (w₀.codesMade w)

variable {es : List Event} (policy : RetryPolicy)

/-- What the event of a sign-up says. -/
theorem decode_of_on_createUser {m : Commit} {c : CreateUser} (hmc : m.command = .createUser c)
    {history : List Event} (hm : m.On history) :
    m.event.decode = .ok (.created (c.signUp m.basis.fresh)) ∧ m.event.aggregateId = c.userId := by
  have hdecided := Basis.decide_eq_ok hm.decided
  rw [hmc] at hdecided
  obtain ⟨hs, he⟩ := Command.decide_createUser_eq hdecided
  rw [(List.cons.inj he).1]
  exact ⟨Event.decode_ofChange hs _ _ _, rfl⟩

/-- The code of a new user is the one that was made for the sign-up. -/
theorem Booked.codes_signUp (h : Booked w₀ es w) {m : Commit} {c : CreateUser}
    (hmc : m.command = .createUser c) {history : List Event} (hm : m.On history)
    (hbasis : m.GoesBy w) (hcodes : w.codes < w'.codes) :
    (History.codes (es ++ [m.event])).Sublist (w₀.codesMade w') := by
  have hcode : m.event.code? = some (w.supply.code w.codes) := by
    rw [Event.code?, (decode_of_on_createUser hmc hm).1]
    show some m.basis.fresh = _
    rw [hbasis.fresh_eq, hmc]
    rfl
  rw [codes_concat, hcode]
  exact (h.codes.append (List.Sublist.refl _)).trans
    (codesMade_concat_isPrefix h.onward hcodes).sublist

/-- A command that signs nobody up is dispatched. -/
theorem Booked.dispatch_of_ne (h : Booked w₀ es w) {c : Command} (hc : c.kind ≠ .createUser)
    (hbounds : (perform ((Wiring.standard policy).dispatch c) w).2.store.InBounds) :
    ∃ es', Booked w₀ es' (perform ((Wiring.standard policy).dispatch c) w).2 ∧
      ∀ id, (EventStore.holding es').balance id = (EventStore.holding es).balance id +
        Dispatched.earns ⟨c, (perform ((Wiring.standard policy).dispatch c) w).1, w.store,
          (perform ((Wiring.standard policy).dispatch c) w).2.store⟩ id := by
  have honward : w.Onward (perform ((Wiring.standard policy).dispatch c) w).2 :=
    onward_run (Activity.family_uncrowded.wiring_dispatch policy c) w
  have hcodes := h.codes.trans (codesMade_isPrefix h.onward honward).sublist
  have hdispatched := h.dispatchWithin policy 1 hc hbounds
  change (∃ (m : Commit) (w' : World), perform ((Wiring.standard policy).dispatch c) w = _ ∧ _) ∨
    ∃ f w', perform ((Wiring.standard policy).dispatch c) w = _ ∧ _ at hdispatched
  rcases hdispatched with ⟨m, w', hrun, hmc, hm, hw'⟩ | ⟨f, w', hrun, -, hw'⟩
  · rw [hrun] at honward hcodes ⊢
    have hgains := hm.gains_of hmc hc es
    refine ⟨_, ⟨hw', h.onward.trans honward, hgains.codes_eq ▸ hcodes⟩, fun id => ?_⟩
    rw [hgains.balance_eq, Dispatched.earns_of_ok hc]
  · rw [hrun] at honward hcodes ⊢
    refine ⟨es, ⟨hw', h.onward.trans honward, hcodes⟩, fun id => ?_⟩
    rw [Dispatched.earns_of_error hc, Nat.add_zero]

/-- Somebody signs up. -/
theorem Booked.signUp (h : Booked w₀ es w) (c : CreateUser)
    (hbounds : (perform ((Wiring.standard policy).dispatch (.createUser c)) w).2.store.InBounds)
    (hcodes : (w₀.codesMade
      (perform ((Wiring.standard policy).dispatch (.createUser c)) w).2).Nodup) :
    ∃ es', Booked w₀ es' (perform ((Wiring.standard policy).dispatch (.createUser c)) w).2 ∧
      ∀ id, (EventStore.holding es').balance id = (EventStore.holding es).balance id +
        Dispatched.earns ⟨.createUser c,
          (perform ((Wiring.standard policy).dispatch (.createUser c)) w).1, w.store,
          (perform ((Wiring.standard policy).dispatch (.createUser c)) w).2.store⟩ id := by
  have honward : w.Onward (perform ((Wiring.standard policy).dispatch (.createUser c)) w).2 :=
    onward_run (Activity.family_uncrowded.wiring_dispatch policy _) w
  have hsigned := h.toOrdered.toAt.signUp policy (Wiring.standard policy).dispatchReward
    (c := .createUser c) rfl
  change SignedUp w es (.createUser c) (Wiring.standard policy).tellReward
    (perform ((Wiring.standard policy).dispatch (.createUser c)) w) at hsigned
  generalize perform ((Wiring.standard policy).dispatch (.createUser c)) w = r
    at hbounds hcodes honward hsigned ⊢
  cases hsigned with
  | @refused f w' hw' hnone =>
    have hids : ∀ n, Text.isBlank (w'.supply.id n) = false := fun n => by
      rw [honward.supply_eq]
      exact h.ids n
    refine ⟨es, ⟨⟨hw', h.named, hids⟩, h.onward.trans honward,
      h.codes.trans (codesMade_isPrefix h.onward honward).sublist⟩, fun id => ?_⟩
    rw [h.store_eq, hw'.store_eq, Dispatched.earns_of_not_signedUp (by simp [Dispatched.signedUp]),
      Nat.add_zero]
  | @stored m w₁ hmc hm hbasis honward₁ hcodes₁ hw₁ =>
    obtain ⟨hdecode, hid⟩ := decode_of_on_createUser hmc hm
    have hnone : ofUser c.userId es = [] := hm.signUp (by rw [hmc]; rfl)
    have hnew : ofUser c.userId (es ++ [m.event]) = [m.event] := by
      rw [← hid, ofUser_concat_self, hid, hnone, List.nil_append]
    have hordered : Ordered (es ++ [m.event]) w₁ :=
      ⟨hw₁, named_concat h.named hm, fun n => by rw [honward₁.supply_eq]; exact h.ids n⟩
    have hactive : Active m.event.aggregateId (es ++ [m.event]) :=
      active_signUp hdecode (hid ▸ hnone)
    have hmade := h.codes_signUp hmc hm hbasis hcodes₁
    have huncrowded := uncrowded_tellReward policy m.event
    have hmade' := hmade.trans
      (codesMade_isPrefix (h.onward.trans honward₁) (onward_run huncrowded w₁)).sublist
    obtain ⟨es', hw', hgains⟩ :=
      hordered.tellReward policy (hcodes.sublist hmade') hdecode hactive hbounds
    have hrecords := isPrefix_run huncrowded w₁
    rw [hw₁.store_eq] at hrecords
    refine ⟨es', ⟨hw', h.onward.trans honward, hgains.codes_eq ▸ hmade'⟩, fun id => ?_⟩
    have hearns := fun o => Dispatched.earns_of_signedUp h.store_eq hnone hnew hrecords o id
    rw [hgains.balance_eq, EventStore.balance_concat, Event.points_eq hdecode, hid]
    refine Eq.trans ?_ (congrArg ((EventStore.holding es).balance id + ·) (hearns _).symm)
    simp [Change.points, CreateUser.signUp, c.givenCode_eq]

/-- Any command is dispatched. -/
theorem Booked.dispatch (h : Booked w₀ es w) (c : Command)
    (hbounds : (perform ((Wiring.standard policy).dispatch c) w).2.store.InBounds)
    (hcodes : (w₀.codesMade (perform ((Wiring.standard policy).dispatch c) w).2).Nodup) :
    ∃ es', Booked w₀ es' (perform ((Wiring.standard policy).dispatch c) w).2 ∧
      ∀ id, (EventStore.holding es').balance id = (EventStore.holding es).balance id +
        Dispatched.earns ⟨c, (perform ((Wiring.standard policy).dispatch c) w).1, w.store,
          (perform ((Wiring.standard policy).dispatch c) w).2.store⟩ id := by
  by_cases hc : c.kind = .createUser
  · obtain ⟨c, rfl⟩ := Command.exists_eq_createUser hc
    exact h.signUp policy c hbounds hcodes
  · exact h.dispatch_of_ne policy hc hbounds

end Simulation.World

/-! ## Any number of dispatches -/

namespace Runtime

open World (Booked)

variable (policy : RetryPolicy)

theorem isPrefix_performed (cs : List Command) (w : World) :
    w.store.records <+: (performed policy cs w).store.records := by
  induction cs generalizing w with
  | nil => exact List.prefix_refl _
  | cons c cs ih =>
    exact (World.isPrefix_run (Activity.family_uncrowded.wiring_dispatch policy c) w).trans (ih _)

theorem onward_performed (cs : List Command) (w : World) : w.Onward (performed policy cs w) := by
  induction cs generalizing w with
  | nil => exact .refl w
  | cons c cs ih =>
    exact (World.onward_run (Activity.family_uncrowded.wiring_dispatch policy c) w).trans (ih _)

/-- The balances have grown by what was entered. -/
theorem booked_performed {w₀ : World} (cs : List Command) {w : World} {es : List Event}
    (h : Booked w₀ es w) (hbounds : (performed policy cs w).store.InBounds)
    (hcodes : (w₀.codesMade (performed policy cs w)).Nodup) :
    ∃ es', Booked w₀ es' (performed policy cs w) ∧
      ∀ id, (EventStore.holding es').balance id = (EventStore.holding es).balance id +
        ((dispatches policy cs w).map fun d => d.earns id).sum := by
  induction cs generalizing w es with
  | nil => exact ⟨es, h, fun id => rfl⟩
  | cons c cs ih =>
    -- What holds in the end held after the first dispatch.
    have honward := World.onward_run (Activity.family_uncrowded.wiring_dispatch policy c) w
    have hbounds₁ := hbounds.of_isPrefix (isPrefix_performed policy cs _)
    have hcodes₁ := hcodes.sublist
      (World.codesMade_isPrefix (h.onward.trans honward) (onward_performed policy cs _)).sublist
    obtain ⟨es₁, h₁, hfirst⟩ := h.dispatch policy c hbounds₁ hcodes₁
    obtain ⟨es', h', hrest⟩ := ih h₁ hbounds hcodes
    refine ⟨es', h', fun id => ?_⟩
    rw [hrest, hfirst, dispatches, List.map_cons, List.sum_cons, Nat.add_assoc]

/-- **Every point is accounted for.** Any number of commands were dispatched one after the other. No two
of the codes that were made are the same, and no balance has passed the bounds of an amount of points.
Then every user who has signed up can be loaded, and has a profile, and the balances of the two are the
sum of what the dispatches were worth to the user. -/
theorem points_accounted (w : World) (cs : List Command)
    (hids : ∀ n, Text.isBlank (w.supply.id n) = false)
    (hcodes : (w.codesMade (performed policy cs (untouched w))).Nodup)
    (hbounds : (performed policy cs (untouched w)).store.InBounds) (id : String)
    (hsignedUp : (performed policy cs (untouched w)).store.stream id ≠ []) :
    ∃ u p, (World.attempt (Repository.load id) (performed policy cs (untouched w))).1 = .ok u ∧
      (performed policy cs (untouched w)).readModel.user id = .ok p ∧ p.points = u.points ∧
      u.points.toNat = ((dispatches policy cs (untouched w)).map fun d => d.earns id).sum := by
  have hbooked : Booked w [] (untouched w) :=
    ⟨⟨⟨fun _ => rfl, rfl, fun _ => .nil, fun _ => .nobody rfl⟩, by simp, hids⟩,
      ⟨rfl, Nat.le_refl _⟩, List.nil_sublist _⟩
  obtain ⟨es, h, hbalance⟩ := booked_performed policy cs hbooked hbounds hcodes
  rw [h.store_eq] at hbounds hsignedUp
  have hgrown := h.grown id
  have hne : ofUser id es ≠ [] := by
    intro hnil
    rw [EventStore.stream_holding, hnil] at hsignedUp
    exact hsignedUp rfl
  obtain ⟨u, hu⟩ := hbounds.replays hgrown
  have hload : (World.attempt (Repository.load id) (performed policy cs (untouched w))).1 = .ok u := by
    rw [World.attempt_load (h.faultFree _) h.store_eq hgrown.gapless, if_neg hne, hu]
  have hpoints : u.points.toNat =
      ((dispatches policy cs (untouched w)).map fun d => d.earns id).sum := by
    rw [(User.reflects_of_ofHistory hgrown.gapless hu).points_eq, ← EventStore.balance_holding,
      hbalance]
    exact Nat.zero_add _
  obtain ⟨p, hp, hshows⟩ := (h.current id).shows hne hu
  have hrow : (performed policy cs (untouched w)).readModel.user id = .ok p := by
    rw [ReadModel.user, hp]
  exact ⟨u, p, hload, hrow, hshows.points_eq, hpoints⟩

/-- Somebody signs up with a blank code, and is given points; somebody signs up with the code of the
first, which is the first that was made; somebody signs up with a code that nobody hands out; and points
are asked for somebody who is not there. -/
def someEarn : List Command :=
  [.createUser ⟨"ada", "Ada", "ada@example.com", some " \u00a0"⟩,
    .earnPoints ⟨"ada", 50⟩,
    .createUser ⟨"ben", "Ben", "ben@example.com", some (" " ++ Supply.codeNumber 0 ++ "\n")⟩,
    .createUser ⟨"cleo", "Cleo", "cleo@example.com", some "NOBODY00"⟩,
    .earnPoints ⟨"dan", 7⟩]

/-- The identities of a simulation are not blank. -/
theorem isBlank_idNumber (n : Nat) : Text.isBlank (Supply.idNumber n) = false := by
  have hzero : '0' ∈ "01990000-0000-7000-8000-".toList := by decide +kernel
  exact Text.isBlank_ofList_of_mem (List.mem_append_left _ hzero) (by decide)

/-- The first has 100 points for the sign-up, those that were asked for, and 200 for the second, who has
as many for having come with that code. The third has nothing. -/
theorem someEarn_accounted :
    (∀ n, Text.isBlank (({} : World).supply.id n) = false) ∧
      (({} : World).codesMade (performed .standard someEarn (untouched {}))).Nodup ∧
      (performed .standard someEarn (untouched {})).store.InBounds ∧
      ∀ x ∈ [("ada", 350), ("ben", 200), ("cleo", 0)],
        (performed .standard someEarn (untouched {})).store.stream x.1 ≠ [] ∧
          ∃ u p, (World.attempt (Repository.load x.1)
              (performed .standard someEarn (untouched {}))).1 = .ok u ∧
            (performed .standard someEarn (untouched {})).readModel.user x.1 = .ok p ∧
            p.points = u.points ∧ u.points.toNat = x.2 := by
  have hids : ∀ n, Text.isBlank (({} : World).supply.id n) = false := isBlank_idNumber
  -- One evaluation of the run answers all questions.
  obtain ⟨hcodes, hbounds, hsums⟩ :
      (({} : World).codesMade (performed .standard someEarn (untouched {}))).Nodup ∧
        (performed .standard someEarn (untouched {})).store.InBounds ∧
        ∀ x ∈ [("ada", 350), ("ben", 200), ("cleo", 0)],
          (performed .standard someEarn (untouched {})).store.stream x.1 ≠ [] ∧
            ((dispatches .standard someEarn (untouched {})).map fun d => d.earns x.1).sum = x.2 := by
    decide +kernel
  refine ⟨hids, hcodes, hbounds, fun x hx => ⟨(hsums x hx).1, ?_⟩⟩
  obtain ⟨u, p, hload, hrow, hsame, hpoints⟩ :=
    points_accounted .standard {} someEarn hids hcodes hbounds x.1 (hsums x hx).1
  exact ⟨u, p, hload, hrow, hsame, hpoints.trans (hsums x hx).2⟩

end Runtime

end Loyalty
