import Loyalty.Proofs.Process.Hearing
import Loyalty.Proofs.Process.Nesting
import Loyalty.Proofs.Simulation.Sincerity
import Loyalty.Proofs.Stream.Runtime

/-!
# What the outcome of a dispatch tells

Whoever dispatches a command wants to know from the outcome whether to do so again. If the dispatch
succeeds, the event of the command is stored; if it fails with a failed delivery, the event is
stored all the same; and if it fails with anything else, nothing was stored, neither for the command
nor for one that was given within it. `Command.Reports` lists these three, and no others.

The event is stored by the last request before the publication. Up to there no failure is that of a
delivery, and from there on there is no other: whatever goes wrong in a delivery, and be it the
failure of a command that a reward gives, is wrapped up as the failure of this delivery. Of every
kind of event somebody is told, and no event without an identity is stored, so the bus itself finds
nothing wrong.

Main statement: every dispatch, alone or among others, comes to one of the three.
-/

namespace Loyalty

open Simulation

/-! ## Publication -/

/-- How the publication of an event may end: all went well, or a delivery of it failed. -/
def Event.Published (e : Event) (o : Outcome) : Prop :=
  o = .ok () ∨ ∃ name f, o = .error (.publish name e.type e.aggregateId f)

theorem Outcome.both_eq (o p : Outcome) : o.both p = o ∨ o.both p = p := by
  cases o with
  | error f => exact .inl rfl
  | ok u => exact .inr rfl

namespace Activity

variable {allowed : Request → Prop}

theorem stays_ofCalls {α : Type} {m : Calls α} (hm : m.Only allowed) {g : α → Activity}
    {expected : Outcome → Prop} (hg : ∀ x, (g x).Stays allowed expected) :
    (ofCalls m g).Stays allowed expected := by
  induction m with
  | done a => exact hg a
  | call r k ih => exact ⟨hm.1, fun x => ih x (hm.2 x)⟩

/-- Activities side by side, with outcomes of one sort. -/
theorem stays_inOrder {as : List Activity} {expected : Outcome → Prop} (hok : expected (.ok ()))
    (h : ∀ a ∈ as, a.Stays allowed expected) : (inOrder as).Stays allowed expected := by
  induction as with
  | nil => exact hok
  | cons a as ih =>
    cases as with
    | nil => exact h a List.mem_cons_self
    | cons b as =>
      have htail := ih fun c hc => h c (List.mem_cons_of_mem a hc)
      refine ⟨expected, expected, h a List.mem_cons_self, htail, fun o p ho hp => ?_⟩
      show expected (o.both p)
      rcases Outcome.both_eq o p with hboth | hboth
      · rwa [hboth]
      · rwa [hboth]

/-- Whatever the matter is, a delivery fails as a delivery. -/
theorem stays_deliver (h : ∀ r : Request, r.IsNoSave → allowed r) {b : Bus}
    (hb : ∀ h ∈ b.handlers, h.Within fun a => a.Stays allowed fun _ => True) (e : Event)
    {s : Subscription} (hs : s ∈ b.subscriptions e.type) :
    (b.deliver e s).Stays allowed e.Published := by
  have hframe := frame_stays h
  refine (hframe.retrying b.policy (hframe.delivery hb e hs)).bind fun o _ => ?_
  cases o with
  | ok u => exact .inl rfl
  | error f => exact .inr ⟨_, f, rfl⟩

variable (policy : RetryPolicy) {dispatch : Command → Activity}

/-- Publishing an event in the whole program. -/
theorem stays_publish (h : ∀ r : Request, r.IsNoSave → allowed r)
    (hd : ∀ c : Command, c.kind ≠ .createUser → (dispatch c).Stays allowed fun _ => True)
    {e : Event} (hid : Text.isBlank e.aggregateId = false) :
    (((Wiring.standard policy).busOver dispatch).publish [e]).Stays allowed e.Published := by
  generalize hbus : (Wiring.standard policy).busOver dispatch = b
  have hhandlers : ∀ h ∈ b.handlers, h.Within fun a => a.Stays allowed fun _ => True := by
    rw [← hbus]
    exact fun _ hh => (frame_stays h).within_standard policy hd hh
  have hfew : (b.subscriptions e.type).length ≤ mostInOrder := by
    rw [← hbus]
    exact Wiring.few_subscriptions policy dispatch e.type
  have hsome : b.subscriptions e.type ≠ [] := by
    rw [← hbus]
    cases e.type <;> exact List.cons_ne_nil _ _
  have hone : (b.publishOne e).Stays allowed e.Published := by
    rw [Bus.publishOne, hid, if_neg Bool.false_ne_true]
    split
    · next hnone => exact absurd hnone hsome
    · rw [all, if_pos (by rwa [List.length_map])]
      refine stays_inOrder (.inl rfl) fun a ha => ?_
      obtain ⟨s, hs, rfl⟩ := List.mem_map.1 ha
      exact stays_deliver h hhandlers e hs
  refine hone.bind fun o ho => ?_
  cases o with
  | ok u => exact .inl rfl
  | error f => exact ho

end Activity

/-! ## Commands within a publication -/

/-- A request by which nobody is signed up. -/
def Request.SignsNobodyUp : Request → Prop
  | .save es => ∀ e ∈ es, e.type ≠ .userCreated
  | _ => True

theorem Request.IsNoSave.signsNobodyUp {r : Request} (h : r.IsNoSave) : r.SignsNobodyUp := by
  cases r with
  | save es => exact h.elim
  | load | loadAfter | write | user | userByReferralCode | now | stopwatch | freshCode | freshId
    | isSynced | markSynced | outside => exact True.intro

/-- Of a process that makes no requests but those allowed at any time. -/
theorem Calls.only_of_after {α : Type} {allowed : Request → Prop} {p : Calls α}
    (h : ∀ heard r k, p.After heard (.call r k) → allowed r) : p.Only allowed := by
  induction p with
  | done a => exact True.intro
  | call r k ih =>
    refine ⟨h [] r k (.start _), fun x => ih x fun heard r' k' hafter => ?_⟩
    exact h (⟨r, x⟩ :: heard) r' k' (.heard hafter)

/-- Carrying out a command that signs nobody up, up to the publication. -/
theorem Execution.only_persist {c : Command} (hc : c.kind ≠ .createUser) :
    (persist c).run.Only Request.SignsNobodyUp := by
  refine Calls.only_of_after fun heard r k hafter => ?_
  cases r with
  | save es =>
    obtain ⟨b, -, -, -, -, hdecided, -⟩ := heard_of_saving hafter
    obtain ⟨e, rfl⟩ := Basis.eq_singleton_of_decide hdecided
    intro x hx
    obtain rfl := List.mem_singleton.1 hx
    exact Basis.not_created_of_decide hc hdecided
  | load | loadAfter | write | user | userByReferralCode | now | stopwatch | freshCode | freshId
    | isSynced | markSynced | outside => exact True.intro

/-- The commands that are given within others sign nobody up. -/
theorem Wiring.stays_dispatchReward (policy : RetryPolicy) {c : Command}
    (hc : c.kind ≠ .createUser) :
    ((standard policy).dispatchReward c).Stays Request.SignsNobodyUp fun _ => True := by
  have hframe := Activity.frame_stays fun _ => Request.IsNoSave.signsNobodyUp
  have hpublish : ∀ es, (((standard policy).busOver ((standard policy).dispatchWithin 0)).publish
      es).Stays Request.SignsNobodyUp fun _ => True :=
    hframe.publish_standard policy fun c _ =>
      hframe.closed.dispatch fun h hh => absurd hh List.not_mem_nil
  refine hframe.closed.dispatch_standard policy (Activity.stays_ofCalls (Execution.only_persist hc) ?_)
  intro x
  cases x with
  | ok es => exact hpublish es
  | error f => exact True.intro

/-! ## The three outcomes -/

/-- What was saved when a command was carried out: the event of the decision, and then, if the
command signed somebody up, what was decided within. -/
structure Command.Stored (c : Command) (e : Event) (nested : List Event) : Prop where
  /-- the event is a decision on the command -/
  decided : ∃ b : Execution.Basis, b.decide c = .ok [e]
  /-- the event is of the user whom the command is about -/
  aggregateId_eq : e.aggregateId = c.aggregateId
  /-- the user has an identity -/
  notBlank : Text.isBlank e.aggregateId = false
  /-- what else was saved rewards a sign-up, and signs nobody up -/
  nested : ∀ x ∈ nested, c.kind = .createUser ∧ x.type ≠ .userCreated

/-- What the outcome of the dispatch of a command tells of what was saved. -/
inductive Command.Reports (c : Command) : Outcome → List Event → Prop where
  /-- the dispatch succeeds, and the event is stored -/
  | succeeded {e : Event} {nested : List Event} (h : c.Stored e nested) :
    Reports c (.ok ()) (e :: nested)
  /-- a delivery of the event fails, and the event is stored -/
  | unpublished {e : Event} {nested : List Event} (h : c.Stored e nested) (name : String)
    (f : Failure) :
    Reports c (.error (.dispatch c.kind c.aggregateId (.publish name e.type e.aggregateId f)))
      (e :: nested)
  /-- the dispatch fails in another way, and nothing is stored -/
  | refused {f : Failure} (hf : ∀ kind id g, f = .dispatch kind id g → ¬ g.IsPublish) :
    Reports c (.error f) []

/-- What was heard in the publication of the event of a command was allowed there. -/
theorem Command.stays_publish (policy : RetryPolicy) {c : Command} {e : Event}
    {b : Execution.Basis} (hdecided : b.decide c = .ok [e])
    (hid : Text.isBlank e.aggregateId = false) :
    ((Wiring.standard policy).publish [e]).Stays
      (fun r => r.IsNoSave ∨ c.kind = .createUser ∧ r.SignsNobodyUp) e.Published := by
  by_cases hc : c.kind = .createUser
  · refine Activity.stays_publish policy (fun _ => .inl) (fun c' hc' => ?_) hid
    exact (Wiring.stays_dispatchReward policy hc').mono fun _ hr => .inr ⟨hc, hr⟩
  · -- Of an event that signs nobody up the rewards are not told, so no command is given.
    have hsame : (Wiring.standard policy).publish [e] =
        ((Wiring.standard policy).busOver fun _ => .idle).publish [e] :=
      Wiring.publish_of_ne policy _ _ (Execution.Basis.not_created_of_decide hc hdecided)
    have hidle : Activity.idle.Stays (fun r => r.IsNoSave ∨ c.kind = .createUser ∧ r.SignsNobodyUp)
        fun _ => True := True.intro
    rw [hsame]
    exact Activity.stays_publish policy (fun _ => .inl) (fun _ _ => hidle) hid

/-- **What a dispatch that has ended has saved.** -/
theorem Command.reports_of_after (policy : RetryPolicy) {c : Command} {heard : List Exchange}
    {o : Outcome} (h : ((Wiring.standard policy).dispatch c).After heard (.done o))
    (hheard : ∀ x ∈ heard, x.Sincere) : c.Reports o (heard.flatMap Exchange.saved) := by
  change ((((Wiring.standard policy).dispatcherOver (Wiring.standard policy).bus).dispatch
    c)).After heard (.done o) at h
  rw [Wiring.dispatch_over] at h
  split at h
  · obtain ⟨rfl, ho⟩ := h.of_done
    cases ho
    exact .refused nofun
  obtain ⟨carried, hcarried, rfl⟩ := h.of_mapFailure_done
  obtain ⟨x, first, published, rfl, hpersist, hpublish⟩ := hcarried.of_ofCalls_done
  rw [List.flatMap_append]
  rcases Execution.heard_of_persist hpersist with
    ⟨e, b, rfl, hsaved, hdecided, hid, hsound⟩ | ⟨f, rfl, hsaved, hf⟩
  · have hblank : Text.isBlank e.aggregateId = false := by
      rw [Repository.batchFault?] at hsound
      split at hsound
      · cases hsound
      · next hblank => exact Bool.eq_false_iff.2 hblank
    obtain ⟨hallowed, hended⟩ := (Command.stays_publish policy hdecided hblank).after hpublish
    have hstored : c.Stored e (published.flatMap Exchange.saved) := by
      refine ⟨⟨b, hdecided⟩, hid, hblank, fun y hy => ?_⟩
      obtain ⟨z, hz, hyz⟩ := List.mem_flatMap.1 hy
      rcases z.saved_eq with hnone | ⟨es, rfl⟩
      · rw [hnone] at hyz
        cases hyz
      · rcases hallowed _ hz with hsave | ⟨hc, hsignUp⟩
        · exact hsave.elim
        · exact ⟨hc, hsignUp y hyz⟩
    rw [hsaved]
    rcases hended with rfl | ⟨name, f, rfl⟩
    · exact .succeeded hstored
    · exact .unpublished hstored name f
  · obtain ⟨rfl, hfailed⟩ := hpublish.of_done
    cases hfailed
    rw [hsaved]
    refine .refused fun kind id g hg => ?_
    cases hg
    exact hf fun y hy => hheard y (by simp [hy])

/-! ## Every dispatch -/

namespace Runtime

theorem sincere_reached (policy : RetryPolicy) {w : World} (hw : w.Sincere)
    (moves : List (Move Command)) :
    (reached policy w moves).state.Sincere := by
  have hempty : World.Sincere { w with store := .empty } := hw
  obtain ⟨later, -, hhears⟩ := Pool.hears_run World.surroundings (Wiring.standard policy).dispatch
    (Pool.empty { w with store := .empty }) moves
  exact (hempty.hears hhears).1

/-- **What the outcome of a dispatch tells.** A command is dispatched in a state that can be
reached. If it is carried out among others, which were under way or are dispatched later, and has
ended, its outcome tells what was saved at its places since. If it is carried out alone, its outcome
tells what was added to the store. And the publication of a stored event ends well or with a failed
delivery, and in no other way. -/
theorem dispatch_reports (policy : RetryPolicy) (w : World) (hw : w.Sincere)
    (moves more : List (Move Command)) (c : Command) :
    let P := reached policy w moves
    let Q := reached policy w (moves ++ .start c :: more)
    let alone := World.perform ((Wiring.standard policy).dispatch c) P.state
    (∃ later, Q.log = P.log ++ later ∧
      ∀ o, Q.members[P.members.length]? = some (.done o) →
        c.Reports o ((Log.by later P.members.length).flatMap Exchange.saved)) ∧
    (∃ saved, alone.2.store.records = P.state.store.records ++ saved.map Event.toRecord ∧
      c.Reports alone.1 saved) ∧
    ∀ (e : Event) (w' : World), Text.isBlank e.aggregateId = false →
      e.Published (World.perform ((Wiring.standard policy).publish [e]) w').1 := by
  intro P Q alone
  have hsincere : P.state.Sincere := sincere_reached policy hw moves
  have huncrowded := Activity.family_uncrowded.wiring_dispatch policy c
  refine ⟨?_, ?_, fun e w' hid => ?_⟩
  · obtain ⟨b, later, hb, hlog, hhears, hafter⟩ := Pool.after_started World.surroundings
      (Wiring.standard policy).dispatch P c huncrowded more
    have hQ : Q = P.run World.surroundings (Wiring.standard policy).dispatch (.start c :: more) :=
      reached_append policy w moves _
    rw [← hQ] at hb hlog
    refine ⟨later, hlog, fun o ho => ?_⟩
    obtain rfl : b = .done o := Option.some.inj (hb.symm.trans ho)
    refine Command.reports_of_after policy hafter fun x hx => ?_
    obtain ⟨y, hy, rfl⟩ := List.mem_map.1 hx
    exact (hsincere.hears hhears).2 _ (List.mem_map_of_mem (List.mem_filter.1 hy).1)
  · obtain ⟨heard, hafter, hhears⟩ := Activity.hears_run World.surroundings huncrowded P.state
    exact ⟨heard.flatMap Exchange.saved, World.records_of_hears hhears,
      Command.reports_of_after policy hafter (hsincere.hears hhears).2⟩
  · have hstays := Activity.stays_publish policy (fun _ => Request.IsNoSave.signsNobodyUp)
      (fun c' hc' => Wiring.stays_dispatchReward policy hc') hid
    obtain ⟨heard, hafter, -⟩ := Activity.hears_run World.surroundings
      (Activity.family_uncrowded.wiring_publish policy [e]) w'
    exact (hstays.after hafter).2

/-- A world in which the read model does not take in the first points that are given. -/
def withoutFirstPoints : World :=
  { faults := fun op => if op = .earnPoints then [some (.readModel "down")] else [] }

/-- Nothing is tried twice. -/
def onceOnly : RetryPolicy :=
  RetryPolicy.standard.withMaxRetry 0

/-- Somebody signs up. -/
def newUser : Command :=
  .createUser ⟨"kim", "kim", "kim@example.org", none⟩

/-- The sign-up is stored, and so is the reward for it, of which the read model does not learn. -/
theorem withoutFirstPoints_reports :
    withoutFirstPoints.Sincere ∧
      let P := reached onceOnly withoutFirstPoints []
      let Q := reached onceOnly withoutFirstPoints ([] ++ .start newUser :: [])
      let alone := World.perform ((Wiring.standard onceOnly).dispatch newUser) P.state
      alone.1 = .error (.dispatch .createUser "kim" (.publish "referral-saga" .userCreated "kim"
        (.dispatch .earnPoints "kim"
          (.publish "user-projector" .pointsEarned "kim" (.readModel "down"))))) ∧
      (∃ later, Q.log = P.log ++ later ∧
        ∀ o, Q.members[P.members.length]? = some (.done o) →
          newUser.Reports o ((Log.by later P.members.length).flatMap Exchange.saved)) ∧
      (∃ saved, alone.2.store.records = P.state.store.records ++ saved.map Event.toRecord ∧
        newUser.Reports alone.1 saved) ∧
      ∀ (e : Event) (w' : World), Text.isBlank e.aggregateId = false →
        e.Published (World.perform ((Wiring.standard onceOnly).publish [e]) w').1 := by
  have hsincere : withoutFirstPoints.Sincere := by
    intro op f hf
    simp only [withoutFirstPoints] at hf
    split at hf
    · cases List.mem_singleton.1 hf
      exact not_false
    · cases hf
  exact ⟨hsincere, by decide +kernel,
    dispatch_reports onceOnly withoutFirstPoints hsincere [] [] newUser⟩

end Runtime

end Loyalty
