import Loyalty.Process.Reward
import Loyalty.Proofs.Delivery.Retrying
import Loyalty.Proofs.Delivery.Seclusion
import Loyalty.Proofs.Event.Gate
import Loyalty.Proofs.Simulation.Passage

/-!
# Which commands the rewards give

For somebody who has signed up the rewards have a plan, and they give its commands one after the
other, up to the first that fails. The plan is in the event, but for the user whose code was used:
who that is tells the read model. When it cannot tell, or when the event cannot be read, there is no
plan, and no command is given.

An event that is delivered again is rewarded again. The code is looked up once more, and the plan is
followed from its beginning, whatever was given before. So what is given for an event is given in
rounds: each is the beginning of a plan, and each but the last ended in a failure that may pass.

What becomes of a command is left open, and so is whether others go on at the same time (see
`Account`).

Main statement: the rewards follow their plan, and a delivery consists of as many rounds as there
are tries.
-/

namespace Loyalty

open Simulation

variable {S : Type}

namespace Reward

/-- A command that was given. -/
structure Given (S : Type) where
  /-- the command -/
  command : Command
  /-- where it was given -/
  began : S
  /-- what became of it -/
  outcome : Outcome
  /-- where this was known -/
  ended : S

/-- How the rewards for an event come to a plan: some commands, or a failure. -/
inductive Plans (A : Account S) (e : Event) : S → Except Failure (List Command) → S → Prop where
  /-- the event cannot be read -/
  | unreadable {f : Failure} {v : S} (he : e.decode = .error f) : Plans A e v (.error f) v
  /-- nobody has signed up -/
  | nobody {c : Change} {v : S} (he : e.decode = .ok c) (htype : e.type ≠ .userCreated) :
    Plans A e v (.ok []) v
  /-- no code was used -/
  | withoutCode {s : SignUp} {v : S} (he : e.decode = .ok (.created s))
    (hcode : s.referredByCode = none) : Plans A e v (.ok [.earnPoints ⟨e.aggregateId, 100⟩]) v
  /-- the read model cannot tell whose code was used -/
  | unknown {s : SignUp} {code : String} {f : Failure} {v w : S} (he : e.decode = .ok (.created s))
    (hcode : s.referredByCode = some code)
    (hlookup : A.answers (.userByReferralCode code) v (.error f) w) : Plans A e v (.error f) w
  /-- somebody's code was used -/
  | withCode {s : SignUp} {code : String} {referrer : Profile} {v w : S}
    (he : e.decode = .ok (.created s)) (hcode : s.referredByCode = some code)
    (hlookup : A.answers (.userByReferralCode code) v (.ok referrer) w) :
    Plans A e v (.ok [
      .completeReferral {
        userId := referrer.userId
        referredUserId := e.aggregateId
        referredUserEmail := s.email
        referredByCode := code },
      .earnPoints ⟨referrer.userId, 200⟩,
      .earnPoints ⟨e.aggregateId, 200⟩]) w

/-- A plan is followed: so many of its commands are given. -/
structure Follows (A : Account S) (d : Command → Activity) (plan : List Command) (v : S)
    (gs : List (Given S)) (o : Outcome) (w : S) : Prop where
  /-- they are the first commands of the plan, in its order -/
  beginning : gs.map Given.command <+: plan
  /-- each of them is dispatched -/
  dispatched : ∀ g ∈ gs, A.ends (d g.command) g.began g.outcome g.ended
  /-- each begins where the one before has ended, and nothing happens besides -/
  connected : gs.map Given.began ++ [w] = v :: gs.map Given.ended
  /-- they are the whole plan, and all went well; or the last of them failed, and that is the
  outcome -/
  stopped : gs.map Given.command = plan ∧ (∀ g ∈ gs, g.outcome = .ok ()) ∧ o = .ok () ∨
    ∃ before g f, gs = before ++ [g] ∧ (∀ g' ∈ before, g'.outcome = .ok ()) ∧
      g.outcome = .error f ∧ o = .error f

/-- How the rewards react to an event: they follow their plan, if they have one. -/
inductive Reacts (A : Account S) (d : Command → Activity) (e : Event) :
    S → List (Given S) → Outcome → S → Prop where
  /-- there is no plan -/
  | planless {f : Failure} {v w : S} (hplan : Plans A e v (.error f) w) :
    Reacts A d e v [] (.error f) w
  /-- the plan is followed -/
  | planned {plan : List Command} {v v' w : S} {gs : List (Given S)} {o : Outcome}
    (hplan : Plans A e v (.ok plan) v') (hfollows : Follows A d plan v' gs o w) :
    Reacts A d e v gs o w

variable {A : Account S} {d : Command → Activity}

namespace Follows

variable {plan : List Command} {v w : S} {gs : List (Given S)} {o : Outcome}

theorem nil (v : S) : Follows A d [] v [] (.ok ()) v where
  beginning := List.prefix_rfl
  dispatched _ hg := absurd hg List.not_mem_nil
  connected := rfl
  stopped := .inl ⟨rfl, fun _ hg => absurd hg List.not_mem_nil, rfl⟩

/-- The first command fails. -/
theorem failed {c : Command} {f : Failure} (h : A.ends (d c) v (.error f) w)
    (plan : List Command) : Follows A d (c :: plan) v [⟨c, v, .error f, w⟩] (.error f) w where
  beginning := ⟨plan, rfl⟩
  dispatched g hg := by
    obtain rfl := List.mem_singleton.1 hg
    exact h
  connected := rfl
  stopped := .inr ⟨[], _, f, rfl, fun _ hg => absurd hg List.not_mem_nil, rfl, rfl⟩

/-- The first command goes well. -/
theorem cons {c : Command} {v' : S} (h : A.ends (d c) v (.ok ()) v')
    (hrest : Follows A d plan v' gs o w) :
    Follows A d (c :: plan) v (⟨c, v, .ok (), v'⟩ :: gs) o w where
  beginning := List.cons_prefix_cons.2 ⟨rfl, hrest.beginning⟩
  dispatched := List.forall_mem_cons.2 ⟨h, hrest.dispatched⟩
  connected := congrArg (v :: ·) hrest.connected
  stopped := by
    rcases hrest.stopped with ⟨hwhole, hok, ho⟩ | ⟨before, g, f, rfl, hok, hg, ho⟩
    · exact .inl ⟨congrArg (c :: ·) hwhole, List.forall_mem_cons.2 ⟨rfl, hok⟩, ho⟩
    · exact .inr ⟨_ :: before, g, f, rfl, List.forall_mem_cons.2 ⟨rfl, hok⟩, hg, ho⟩

end Follows

/-- Commands that are given one after the other follow the plan that consists of them. -/
theorem exists_follows {plan : List Command} {v w : S} {o : Outcome}
    (h : A.ends (carryOut d plan) v o w) : ∃ gs, Follows A d plan v gs o w := by
  induction plan generalizing v with
  | nil =>
    obtain ⟨rfl, rfl⟩ := A.of_done h
    exact ⟨[], .nil _⟩
  | cons c plan ih =>
    rcases A.of_andThen h with ⟨f, rfl, hfirst⟩ | ⟨v', hfirst, hrest⟩
    · exact ⟨_, .failed hfirst plan⟩
    · obtain ⟨gs, hgs⟩ := ih hrest
      exact ⟨_, .cons hfirst hgs⟩

theorem exists_reacts {e : Event} {v w : S} {o : Outcome} (h : A.ends (handle d e) v o w) :
    ∃ gs, Reacts A d e v gs o w := by
  rw [handle] at h
  split at h
  · next f he =>
    obtain ⟨rfl, rfl⟩ := A.of_done h
    exact ⟨[], .planless (.unreadable he)⟩
  · next s he =>
    rw [rewardSignUp] at h
    split at h
    · next hcode =>
      obtain ⟨gs, hgs⟩ := exists_follows h
      exact ⟨gs, .planned (.withoutCode he hcode) hgs⟩
    · next code hcode =>
      obtain ⟨x, v', hlookup, hrest⟩ := A.of_call h
      cases x with
      | ok referrer =>
        obtain ⟨gs, hgs⟩ := exists_follows hrest
        exact ⟨gs, .planned (.withCode he hcode hlookup) hgs⟩
      | error f =>
        obtain ⟨rfl, rfl⟩ := A.of_done hrest
        exact ⟨[], .planless (.unknown he hcode hlookup)⟩
  · next c hother he =>
    obtain ⟨rfl, rfl⟩ := A.of_done h
    have htype : e.type ≠ .userCreated := fun htype => by
      have hc : c.type = .userCreated := (Event.type_of_decode he).trans htype
      cases c with
      | created s => exact hother s rfl
      | deleted | referralCreated | referralCompleted | pointsEarned => cases hc
    exact ⟨[], .planned (.nobody he htype) (.nil _)⟩

/-! ## Rounds -/

/-- One of several tries at rewarding. -/
structure Round (S : Type) extends Try S where
  /-- where the rewards were told of the event -/
  ready : S
  /-- the commands that they gave -/
  given : List (Given S)

/-- The commands that were given in a round. -/
def Round.commands (r : Round S) : List Command :=
  r.given.map Given.command

/-- It was asked whether the rewards had caught up on an aggregate, and noted that they had. Nothing
happened in between, as they have nothing to catch up on. -/
def Prepares (A : Account S) (n : Nat) (id : String) (v w : S) : Prop :=
  A.answers (.isSynced n id) v true w ∨
    ∃ v', A.answers (.isSynced n id) v false v' ∧ A.answers (.markSynced n id) v' () w

/-- An event was delivered to the rewards in so many rounds. -/
structure Delivers (A : Account S) (d : Command → Activity) (b : Bus) (e : Event) (n : Nat) (v : S)
    (rounds : List (Round S)) (o : Outcome) (w : S) : Prop where
  /-- they are the tries of the delivery -/
  tried : ∃ start v' q, A.answers .stopwatch v start v' ∧
    b.policy.Tries A ((⟨n, handler d⟩ : Subscription).attempt e) start b.policy.maxRetry
      b.policy.initialInterval.nanos v' (rounds.map Round.toTry) q w ∧
    o = q.mapError (.publish "referral-saga" e.type e.aggregateId)
  /-- there is one round more than there are retries, at most -/
  length_le : rounds.length ≤ b.policy.maxRetry + 1
  /-- each but the last ended in a failure that may pass -/
  retryable : ∀ {k : Nat} {r : Round S}, rounds[k]? = some r → k + 1 < rounds.length →
    ∃ f, r.outcome = .error f ∧ f.isRetryable = true
  /-- in each of them the rewards were told of the event -/
  prepared : ∀ r ∈ rounds, Prepares A n e.aggregateId r.began r.ready
  /-- and reacted to it -/
  reacted : ∀ r ∈ rounds, Reacts A d e r.ready r.given r.outcome r.ended

theorem exists_round {e : Event} {n : Nat} {t : Try S}
    (h : A.ends ((⟨n, handler d⟩ : Subscription).attempt e) t.began t.outcome t.ended) :
    ∃ r : Round S, r.toTry = t ∧ Prepares A n e.aggregateId r.began r.ready ∧
      Reacts A d e r.ready r.given r.outcome r.ended := by
  obtain ⟨synced, v', hasked, hrest⟩ := A.of_call h
  cases synced with
  | true =>
    obtain ⟨gs, hgs⟩ := exists_reacts hrest
    exact ⟨⟨t, v', gs⟩, rfl, .inl hasked, hgs⟩
  | false =>
    obtain ⟨_, v'', hnoted, hrest⟩ := A.of_call hrest
    obtain ⟨gs, hgs⟩ := exists_reacts hrest
    exact ⟨⟨t, v'', gs⟩, rfl, .inr ⟨v', hasked, hnoted⟩, hgs⟩

theorem exists_rounds {e : Event} {n : Nat} {ts : List (Try S)}
    (h : ∀ t ∈ ts, A.ends ((⟨n, handler d⟩ : Subscription).attempt e) t.began t.outcome t.ended) :
    ∃ rounds : List (Round S), rounds.map Round.toTry = ts ∧ ∀ r ∈ rounds,
      Prepares A n e.aggregateId r.began r.ready ∧ Reacts A d e r.ready r.given r.outcome r.ended := by
  induction ts with
  | nil => exact ⟨[], rfl, fun _ hr => absurd hr List.not_mem_nil⟩
  | cons t ts ih =>
    obtain ⟨ht, hts⟩ := List.forall_mem_cons.1 h
    obtain ⟨r, rfl, hr⟩ := exists_round ht
    obtain ⟨rounds, rfl, hrounds⟩ := ih hts
    exact ⟨r :: rounds, rfl, List.forall_mem_cons.2 ⟨hr, hrounds⟩⟩

theorem exists_delivers {b : Bus} {e : Event} {n : Nat} {v w : S} {o : Outcome}
    (h : A.ends (b.deliver e ⟨n, handler d⟩) v o w) :
    ∃ rounds, Delivers A d b e n v rounds o w := by
  obtain ⟨start, v', ts, q, hstart, hts, hlength, -, ho⟩ := b.tried_of_deliver h
  obtain ⟨rounds, rfl, hrounds⟩ := exists_rounds hts.runs
  rw [List.length_map] at hlength
  refine ⟨rounds, ⟨start, v', q, hstart, hts, ho⟩, hlength, fun {k r} hr hk => ?_,
    fun r hr => (hrounds r hr).1, fun r hr => (hrounds r hr).2⟩
  have ht : (rounds.map Round.toTry)[k]? = some r.toTry := by
    rw [List.getElem?_map, hr, Option.map_some]
  rw [← List.length_map Round.toTry] at hk
  obtain ⟨f, -, hf, -, -, hretryable, -⟩ := (hts.further_iff ht).1 hk
  exact ⟨f, hf, hretryable⟩

/-! ## Records -/

/-- What is asked for besides the commands. -/
def IsAside : Request → Prop
  | .stopwatch | .isSynced .. | .markSynced .. | .userByReferralCode _ => True
  | _ => False

/-- A record is kept of the commands that are dispatched, and of nothing else. -/
structure Recorded (A : Account S) (d : Command → Activity) (record : S → List Command) : Prop where
  /-- what is dispatched is recorded -/
  dispatched : ∀ {c : Command} {v w : S} {o : Outcome}, A.ends (d c) v o w →
    record w = record v ++ [c]
  /-- what is asked for besides is not -/
  asked : ∀ {r : Request} {x : r.Answer} {v w : S}, A.answers r v x w → IsAside r →
    record w = record v
  /-- nor are pauses -/
  rested : ∀ {n : Nat} {v w : S}, A.rests n v w → record w = record v

namespace Recorded

variable {record : S → List Command} (hrecord : Recorded A d record) {e : Event} {v w : S}
  {gs : List (Given S)} {o : Outcome}

include hrecord

theorem of_plans {plan : Except Failure (List Command)} (h : Plans A e v plan w) :
    record w = record v := by
  cases h with
  | unreadable | nobody | withoutCode => rfl
  | unknown _ _ hlookup => exact hrecord.asked hlookup True.intro
  | withCode _ _ hlookup => exact hrecord.asked hlookup True.intro

/-- Commands that are connected are recorded one after the other. -/
theorem of_connected (hgiven : ∀ g ∈ gs, A.ends (d g.command) g.began g.outcome g.ended)
    (h : gs.map Given.began ++ [w] = v :: gs.map Given.ended) :
    record w = record v ++ gs.map Given.command := by
  induction gs generalizing v with
  | nil =>
    obtain rfl : w = v := List.head_eq_of_cons_eq h
    exact (List.append_nil _).symm
  | cons g gs ih =>
    obtain ⟨hg, hgs⟩ := List.forall_mem_cons.1 hgiven
    obtain ⟨rfl, hrest⟩ := List.cons.inj h
    rw [ih hgs hrest, hrecord.dispatched hg, List.append_assoc]
    rfl

theorem of_reacts (h : Reacts A d e v gs o w) : record w = record v ++ gs.map Given.command := by
  cases h with
  | planless hplan => exact (hrecord.of_plans hplan).trans (List.append_nil _).symm
  | planned hplan hfollows =>
    rw [hrecord.of_connected hfollows.dispatched hfollows.connected, hrecord.of_plans hplan]

theorem of_prepares {n : Nat} {id : String} (h : Prepares A n id v w) : record w = record v := by
  rcases h with hasked | ⟨v', hasked, hnoted⟩
  · exact hrecord.asked hasked True.intro
  · exact (hrecord.asked hnoted True.intro).trans (hrecord.asked hasked True.intro)

/-- The record of a delivery is that of its rounds. -/
theorem of_delivers {b : Bus} {n : Nat} {rounds : List (Round S)}
    (h : Delivers A d b e n v rounds o w) : record w = record v ++ rounds.flatMap Round.commands := by
  obtain ⟨start, v', q, hstart, htries, -⟩ := h.tried
  let I (k : Nat) (u : S) : Prop := record u = record v ++ (rounds.take k).flatMap Round.commands
  have hstart : I 0 v' := (hrecord.asked hstart True.intro).trans (List.append_nil _).symm
  have hround {k : Nat} {t : Try S} (ht : (rounds.map Round.toTry)[k]? = some t) (hk : I k t.began) :
      I (k + 1) t.ended := by
    rw [List.getElem?_map] at ht
    obtain ⟨r, hr, rfl⟩ := Option.map_eq_some_iff.1 ht
    have hmem : r ∈ rounds := List.mem_of_getElem? hr
    have htake : rounds.take (k + 1) = rounds.take k ++ [r] := by rw [List.take_add_one, hr]; rfl
    show record r.ended = _
    rw [hrecord.of_reacts (h.reacted r hmem), hrecord.of_prepares (h.prepared r hmem), hk, htake,
      List.flatMap_append, List.append_assoc, List.flatMap_singleton]
    rfl
  have hend := (htries.keeps hstart hround
    (fun hlook hu => (hrecord.asked hlook True.intro).trans hu)
    (fun hrests hu => (hrecord.rested hrests).trans hu)).2
  rw [List.length_map] at hend
  exact hend.trans (by rw [List.take_length])

end Recorded

/-- The commands that were given to a handler outside the program, in order. -/
def commandsTo (name : String) (w : World) : List Command :=
  (w.callsTo name).filterMap fun
    | (.carryOut c, _) => some c
    | _ => none

/-- So a simulated world records what a handler outside the program is to carry out. -/
theorem recorded_scripted (name : String) (kinds : List CommandKind) :
    Recorded (.performing World.surroundings) (scriptedCommandHandler name kinds).handle
      (commandsTo name) where
  dispatched {c v w o} h := by
    obtain rfl : (v.entrust name (.carryOut c)).2 = w := congrArg Prod.snd h
    rw [commandsTo, World.entrust_snd, World.callsTo_note, List.filterMap_append, Entry.callTo?,
      if_pos rfl]
    rfl
  asked {r x v w} h hr := by
    obtain rfl : (v.answer r).2 = w := congrArg Prod.snd h
    cases r with
    | stopwatch | isSynced | markSynced => rfl
    | userByReferralCode code =>
      refine World.gated_related (fun v w => commandsTo name w = commandsTo name v)
        (fun h h' => h'.trans h) (fun op w => ?_) (fun _ => rfl) v
      rw [World.fault]
      split <;> rfl
    | _ => exact hr.elim
  rested {n v w} h := by
    obtain rfl : w = World.surroundings.rest n v := h
    rw [Surroundings.rest]
    split <;> rfl

/-! ## What the rewards do -/

/-- What the rewards do about an event, however commands are dispatched. -/
structure Rewards (d : Command → Activity) (e : Event) : Prop where
  /-- alone in whatever surroundings -/
  performed : ∀ {σ : Type} (u : Surroundings σ) (w : σ), ∃ gs,
    Reacts (.performing u) d e w gs ((handle d e).run u w).1 ((handle d e).run u w).2
  /-- and whatever else goes on -/
  interleaved : ∀ {H : Chronicle} {o : Outcome}, (handle d e).Lives H (.done o) →
    ∃ gs, Reacts .living d e [] gs o H
  /-- so it is when the event is delivered, alone -/
  delivery_performed : ∀ (b : Bus) (n : Nat) {σ : Type} (u : Surroundings σ) (w : σ), ∃ rounds,
    Delivers (.performing u) d b e n w rounds ((b.deliver e ⟨n, handler d⟩).run u w).1
      ((b.deliver e ⟨n, handler d⟩).run u w).2
  /-- or whatever else goes on -/
  delivery_interleaved : ∀ (b : Bus) (n : Nat) {H : Chronicle} {o : Outcome},
    (b.deliver e ⟨n, handler d⟩).Lives H (.done o) →
      ∃ rounds, Delivers .living d b e n [] rounds o H
  /-- where a record is kept, it holds the commands of all rounds -/
  recorded : ∀ {S : Type} {A : Account S} {record : S → List Command}, Recorded A d record →
    ∀ {b : Bus} {n : Nat} {v w : S} {rounds : List (Round S)} {o : Outcome},
      Delivers A d b e n v rounds o w → record w = record v ++ rounds.flatMap Round.commands

/-- **What the rewards do.** They give the commands of their plan, up to the first that fails; a
delivery does so in rounds, of which each but the last ends in a failure that may pass. -/
theorem rewards_follow_plan (d : Command → Activity) (e : Event) : Rewards d e where
  performed _ _ := exists_reacts rfl
  interleaved h := exists_reacts ⟨_, rfl, h⟩
  delivery_performed _ _ _ _ _ := exists_delivers rfl
  delivery_interleaved _ _ _ _ h := exists_delivers ⟨_, rfl, h⟩
  recorded hrecord := hrecord.of_delivers

/-- Kim has signed up with Ann's code. -/
def kimCame : Event :=
  .ofChange "kim" 1 (.created ⟨"kim", "kim@example.com", "KIM", some "ANN"⟩) (Supply.standard.time 1)

/-- Ann is known already. Her points cannot be booked at first. -/
def annKnown : World :=
  let annCame : Event :=
    .ofChange "ann" 1 (.created ⟨"ann", "ann@example.com", "ANN", none⟩) (Supply.standard.time 0)
  { (World.perform (Projection.handler.handle annCame) {}).2 with
    scripts := fun _ => { carryOut := [none, some (.handler "ledger" "not now")] } }

/-- The rewards for Kim are given in two rounds, and the referral is completed in both of them. -/
theorem kim_rewarded :
    let d := (scriptedCommandHandler "ledger" CommandKind.all).handle
    let completed := .completeReferral ⟨"ann", "kim", "kim@example.com", "ANN"⟩
    ∃ rounds w,
      Delivers (.performing World.surroundings) d ⟨.standard, [handler d]⟩ kimCame 0 annKnown rounds
        (.ok ()) w ∧
      rounds.flatMap Round.commands =
        [completed, .earnPoints ⟨"ann", 200⟩, completed, .earnPoints ⟨"ann", 200⟩,
          .earnPoints ⟨"kim", 200⟩] := by
  intro d completed
  let b : Bus := ⟨.standard, [handler d]⟩
  have hrewards := rewards_follow_plan d kimCame
  obtain ⟨rounds, hrounds⟩ := hrewards.delivery_performed b 0 World.surroundings annKnown
  have hrecord := hrewards.recorded (recorded_scripted "ledger" CommandKind.all) hrounds
  have hok : (World.perform (b.deliver kimCame ⟨0, handler d⟩) annKnown).1 = .ok () := by
    decide +kernel
  have hbefore : commandsTo "ledger" annKnown = [] := by decide +kernel
  rw [hbefore, List.nil_append] at hrecord
  refine ⟨rounds, _, hok ▸ hrounds, hrecord.symm.trans ?_⟩
  decide +kernel

end Reward

end Loyalty
