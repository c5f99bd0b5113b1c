import Loyalty.Proofs.Process.Hearing

/-!
# What an activity can add up to

A `Tally` counts what was heard, in whatever order: `Q n heard` says that what was heard comes to no
more than `n`. Requests by which nothing is saved count for nothing. `Activity.Costs` is a bound on
what an activity can come to until it ends or at any time before, whatever it is answered. The
bound of a whole is the sum of those of its parts, and an attempt that is repeated counts once for
each time that it may be made.

An activity also comes to an end: it cannot go on for ever, in whatever order its parts take their
steps and whatever they are answered.

Main statements: the bound of a delivery; and that activities end.
-/

namespace Loyalty

/-- A way of counting what was heard. -/
structure Tally (Q : Nat → List Exchange → Prop) : Prop where
  /-- nothing counts for nothing -/
  nil : Q 0 []
  /-- what is heard later is added -/
  append : ∀ {n m : Nat} {first second : List Exchange}, Q n first → Q m second →
    Q (n + m) (first ++ second)
  /-- the order does not matter -/
  perm : ∀ {n : Nat} {heard heard' : List Exchange}, heard.Perm heard' → Q n heard → Q n heard'
  /-- it may be less -/
  mono : ∀ {n m : Nat} {heard : List Exchange}, n ≤ m → Q n heard → Q m heard
  /-- where nothing is saved nothing is counted -/
  free : ∀ {x : Exchange}, x.request.IsNoSave → Q 0 [x]

namespace Activity

/-! ## Sides of a fork -/

/-- What a fork has heard: what its sides have heard, in some order, and then what was heard
afterwards. -/
theorem After.of_fork {a b c : Activity} {k : Outcome → Activity} {heard : List Exchange}
    (h : (fork a b k).After heard c) :
    ∃ first second last, heard.Perm (first ++ second ++ last) ∧
      ((∃ a' b', a.After first a' ∧ b.After second b' ∧ last = [] ∧ c = fork a' b' k) ∨
        ∃ o p, a.After first (done o) ∧ b.After second (done p) ∧ (k (o.both p)).After last c) := by
  induction h with
  | start => exact ⟨[], [], [], .nil, .inl ⟨a, b, .start, .start, rfl, rfl⟩⟩
  | silent _ hbc ih =>
    obtain ⟨first, second, last, hperm, ⟨a', b', ha, hb, rfl, rfl⟩ | ⟨o, p, ha, hb, hk⟩⟩ := ih
    · refine ⟨first, second, [], hperm, ?_⟩
      cases hbc with
      | joined o p => exact .inr ⟨o, p, ha, hb, .start⟩
      | first h => exact .inl ⟨_, b', ha.silent h, hb, rfl, rfl⟩
      | second _ h => exact .inl ⟨a', _, ha, hb.silent h, rfl, rfl⟩
    · exact ⟨first, second, last, hperm, .inr ⟨o, p, ha, hb, hk.silent hbc⟩⟩
  | @heard _ heard _ r _ hask x ih =>
    obtain ⟨first, second, last, hperm, ⟨a', b', ha, hb, rfl, rfl⟩ | ⟨o, p, ha, hb, hk⟩⟩ := ih
    · have hmore : (heard ++ [Exchange.mk r x]).Perm (first ++ second ++ [⟨r, x⟩]) := by
        simpa using hperm.append_right [⟨r, x⟩]
      cases hask with
      | first h =>
        refine ⟨first ++ [⟨r, x⟩], second, [], ?_, .inl ⟨_, b', ha.heard h x, hb, rfl, rfl⟩⟩
        have hswap : (second ++ [Exchange.mk r x]).Perm ([⟨r, x⟩] ++ second) :=
          List.perm_append_comm
        rw [List.append_assoc] at hmore
        rw [List.append_nil, List.append_assoc]
        exact hmore.trans (hswap.append_left first)
      | second _ h =>
        exact ⟨first, second ++ [⟨r, x⟩], [], by simpa using hmore,
          .inl ⟨a', _, ha, hb.heard h x, rfl, rfl⟩⟩
    · exact ⟨first, second, last ++ [⟨r, x⟩], by simpa using hperm.append_right [⟨r, x⟩],
        .inr ⟨o, p, ha, hb, hk.heard hask x⟩⟩

/-! ## Bounds -/

/-- Whatever an activity has heard up to some time, it comes to no more than `n`. -/
def Costs (Q : Nat → List Exchange → Prop) (n : Nat) (a : Activity) : Prop :=
  ∀ heard b, a.After heard b → Q n heard

end Activity

namespace Tally

open Activity

variable {Q : Nat → List Exchange → Prop} (hQ : Tally Q)

include hQ

/-- Requests by which nothing is saved. -/
theorem of_isNoSave {heard : List Exchange} (h : ∀ x ∈ heard, x.request.IsNoSave) : Q 0 heard := by
  induction heard with
  | nil => exact hQ.nil
  | cons x heard ih =>
    rw [List.forall_mem_cons] at h
    have hfirst : Q 0 [x] := hQ.free h.1
    exact hQ.append hfirst (ih h.2)

/-- What saves nothing. -/
theorem costs_of_stays {a : Activity} {expected : Outcome → Prop}
    (ha : a.Stays Request.IsNoSave expected) : Costs Q 0 a :=
  fun _ _ h => hQ.of_isNoSave (ha.after h).1

theorem costs_mono {n m : Nat} (hle : n ≤ m) {a : Activity} (ha : Costs Q n a) : Costs Q m a :=
  fun heard b h => hQ.mono hle (ha heard b h)

theorem costs_done (o : Outcome) : Costs Q 0 (.done o) := by
  intro heard b h
  obtain ⟨rfl, -⟩ := h.of_done
  exact hQ.nil

theorem costs_bind {n m : Nat} {a : Activity} {g : Outcome → Activity} (ha : Costs Q n a)
    (hg : ∀ o, Costs Q m (g o)) : Costs Q (n + m) (a.bind g) := by
  intro heard c h
  rcases h.of_bind with ⟨b, hb, -⟩ | ⟨o, first, second, rfl, hfirst, hsecond⟩
  · exact hQ.mono (Nat.le_add_right n m) (ha heard b hb)
  · exact hQ.append (ha first _ hfirst) (hg o second c hsecond)

/-- An activity that begins with a process: what matters of the process is what it has heard at any
time, and with which results it ends. -/
theorem costs_ofCalls {α : Type} {n m : Nat} {p : Calls α} {g : α → Activity}
    (hp : ∀ heard q, p.After heard q → Q n heard)
    (hg : ∀ heard x, p.After heard (.done x) → Costs Q m (g x)) : Costs Q (n + m) (ofCalls p g) := by
  intro heard c h
  rcases h.of_ofCalls with ⟨q, hq, -⟩ | ⟨x, first, second, rfl, hfirst, hsecond⟩
  · exact hQ.mono (Nat.le_add_right n m) (hp heard q hq)
  · exact hQ.append (hp first _ hfirst) (hg first x hfirst second c hsecond)

theorem costs_call {n : Nat} {r : Request} {k : r.Answer → Activity} (hr : r.IsNoSave)
    (hk : ∀ x, Costs Q n (k x)) : Costs Q n (.call r k) := by
  have hask : ∀ heard q, (Calls.ask r).After heard q → Q 0 heard := by
    intro heard q h
    rcases h.of_call with ⟨rfl, -⟩ | ⟨x, rest, rfl, hrest⟩
    · exact hQ.nil
    · rw [hrest.of_done.1]
      exact hQ.free hr
  have hcall := hQ.costs_ofCalls hask fun _ x _ => hk x
  rwa [Nat.zero_add] at hcall

theorem costs_pause {m : Nat} (n : Nat) {a : Activity} (ha : Costs Q m a) :
    Costs Q m (.pause n a) := by
  have hidle : (pause n idle).Stays Request.IsNoSave fun _ => True := True.intro
  have hpause := hQ.costs_bind (hQ.costs_of_stays hidle) fun _ => ha
  rwa [Nat.zero_add] at hpause

theorem costs_fork {n m l : Nat} {a b : Activity} {k : Outcome → Activity} (ha : Costs Q n a)
    (hb : Costs Q m b) (hk : ∀ o, Costs Q l (k o)) : Costs Q (n + m + l) (.fork a b k) := by
  intro heard c h
  obtain ⟨first, second, last, hperm, hsides⟩ := h.of_fork
  refine hQ.perm hperm.symm ?_
  rcases hsides with ⟨a', b', ha', hb', rfl, -⟩ | ⟨o, p, ho, hp, hlast⟩
  · rw [List.append_nil]
    exact hQ.mono (Nat.le_add_right _ l) (hQ.append (ha first a' ha') (hb second b' hb'))
  · exact hQ.append (hQ.append (ha first _ ho) (hb second _ hp)) (hk _ last c hlast)

theorem costs_andThen {n m : Nat} {a b : Activity} (ha : Costs Q n a) (hb : Costs Q m b) :
    Costs Q (n + m) (a.andThen b) := by
  refine hQ.costs_bind ha fun o => ?_
  cases o with
  | ok u => exact hb
  | error f => exact hQ.costs_mono (Nat.zero_le m) (hQ.costs_done _)

theorem costs_mapFailure {n : Nat} {a : Activity} (ha : Costs Q n a)
    (describe : Failure → Failure) : Costs Q n (a.mapFailure describe) := by
  refine hQ.costs_bind (m := 0) ha fun o => ?_
  cases o with
  | ok u => exact hQ.costs_done _
  | error f => exact hQ.costs_done _

/-! ## Deliveries -/

/-- Repeating an attempt costs as much as all the attempts that there may be. -/
theorem costs_retrying (policy : RetryPolicy) {n : Nat} {a : Activity} (ha : Costs Q n a) :
    Costs Q (n * (policy.maxRetry + 1)) (policy.retrying a) := by
  have hrepeating : ∀ start retries pause,
      Costs Q (n * (retries + 1)) (policy.repeating a start retries pause) := by
    intro start retries
    induction retries with
    | zero =>
      intro pause
      rw [Nat.zero_add, Nat.mul_one]
      exact ha
    | succ retries ih =>
      intro pause
      rw [Nat.mul_succ, Nat.add_comm]
      refine hQ.costs_bind ha fun o => ?_
      cases o with
      | ok u => exact hQ.costs_mono (Nat.zero_le _) (hQ.costs_done _)
      | error f =>
        refine hQ.costs_call (r := .stopwatch) True.intro fun t => ?_
        split
        · exact hQ.costs_pause _ (ih _)
        · exact hQ.costs_mono (Nat.zero_le _) (hQ.costs_done _)
  exact hQ.costs_call (r := .stopwatch) True.intro fun start => hrepeating start _ _

/-- **What a delivery can come to.** As often as there may be attempts, the handler may do all that
it can do. -/
theorem costs_deliver (b : Bus) {n : Nat} {e : Event} {s : Subscription}
    (hsync : Costs Q 0 (s.handler.sync e.aggregateId)) (hhandle : Costs Q n (s.handler.handle e)) :
    Costs Q (n * (b.policy.maxRetry + 1)) (b.deliver e s) := by
  refine hQ.costs_mapFailure (hQ.costs_retrying b.policy ?_) _
  refine hQ.costs_call True.intro fun synced => ?_
  split
  · exact hhandle
  · have hcaught := hQ.costs_andThen hsync
      (hQ.costs_call (r := .markSynced s.number e.aggregateId) True.intro fun _ => hhandle)
    rwa [Nat.zero_add] at hcaught

/-- Commands that are given one after the other. -/
theorem costs_carryOut {n : Nat} {dispatch : Command → Activity} {cs : List Command}
    (h : ∀ c ∈ cs, Costs Q n (dispatch c)) :
    Costs Q (cs.length * n) (Reward.carryOut dispatch cs) := by
  induction cs with
  | nil =>
    rw [List.length_nil, Nat.zero_mul]
    exact hQ.costs_done _
  | cons c cs ih =>
    rw [List.forall_mem_cons] at h
    rw [List.length_cons, Nat.succ_mul, Nat.add_comm]
    exact hQ.costs_andThen h.1 (ih h.2)

end Tally

/-! ## Coming to an end -/

namespace Activity

/-- An activity takes a step: nothing is asked in it, or a request is answered in some way. -/
inductive Goes : Activity → Activity → Prop where
  /-- nothing is asked -/
  | silent {a b : Activity} (h : Silent a b) : Goes a b
  /-- a request is answered -/
  | heard {a : Activity} {r : Request} {k : r.Answer → Activity} (h : Asks a r k) (x : r.Answer) :
    Goes a (k x)

/-- There is no endless sequence of steps from here. -/
abbrev Ends : Activity → Prop :=
  Acc fun b a => Goes a b

theorem Goes.of_fork {a b c : Activity} {k : Outcome → Activity} (h : Goes (fork a b k) c) :
    (∃ a', Goes a a' ∧ c = fork a' b k) ∨ (∃ b', Goes b b' ∧ c = fork a b' k) ∨
      ∃ o, c = k o := by
  cases h with
  | silent h =>
    cases h with
    | joined o p => exact .inr (.inr ⟨_, rfl⟩)
    | first h => exact .inl ⟨_, .silent h, rfl⟩
    | second _ h => exact .inr (.inl ⟨_, .silent h, rfl⟩)
  | heard h x =>
    cases h with
    | first h => exact .inl ⟨_, .heard h x, rfl⟩
    | second _ h => exact .inr (.inl ⟨_, .heard h x, rfl⟩)

theorem ends_fork {a b : Activity} {k : Outcome → Activity} (ha : a.Ends) (hb : b.Ends)
    (hk : ∀ o, (k o).Ends) : (fork a b k).Ends := by
  -- A step of either side brings that side nearer to its end and leaves the other where it is.
  induction ha generalizing b with
  | intro a ha iha =>
    induction hb with
    | intro b hb ihb =>
      refine ⟨_, fun c hc => ?_⟩
      obtain ⟨a', ha', rfl⟩ | ⟨b', hb', rfl⟩ | ⟨o, rfl⟩ := hc.of_fork
      · exact iha a' ha' ⟨b, hb⟩
      · exact ihb b' hb'
      · exact hk o

theorem Uncrowded.ends {a : Activity} (ha : a.Uncrowded) : a.Ends := by
  induction a with
  | done o =>
    refine ⟨_, fun b hb => ?_⟩
    cases hb with
    | silent h | heard h => cases h
  | call r k ih =>
    refine ⟨_, fun b hb => ?_⟩
    cases hb with
    | silent h => cases h
    | heard h x =>
      cases h
      exact ih x (ha x)
  | pause n a ih =>
    refine ⟨_, fun b hb => ?_⟩
    cases hb with
    | silent h =>
      cases h
      exact ih ha
    | heard h => cases h
  | fork a b k iha ihb ih => exact ends_fork (iha ha.1) (ihb ha.2.1) fun o => ih o (ha.2.2 o)
  | crowd n members k => exact ha.elim

end Activity

end Loyalty
