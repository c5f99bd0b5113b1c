import Loyalty.Proofs.Process.Family
import Loyalty.Proofs.Process.Hearing

/-!
# Requests and their grounds

What is right to ask for may depend on what has been heard before, and not only by whoever asks:
one side of a fork may save what the other side goes on to deliver. `grounds heard r` says that
after `heard` there are grounds for the request `r`. More that was heard takes no grounds away. So
an activity can be looked at by itself, and it does not matter what else is heard while it is under
way.

`Activity.Heeds` says that an activity asks for nothing without grounds, whatever it is answered.
Each way of putting activities together keeps it.

Main statement: in a pool of such activities there were grounds for every request in the log, and
they stand in the log before it.
-/

namespace Loyalty

namespace Activity

variable (grounds : List Exchange → Request → Prop)

/-- More that was heard takes no grounds away. -/
def Lasting : Prop :=
  ∀ (heard more : List Exchange) (r : Request), heard ⊆ more → grounds heard r → grounds more r

/-- Where so much has been heard, an activity asks for nothing without grounds. What follows a fork
may have heard more than both sides of it. -/
def Heeds : Activity → List Exchange → Prop
  | done _, _ => True
  | call r k, heard => grounds heard r ∧ ∀ x, (k x).Heeds (heard ++ [⟨r, x⟩])
  | pause _ a, heard => a.Heeds heard
  | fork a b k, heard =>
    a.Heeds heard ∧ b.Heeds heard ∧ ∀ o more, heard ⊆ more → (k o).Heeds more
  | crowd .., _ => False

variable {grounds} {heard more : List Exchange}

theorem Heeds.mono (hgrounds : Lasting grounds) {a : Activity} (ha : a.Heeds grounds heard)
    (hmore : heard ⊆ more) : a.Heeds grounds more := by
  induction a generalizing heard more with
  | done o => trivial
  | call r k ih =>
    refine ⟨hgrounds _ _ r hmore ha.1, fun x => ih x (ha.2 x) ?_⟩
    exact List.append_subset.2
      ⟨List.Subset.trans hmore (List.subset_append_left _ _), List.subset_append_right _ _⟩
  | pause n a ih => exact ih ha hmore
  | fork a b k iha ihb _ =>
    obtain ⟨hfirst, hsecond, hk⟩ := ha
    refine ⟨iha hfirst hmore, ihb hsecond hmore, fun o late hlate => hk o late ?_⟩
    exact List.Subset.trans hmore hlate
  | crowd n members k => exact ha

/-! ## Putting activities together -/

theorem Heeds.bind {a : Activity} {g : Outcome → Activity} (ha : a.Heeds grounds heard)
    (hg : ∀ o more, heard ⊆ more → (g o).Heeds grounds more) : (a.bind g).Heeds grounds heard := by
  induction a generalizing heard with
  | done o => exact hg o heard (List.Subset.refl _)
  | call r k ih =>
    refine ⟨ha.1, fun x => ih x (ha.2 x) fun o more hmore => hg o more ?_⟩
    exact List.Subset.trans (List.subset_append_left _ _) hmore
  | pause n a ih => exact ih ha hg
  | fork a b k _ _ ih =>
    obtain ⟨hfirst, hsecond, hk⟩ := ha
    refine ⟨hfirst, hsecond, fun o more hmore => ih o (hk o more hmore) fun p late hlate => ?_⟩
    exact hg p late (List.Subset.trans hmore hlate)
  | crowd n members k => exact ha.elim

theorem Heeds.andThen {a b : Activity} (ha : a.Heeds grounds heard)
    (hb : ∀ more, heard ⊆ more → b.Heeds grounds more) : (a.andThen b).Heeds grounds heard :=
  ha.bind fun o more hmore => by
    cases o with
    | ok u => exact hb more hmore
    | error f => trivial

theorem Heeds.mapFailure {a : Activity} (ha : a.Heeds grounds heard) (describe : Failure → Failure) :
    (a.mapFailure describe).Heeds grounds heard :=
  ha.bind fun o _ _ => by cases o <;> trivial

/-- A process, and what follows it. -/
theorem heeds_ofCalls {α : Type} {m : Calls α} {g : α → Activity}
    (hm : ∀ said r k, m.After said (.call r k) → grounds (heard ++ said) r)
    (hg : ∀ said x, m.After said (.done x) → (g x).Heeds grounds (heard ++ said)) :
    (ofCalls m g).Heeds grounds heard := by
  induction m generalizing heard with
  | done x => simpa [ofCalls] using hg [] x (.start _)
  | call r k ih =>
    refine ⟨by simpa using hm [] r k (.start _), fun x => ih x ?_ ?_⟩
    · intro said r' k' hafter
      simpa using hm _ r' k' (.heard hafter)
    · intro said y hafter
      simpa using hg _ y (.heard hafter)

/-- What heeds the grounds at any time heeds them however often it is repeated. -/
theorem heeds_retrying (hwatch : ∀ said, grounds said .stopwatch) {a : Activity}
    (ha : ∀ more, heard ⊆ more → a.Heeds grounds more) (policy : RetryPolicy) :
    (policy.retrying a).Heeds grounds heard := by
  refine policy.retrying_of_closed (P := fun a => ∀ more, heard ⊆ more → a.Heeds grounds more)
    ?_ ?_ ?_ ?_ ha heard (List.Subset.refl _)
  · exact fun _ _ _ => True.intro
  · refine fun hk more hmore => ⟨hwatch more, fun t => hk t _ ?_⟩
    exact List.Subset.trans hmore (List.subset_append_left _ _)
  · exact fun _ _ ha => ha
  · refine fun ha hg more hmore => (ha more hmore).bind fun o late hlate => hg o late ?_
    exact List.Subset.trans hmore hlate

/-! ## Steps -/

theorem Heeds.silent {a b : Activity} (h : Silent a b) (ha : a.Heeds grounds heard) :
    b.Heeds grounds heard := by
  induction h with
  | rested n a => exact ha
  | joined o p k => exact ha.2.2 _ _ (List.Subset.refl _)
  | first _ b k ih => exact ⟨ih ha.1, ha.2⟩
  | second a _ k ih => exact ⟨ha.1, ih ha.2.1, ha.2.2⟩

theorem Heeds.asks (hgrounds : Lasting grounds) {a : Activity} {r : Request}
    {k : r.Answer → Activity} (h : Asks a r k) (ha : a.Heeds grounds heard) :
    grounds heard r ∧ ∀ x, (k x).Heeds grounds (heard ++ [⟨r, x⟩]) := by
  induction h with
  | here r k => exact ha
  | first _ b g ih =>
    obtain ⟨hfirst, hsecond, hg⟩ := ha
    refine ⟨(ih hfirst).1, fun x => ⟨(ih hfirst).2 x, ?_, fun o more hmore => hg o more ?_⟩⟩
    · exact hsecond.mono hgrounds (List.subset_append_left _ _)
    · exact List.Subset.trans (List.subset_append_left _ _) hmore
  | second a _ g ih =>
    obtain ⟨hfirst, hsecond, hg⟩ := ha
    refine ⟨(ih hsecond).1, fun x => ⟨?_, (ih hsecond).2 x, fun o more hmore => hg o more ?_⟩⟩
    · exact hfirst.mono hgrounds (List.subset_append_left _ _)
    · exact List.Subset.trans (List.subset_append_left _ _) hmore

/-- Whatever becomes of the activity at a place. -/
theorem Heeds.advanced (hgrounds : Lasting grounds) {a b : Activity} {x? : Option Exchange}
    (h : Advanced a x? b) (ha : a.Heeds grounds heard) :
    b.Heeds grounds (heard ++ x?.toList) ∧ ∀ x ∈ x?, grounds heard x.request := by
  cases h with
  | idle => simpa using ha
  | silent h => simpa using ha.silent h
  | heard h x =>
    obtain ⟨hr, hk⟩ := ha.asks hgrounds h
    exact ⟨hk x, by rintro _ ⟨⟩; exact hr⟩

theorem Advanced.uncrowded {a b : Activity} {x? : Option Exchange} (h : Advanced a x? b)
    (ha : a.Uncrowded) : b.Uncrowded := by
  cases h with
  | idle => exact ha
  | silent h => exact h.uncrowded ha
  | heard h x => exact h.uncrowded ha x

end Activity

/-! ## Pools -/

/-- What was heard, wherever it was. -/
abbrev Log.heard (log : Log) : List Exchange :=
  log.map Prod.snd

/-- There were grounds for every request, and they had been heard before. -/
def Log.Grounded (grounds : List Exchange → Request → Prop) : Log → Prop :=
  Log.Each fun before _ x => grounds before.heard x.request

namespace Pool

variable {σ ι : Type} {grounds : List Exchange → Request → Prop}

variable (grounds) in
/-- A pool of activities that have asked for nothing without grounds, and will not. -/
structure Heedful (P : Pool σ) : Prop where
  /-- what the members have still to do -/
  members : ∀ a ∈ P.members, a.Uncrowded ∧ a.Heeds grounds P.log.heard
  /-- what they have done -/
  grounded : P.log.Grounded grounds

theorem heedful_empty (w : σ) : (empty w).Heedful grounds :=
  ⟨by simp [empty], .nil⟩

variable (hgrounds : Activity.Lasting grounds) (s : Surroundings σ) {P : Pool σ}

include hgrounds

/-- A member has gone on. The others are where they were, and may have heard more. -/
theorem Heedful.took (hP : P.Heedful grounds) {i : Nat} {a : Activity} (ha : P.members[i]? = some a)
    (π : Place) : (P.took i (a.advance s P.state π)).Heedful grounds := by
  obtain ⟨hcrowd, hheeds⟩ := hP.members a (List.mem_of_getElem? ha)
  have hadvanced := Activity.advanced s P.state hcrowd π
  obtain ⟨hnext, hground⟩ := hheeds.advanced hgrounds hadvanced
  generalize a.advance s P.state π = x at hadvanced hnext hground
  have hheard : (P.took i x).log.heard = P.log.heard ++ (x.exchange?.map Prod.snd).toList := by
    rw [Pool.took, Log.heard, List.map_append]
    cases x.exchange? <;> rfl
  refine ⟨fun b hb => ?_, ?_⟩
  · rw [hheard]
    rcases List.mem_or_eq_of_mem_set hb with hb | rfl
    · exact ⟨(hP.members b hb).1, (hP.members b hb).2.mono hgrounds (List.subset_append_left _ _)⟩
    · exact ⟨hadvanced.uncrowded hcrowd, hnext⟩
  · rw [Pool.took]
    cases hx : x.exchange? with
    | none => simpa using hP.grounded
    | some y => exact .more hP.grounded (hground y.2 (by simp [hx]))

variable {launch : ι → Activity}
  (hlaunch : ∀ x, (launch x).Uncrowded ∧ ∀ heard, (launch x).Heeds grounds heard)

include hlaunch

theorem Heedful.step (hP : P.Heedful grounds) (move : Move ι) :
    (P.step s launch move).Heedful grounds := by
  cases move with
  | pass nanos => exact ⟨hP.members, hP.grounded⟩
  | start x =>
    refine ⟨fun a ha => ?_, hP.grounded⟩
    rcases List.mem_append.1 ha with ha | ha
    · exact hP.members a ha
    · obtain rfl := List.mem_singleton.1 ha
      exact ⟨(hlaunch x).1, (hlaunch x).2 _⟩
  | go i π =>
    rw [Pool.step]
    split
    · exact hP
    · next a ha => exact hP.took hgrounds s ha π

/-- **There were grounds for every request.** Whatever moves are made, nobody asks for anything
without grounds that stand in the log. -/
theorem Heedful.run (hP : P.Heedful grounds) (moves : List (Move ι)) :
    (P.run s launch moves).Heedful grounds := by
  induction moves generalizing P with
  | nil => exact hP
  | cons move moves ih => exact ih (hP.step hgrounds s hlaunch move)

end Pool

end Loyalty
