import Loyalty.Proofs.Process.Transcript
import Loyalty.Proofs.User.Replay
import Loyalty.User.Repository

/-!
# What loading and storing ask for

A user who was loaded is the replay of the one history that the store gave.

Storing a batch asks for two things at most. First the batch is looked at by itself, and what is
wrong with it is found without asking anybody. Then the history is loaded, for the version that it
shows; and if the batch follows that version, it is saved. `Repository.conclusion` is what is left
to do after the history was loaded.

Main statement: storing a batch with nothing wrong in it is the request to load, and then the
conclusion.
-/

namespace Loyalty.Repository

/-! ## Loading -/

/-- A request to load a history. -/
def IsLoad : Request → Prop
  | .load _ => True
  | _ => False

theorem only_load (id : String) : (load id).run.Only IsLoad := by
  have hask : (Attempt.load id).run.Only IsLoad := ⟨True.intro, fun _ => True.intro⟩
  refine Attempt.only_bind hask fun history => ?_
  split
  · exact True.intro
  · exact True.intro

/-- A user who was loaded is the replay of the history that was heard. -/
theorem heard_of_load {id : String} {heard : List Exchange} {u : User}
    (h : (load id).run.After heard (.done (.ok u))) :
    ∃ es, heard = [⟨.load id, .ok es⟩] ∧ es ≠ [] ∧ User.ofHistory id es = .ok u := by
  obtain ⟨es, first, second, rfl, hfirst, hsecond⟩ := Attempt.after_bind_ok h
  obtain rfl : first = [⟨.load id, .ok es⟩] := Calls.After.of_ask_done hfirst
  cases es with
  | nil => cases hsecond.of_done.2
  | cons e es =>
    obtain ⟨rfl, hresult⟩ := hsecond.of_done
    exact ⟨e :: es, rfl, by simp, (Calls.done.inj hresult).symm⟩

/-! ## Storing -/

/-- What is wrong with a batch by itself, given in ascending order of version. -/
def batchFault? : List Event → Option Failure
  | [] => some (.validation "cannot apply an empty event batch")
  | e :: es =>
    if Text.isBlank e.aggregateId then some .blankId
    else
      (es.find? fun x => x.aggregateId ≠ e.aggregateId).map fun stray =>
        .validation
          ("event batch for " ++ e.aggregateId ++ " contains an event for " ++ stray.aggregateId)

/-- Who is not there has version 0. -/
def versionUnless (f : Failure) : Except Failure Nat :=
  if f.isNotFound then .ok 0 else .error f

/-- The version that the answer to the request for a history shows. -/
def shownVersion (id : String) : Except Failure (List Event) → Except Failure Nat
  | .error f => versionUnless f
  | .ok [] => .ok 0
  | .ok (e :: es) =>
    match User.ofHistory id (e :: es) with
    | .error f => versionUnless f
    | .ok u => .ok u.version

/-- What is left to do with a batch after the history was loaded. -/
def conclusion (e : Event) (es : List Event) (answer : Except Failure (List Event)) :
    Calls (Except Failure Applied) :=
  match shownVersion e.aggregateId answer with
  | .error f => .done (.error f)
  | .ok current =>
    if e.version = current + 1 then
      .call (.save (e :: es)) fun x =>
        .done (x.map fun _ => ⟨e.aggregateId, History.lastVersion (e :: es)⟩)
    else .done (.error (.conflict e.aggregateId (current + 1) e.version))

theorem run_currentVersion (id : String) :
    (currentVersion id).run = .call (.load id) fun x => .done (shownVersion id x) := by
  rw [currentVersion, Attempt.run_orAbsent, Attempt.run_bind, load, Attempt.run_bind]
  refine congrArg (Calls.call (.load id)) (funext fun x => ?_)
  cases x with
  | error f => rfl
  | ok es =>
    cases es with
    | nil => rfl
    | cons e es =>
      have hloaded : Attempt.onSuccess (fun history =>
          if history.isEmpty = true then throw (Failure.notFound id)
          else Attempt.ofExcept (User.ofHistory id history)) (.ok (e :: es)) =
            Calls.done (User.ofHistory id (e :: es)) := rfl
      show ((Attempt.onSuccess _ (.ok (e :: es)) >>= _) >>= _) = _
      rw [hloaded, shownVersion]
      cases User.ofHistory id (e :: es) with
      | error f => rfl
      | ok u => rfl

/-- A batch with something wrong in it is refused at once. -/
theorem run_apply_of_fault {batch : List Event} {f : Failure}
    (h : batchFault? (History.sorted batch) = some f) :
    (apply batch).run = .done (.error f) := by
  rw [apply]
  cases hs : History.sorted batch with
  | nil =>
    rw [hs] at h
    cases h
    rfl
  | cons e es =>
    rw [hs, batchFault?] at h
    by_cases hblank : Text.isBlank e.aggregateId = true
    · simp only [hblank] at h ⊢
      cases h
      rfl
    · rw [if_neg hblank] at h
      simp only [hblank]
      cases hstray : es.find? fun x => x.aggregateId ≠ e.aggregateId with
      | none =>
        rw [hstray] at h
        cases h
      | some stray =>
        rw [hstray] at h
        cases h
        rfl

/-- Any other batch: the history is loaded, and then the conclusion comes. -/
theorem run_apply {batch es : List Event} {e : Event} (hbatch : History.sorted batch = e :: es)
    (h : batchFault? (e :: es) = none) :
    (apply batch).run = .call (.load e.aggregateId) (conclusion e es) := by
  rw [apply, hbatch]
  rw [batchFault?] at h
  by_cases hblank : Text.isBlank e.aggregateId = true
  · rw [if_pos hblank] at h
    cases h
  · rw [if_neg hblank, Option.map_eq_none_iff] at h
    simp only [hblank, h]
    show ExceptT.run (currentVersion e.aggregateId >>= _) = _
    rw [Attempt.run_bind, run_currentVersion]
    refine congrArg (Calls.call (.load e.aggregateId)) (funext fun x => ?_)
    show Attempt.onSuccess _ (shownVersion e.aggregateId x) = conclusion e es x
    rw [conclusion]
    cases shownVersion e.aggregateId x with
    | error f => rfl
    | ok current =>
      simp only [Attempt.onSuccess]
      split
      · rw [Attempt.run_bind]
        refine congrArg (Calls.call (.save (e :: es))) (funext fun y => ?_)
        cases y <;> rfl
      · rfl

/-- A request to load a history or to save a batch. -/
def IsLoadOrSave : Request → Prop
  | .load _ | .save _ => True
  | _ => False

theorem only_apply (batch : List Event) : (apply batch).run.Only IsLoadOrSave := by
  cases hfault : batchFault? (History.sorted batch) with
  | some f =>
    rw [run_apply_of_fault hfault]
    exact True.intro
  | none =>
    cases hbatch : History.sorted batch with
    | nil =>
      rw [hbatch] at hfault
      cases hfault
    | cons e es =>
      rw [hbatch] at hfault
      rw [run_apply hbatch hfault]
      refine ⟨True.intro, fun x => ?_⟩
      rw [conclusion]
      split
      · exact True.intro
      split
      · exact ⟨True.intro, fun _ => True.intro⟩
      · exact True.intro

/-- The version that a gapless history shows, if it can be replayed. -/
theorem shownVersion_eq {id : String} {es : List Event} (hes : History.Gapless es)
    (hreplays : es ≠ [] → ∃ u, User.ofHistory id es = .ok u) :
    shownVersion id (.ok es) = .ok es.length := by
  cases es with
  | nil => rfl
  | cons e es =>
    obtain ⟨u, hu⟩ := hreplays (by simp)
    rw [shownVersion, hu]
    exact congrArg Except.ok (User.reflects_of_ofHistory hes hu).version_eq

/-- Storing saves the batch in its order, and nothing else, and no batch with something wrong. -/
theorem saved_of_apply {batch es : List Event} {heard : List Exchange}
    {k : (Request.save es).Answer → Calls (Except Failure Applied)}
    (h : (apply batch).run.After heard (.call (.save es) k)) :
    es = History.sorted batch ∧ batchFault? es = none := by
  cases hfault : batchFault? (History.sorted batch) with
  | some f =>
    rw [run_apply_of_fault hfault] at h
    cases h.of_done.2
  | none =>
    suffices hes : es = History.sorted batch from ⟨hes, by rw [hes, hfault]⟩
    cases hbatch : History.sorted batch with
    | nil =>
      rw [hbatch] at hfault
      cases hfault
    | cons e rest =>
      rw [hbatch] at hfault
      rw [run_apply hbatch hfault] at h
      rcases h.of_call with ⟨-, hq⟩ | ⟨x, heard, -, h⟩
      · cases hq
      · rw [conclusion] at h
        split at h
        · cases h.of_done.2
        · split at h
          · rcases h.of_call with ⟨-, hq⟩ | ⟨y, heard, -, h⟩
            · cases hq
              rfl
            · cases h.of_done.2
          · cases h.of_done.2

end Loyalty.Repository
