import Loyalty.Proofs.ReadModel.Projection
import Loyalty.Proofs.Simulation.Truth

/-!
# What the log tells of the profiles

The read model changes by nothing but the writes that it takes in, and these are in the log. Which
profile a write makes depends on the clock, so the profiles themselves are not in the log; but the
log tells how often each of them was written, and that a profile that was shown once is there.

Main statement: whatever moves are made, who was shown to have a profile has one.
-/

namespace Loyalty

namespace Exchange

/-- The write that was taken in. -/
def written : Exchange → List Write
  | ⟨.write wr, .ok ()⟩ => [wr]
  | _ => []

theorem written_eq (x : Exchange) : x.written = [] ∨ ∃ wr, x = ⟨.write wr, .ok ()⟩ := by
  obtain ⟨r, a⟩ := x
  cases r with
  | write wr =>
    cases a with
    | error f => exact .inl rfl
    | ok u => exact .inr ⟨wr, rfl⟩
  | save | load | loadAfter | user | userByReferralCode | now | stopwatch | freshCode | freshId
    | isSynced | markSynced | outside => exact .inl rfl

end Exchange

namespace Log

/-- The writes to the profile of a user that were taken in. -/
def writtenTo (id : String) (log : Log) : List Write :=
  (log.flatMap fun x => x.2.written).filter fun wr => wr.userId = id

theorem writtenTo_append (id : String) (log log' : Log) :
    writtenTo id (log ++ log') = writtenTo id log ++ writtenTo id log' := by
  rw [writtenTo, writtenTo, writtenTo, List.flatMap_append, List.filter_append]

theorem writtenTo_singleton (id : String) (π : Place) (x : Exchange) :
    writtenTo id [(π, x)] = x.written.filter fun wr => wr.userId = id := by
  simp [writtenTo]

end Log

/-- What became of the read model: it took in a write, or it stayed as it is, and who was shown to
have a profile has one. -/
inductive ReadModel.Becomes (m : ReadModel) : Exchange → ReadModel → Prop where
  /-- a write was taken in -/
  | wrote {wr : Write} {now : Time.Timestamp} {m' : ReadModel} (h : m.write now wr = .ok m') :
    Becomes m ⟨.write wr, .ok ()⟩ m'
  /-- nothing has changed -/
  | same {x : Exchange} (hx : x.written = [])
    (h : ∀ id, x.ShowsProfile id → ∃ p, m.find? id = some p) : Becomes m x m

namespace Simulation.World

theorem fault_readModel (op : Operation) (w : World) : (w.fault op).2.readModel = w.readModel := by
  rw [fault]
  split <;> rfl

/-- An operation that only reads does not touch the read model. -/
theorem gated_readModel {α : Type} {op : Operation} {perform : World → Except Failure α × World}
    (h : ∀ w, (perform w).2.readModel = w.readModel) (w : World) :
    (gated op perform w).2.readModel = w.readModel := by
  rw [gated_eq]
  cases (w.fault op).1 with
  | some f => exact fault_readModel op w
  | none => exact (h _).trans (fault_readModel op w)

/-- Nothing was written, and no profile was shown. -/
theorem becomes_of_silent {m m' : ReadModel} {x : Exchange} (hx : x.written = [])
    (hshows : ∀ id, ¬ x.ShowsProfile id) (hm : m' = m) : m.Becomes x m' := by
  subst hm
  exact .same hx fun id h => absurd h (hshows id)

theorem becomes_write (wr : Write) (w : World) :
    w.readModel.Becomes ⟨.write wr, (w.write wr).1⟩ (w.write wr).2.readModel := by
  rw [write, gated_eq]
  have hmodel := fault_readModel (.ofWrite wr) w
  cases (w.fault (.ofWrite wr)).1 with
  | some f => exact becomes_of_silent rfl (fun _ h => h) hmodel
  | none =>
    simp only [readClock]
    rw [← hmodel]
    split
    · exact becomes_of_silent rfl (fun _ h => h) rfl
    · next m' hm' => exact .wrote hm'

theorem becomes_user (id : String) (w : World) :
    w.readModel.Becomes ⟨.user id, (w.user id).1⟩ (w.user id).2.readModel := by
  rw [user, gated_eq]
  have hmodel := fault_readModel .user w
  cases (w.fault .user).1 with
  | some f => exact becomes_of_silent rfl (fun _ h => h) hmodel
  | none =>
    simp only
    rw [hmodel, ReadModel.user]
    cases hp : w.readModel.find? id with
    | none => exact .same rfl fun _ h => h.elim
    | some p =>
      refine .same rfl fun other hother => ?_
      obtain rfl : id = other := hother
      exact ⟨p, hp⟩

theorem save_readModel (es : List Event) (w : World) :
    (w.save es).2.readModel = w.readModel := by
  refine gated_readModel (fun w => ?_) (w.note (.saving es))
  rw [saveInStore]
  split <;> rfl

theorem entrust_readModel (handler : String) (errand : Errand) (w : World) :
    (w.entrust handler errand).2.readModel = w.readModel := by
  rw [entrust]
  simp only
  split <;> rfl

/-- Whatever the world is asked. -/
theorem becomes_answer (w : World) (r : Request) :
    w.readModel.Becomes ⟨r, (w.answer r).1⟩ (w.answer r).2.readModel := by
  cases r with
  | save es => exact becomes_of_silent rfl (fun _ h => h) (save_readModel es w)
  | write wr => exact becomes_write wr w
  | user id => exact becomes_user id w
  | load | loadAfter | userByReferralCode =>
    exact becomes_of_silent rfl (fun _ h => h) (gated_readModel (fun _ => rfl) w)
  | now | stopwatch | freshCode | freshId | isSynced | markSynced =>
    exact becomes_of_silent rfl (fun _ h => h) rfl
  | outside handler errand =>
    exact becomes_of_silent rfl (fun _ h => h) (entrust_readModel handler errand w)

end Simulation.World

/-- A profile never goes away, and the one that was written is there. -/
theorem ReadModel.Becomes.known {m m' : ReadModel} {x : Exchange} (h : m.Becomes x m') {id : String}
    (hid : (∃ p, m.find? id = some p) ∨ x.ShowsProfile id) : ∃ p, m'.find? id = some p := by
  cases h with
  | same hx hshows => exact hid.elim (fun hp => hp) (hshows id)
  | @wrote wr _ _ h =>
    obtain ⟨q, -, hfind⟩ := makes_of_write h
    rw [hfind]
    split
    · exact ⟨q, rfl⟩
    · next hne =>
      rcases hid with hp | hshows
      · exact hp
      · exact absurd (Eq.symm hshows) hne

end Loyalty
