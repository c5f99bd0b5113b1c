import Loyalty.Failure

/-!
# What failures mean, wrapped or not

A failure on its way to a caller is wrapped: the dispatch of a command tells of which command it was,
and a delivery tells to whom which event could not be delivered. Within the dispatch of a sign-up the
rewards dispatch commands of their own, so there may be several wrappers around one failure. Those
who have to decide what to do about it, above all whether to try again, must come to the same
decision wherever they stand.

A failure is either bare or another failure in a wrapper, and statements about failures are proved
along this: `Failure.byWrapping`.

Main statement: what a failure means does not depend on its wrappers, and every failure either may
pass or is due to a wrong request, unless nobody was there to handle something.
-/

namespace Loyalty

/-- What is added around a failure on its way to a caller. -/
inductive Wrapper where
  /-- the command that was being dispatched -/
  | dispatch (kind : CommandKind) (aggregateId : String)
  /-- the event that was being delivered, and to whom -/
  | publish (handler : String) (type : EventType) (aggregateId : String)

/-- A failure in a wrapper. -/
def Wrapper.around : Wrapper → Failure → Failure
  | dispatch kind id, f => .dispatch kind id f
  | publish name type id, f => .publish name type id f

namespace Failure

/-- A failure within wrappers, of which the first is the outermost. -/
def within (f : Failure) (ws : List Wrapper) : Failure :=
  ws.foldr Wrapper.around f

/-- The wrappers of a failure, from the outermost one inwards. -/
def wrapping : Failure → List Wrapper
  | dispatch kind id source => .dispatch kind id :: source.wrapping
  | publish name type id source => .publish name type id :: source.wrapping
  | _ => []

/-- What is found when so many steps are taken to the failure directly under a wrapper. -/
def descend : Nat → Failure → Option Failure
  | 0, f => some f
  | steps + 1, f => f.source?.bind (descend steps)

/-- Two failures mean the same to those who have to decide what to do about them. -/
structure MeansAs (f g : Failure) : Prop where
  /-- the same went wrong -/
  root_eq : f.root = g.root
  /-- something was not there in either case, or in none -/
  isNotFound_eq : f.isNotFound = g.isNotFound
  /-- both may pass, or none -/
  isRetryable_eq : f.isRetryable = g.isRetryable
  /-- the request itself was wrong in either case, or in none -/
  isValidation_eq : f.isValidation = g.isValidation

theorem MeansAs.of_root {f g : Failure} (h : f.root = g.root) : f.MeansAs g where
  root_eq := h
  isNotFound_eq := by rw [isNotFound, isNotFound, h]
  isRetryable_eq := by rw [isRetryable, isRetryable, h]
  isValidation_eq := by rw [isValidation, isValidation, h]

/-! ## Bare failures and wrappers -/

@[simp] theorem source?_around (w : Wrapper) (f : Failure) : (w.around f).source? = some f := by
  cases w <;> rfl

@[simp] theorem root_around (w : Wrapper) (f : Failure) : (w.around f).root = f.root := by
  cases w <;> rfl

@[simp] theorem wrappers_around (w : Wrapper) (f : Failure) :
    (w.around f).wrappers = f.wrappers + 1 := by
  cases w <;> rfl

@[simp] theorem wrapping_around (w : Wrapper) (f : Failure) :
    (w.around f).wrapping = w :: f.wrapping := by
  cases w <;> rfl

theorem of_bare {f : Failure} (h : f.source? = none) :
    f.root = f ∧ f.wrappers = 0 ∧ f.wrapping = [] := by
  cases f with
  | dispatch | publish => cases h
  | _ => exact ⟨rfl, rfl, rfl⟩

/-- What holds of bare failures, and of a failure in a wrapper when it holds of the failure, holds of
every failure. -/
theorem byWrapping {P : Failure → Prop} (bare : ∀ f, f.source? = none → P f)
    (wrapped : ∀ (w : Wrapper) (f : Failure), P f → P (w.around f)) (f : Failure) : P f := by
  induction f with
  | dispatch kind id source ih => exact wrapped (.dispatch kind id) source ih
  | publish name type id source ih => exact wrapped (.publish name type id) source ih
  | _ => exact bare _ rfl

/-- There is nothing under a root. -/
theorem source?_root (f : Failure) : f.root.source? = none := by
  induction f using byWrapping with
  | bare f h => rw [(of_bare h).1, h]
  | wrapped w f ih => rw [root_around, ih]

theorem root_ne_around (f : Failure) (w : Wrapper) (g : Failure) : f.root ≠ w.around g := by
  intro h
  have hsource := f.source?_root
  rw [h, source?_around] at hsource
  cases hsource

/-- Every failure is its root within its wrappers. -/
theorem root_within_wrapping (f : Failure) : f.root.within f.wrapping = f := by
  induction f using byWrapping with
  | bare f h =>
    obtain ⟨hroot, -, hwrapping⟩ := of_bare h
    rw [hroot, hwrapping]
    rfl
  | wrapped w f ih =>
    rw [root_around, wrapping_around]
    exact congrArg w.around ih

theorem length_wrapping (f : Failure) : f.wrapping.length = f.wrappers := by
  induction f using byWrapping with
  | bare f h =>
    obtain ⟨-, hwrappers, hwrapping⟩ := of_bare h
    rw [hwrappers, hwrapping]
    rfl
  | wrapped w f ih => rw [wrapping_around, List.length_cons, ih, wrappers_around]

theorem root_within (f : Failure) (ws : List Wrapper) : (f.within ws).root = f.root := by
  induction ws with
  | nil => rfl
  | cons w ws ih => exact (root_around w _).trans ih

theorem wrappers_within (f : Failure) (ws : List Wrapper) :
    (f.within ws).wrappers = ws.length + f.wrappers := by
  induction ws with
  | nil => exact (Nat.zero_add _).symm
  | cons w ws ih =>
    have hcons : (f.within (w :: ws)).wrappers = (f.within ws).wrappers + 1 := wrappers_around w _
    rw [hcons, ih, List.length_cons, Nat.add_right_comm]

/-- The root is found after as many steps as there are wrappers, and not earlier or later. -/
theorem descend_eq_root_iff {f : Failure} {steps : Nat} :
    f.descend steps = some f.root ↔ steps = f.wrappers := by
  induction f using byWrapping generalizing steps with
  | bare f h =>
    obtain ⟨hroot, hwrappers, -⟩ := of_bare h
    rw [hroot, hwrappers]
    cases steps with
    | zero => exact ⟨fun _ => rfl, fun _ => rfl⟩
    | succ steps =>
      rw [descend, h]
      exact ⟨nofun, nofun⟩
  | wrapped w f ih =>
    rw [root_around, wrappers_around]
    cases steps with
    | zero => exact ⟨fun h => absurd (Option.some.inj h).symm (f.root_ne_around w f), nofun⟩
    | succ steps =>
      rw [descend, source?_around, Option.bind_some, ih]
      exact Nat.succ_inj.symm

/-! ## What failures mean -/

/-- What may pass is not due to a wrong request. -/
theorem not_both (f : Failure) : (f.isRetryable && f.isValidation) = false := by
  rw [isRetryable, isValidation]
  cases f.root with
  | _ => rfl

/-- What is not there may come. -/
theorem isRetryable_of_isNotFound {f : Failure} : f.isNotFound = true → f.isRetryable = true := by
  rw [isNotFound, isRetryable]
  cases f.root with
  | notFound name => exact fun _ => rfl
  | _ => exact nofun

/-- What neither may pass nor is due to a wrong request: nobody was there who handles commands or
events of a kind. -/
theorem neither_iff {f : Failure} :
    f.isRetryable = false ∧ f.isValidation = false ↔
      (∃ kind, f.root = .noCommandHandler kind) ∨ ∃ type, f.root = .noEventHandlers type := by
  rw [isRetryable, isValidation]
  cases hroot : f.root with
  | dispatch kind id source => exact absurd hroot (f.root_ne_around (.dispatch kind id) source)
  | publish name type id source =>
    exact absurd hroot (f.root_ne_around (.publish name type id) source)
  | noCommandHandler kind => exact ⟨fun _ => .inl ⟨kind, rfl⟩, fun _ => ⟨rfl, rfl⟩⟩
  | noEventHandlers type => exact ⟨fun _ => .inr ⟨type, rfl⟩, fun _ => ⟨rfl, rfl⟩⟩
  | _ => simp

/-- **Wrappers make no difference to what a failure means.** Within any wrappers a failure has the
root that it has without them, and the same is said of whether it was about something that is not
there, may pass or is due to a wrong request. The root is never in a wrapper, and it is found after
as many steps as there are wrappers in all. What may pass is not due to a wrong request; what is not
there may come; and there is nothing besides the two but that nobody was there to handle a command
or an event. -/
theorem meaning_of_root (f : Failure) (ws : List Wrapper) :
    (f.within ws).MeansAs f ∧
    (∀ (w : Wrapper) (g : Failure), (f.within ws).root ≠ w.around g) ∧
    (∀ steps, (f.within ws).descend steps = some f.root ↔ steps = ws.length + f.wrappers) ∧
    (f.root.within f.wrapping = f ∧ f.wrapping.length = f.wrappers) ∧
    (f.isRetryable && f.isValidation) = false ∧
    (f.isNotFound = true → f.isRetryable = true) ∧
    (f.isRetryable = false ∧ f.isValidation = false ↔
      (∃ kind, f.root = .noCommandHandler kind) ∨ ∃ type, f.root = .noEventHandlers type) := by
  refine ⟨.of_root (f.root_within ws), (f.within ws).root_ne_around, fun steps => ?_,
    ⟨f.root_within_wrapping, f.length_wrapping⟩, f.not_both, isRetryable_of_isNotFound, neither_iff⟩
  rw [← f.root_within ws, descend_eq_root_iff, wrappers_within]

/-- The reward for a referral meets a newer version: whoever signed the user up may try again. -/
example :
    ((conflict "ann" 3 4).within [.dispatch .createUser "kim",
      .publish "referral-saga" .userCreated "kim", .dispatch .earnPoints "ann"]).isRetryable =
        true :=
  rfl

end Failure

end Loyalty
