import Loyalty.Proofs.Process.Transcript
import Loyalty.Proofs.ReadModel.Profile

/-!
# What a projection has heard

The projection reads the version of a profile, perhaps events, and then writes, and anything may
happen in between. What it can rely on is that a profile never goes away: an exchange by which a
profile was read or written *shows* that the user has one from then on.

Main statements: an event that is delivered is written only if it is the first or if its user has
been shown to have a profile; and so it is with the events by which the projection catches up, of
which the first is written first.
-/

namespace Loyalty

/-- A request by which nothing is written to the read model. -/
def Request.IsNoWrite : Request → Prop
  | .write _ => False
  | _ => True

/-- By this exchange the user was shown to have a profile: it was read, or it was written. -/
def Exchange.ShowsProfile (id : String) : Exchange → Prop
  | ⟨.user other, .ok _⟩ => other = id
  | ⟨.write wr, .ok ()⟩ => wr.userId = id
  | _ => False

namespace Projection

/-! ## The version of a profile -/

theorem noWrite_projectedVersion (id : String) :
    (projectedVersion id).run.Only Request.IsNoWrite := by
  refine Attempt.only_orAbsent 0 (Attempt.only_bind ?_ fun p => ?_)
  · exact ⟨True.intro, fun _ => True.intro⟩
  · exact True.intro

/-- The version is that of a profile that was read, or it is 0. -/
theorem heard_of_projectedVersion {id : String} {heard : List Exchange} {current : Nat}
    (h : (projectedVersion id).run.After heard (.done (.ok current))) :
    current = 0 ∨ ∃ p, ⟨.user id, .ok p⟩ ∈ heard ∧ current = p.version := by
  rw [projectedVersion, Attempt.run_orAbsent] at h
  obtain ⟨x, first, second, rfl, hfirst, hsecond⟩ := h.of_bind_done
  cases x with
  | error f =>
    -- Whatever the failure was, the version that is taken instead is 0.
    obtain ⟨-, hcurrent⟩ := hsecond.of_done
    left
    split at hcurrent
    · cases hcurrent
      rfl
    · cases hcurrent
  | ok version =>
    obtain ⟨rfl, hcurrent⟩ := hsecond.of_done
    cases hcurrent
    obtain ⟨p, read, rest, rfl, hread, hrest⟩ := Attempt.after_bind_ok hfirst
    obtain ⟨rfl, hversion⟩ := hrest.of_done
    cases hversion
    obtain rfl : read = [⟨.user id, .ok p⟩] := Calls.After.of_ask_done hread
    exact .inr ⟨p, by simp, rfl⟩

/-- A user of whom a version was read has been shown to have a profile, unless it is 0. -/
theorem shown_of_projectedVersion {id : String} {heard : List Exchange} {current : Nat}
    (h : (projectedVersion id).run.After heard (.done (.ok current))) :
    current = 0 ∨ ∃ x ∈ heard, x.ShowsProfile id := by
  refine (heard_of_projectedVersion h).imp_right ?_
  rintro ⟨p, hp, -⟩
  exact ⟨_, hp, rfl⟩

/-! ## One event -/

theorem project_eq (e : Event) :
    project e = Attempt.ofExcept (writeFor e) >>= Attempt.write := by
  rw [project, writeFor]
  cases e.decode with
  | ok c => rfl
  | error f => rfl

/-- Who is about to write an event has asked for nothing. -/
theorem heard_of_project_write {e : Event} {heard : List Exchange} {wr : Write}
    {k : (Request.write wr).Answer → Calls Outcome}
    (h : (project e).run.After heard (.call (.write wr) k)) : heard = [] ∧ writeFor e = .ok wr := by
  rw [project_eq] at h
  rcases Attempt.after_bind_call h with ⟨k', hk'⟩ | ⟨wr', first, second, rfl, hfirst, hsecond⟩
  · cases hk'.of_done.2
  · obtain ⟨rfl, hwr'⟩ := hfirst.of_done
    rcases hsecond.of_call with ⟨rfl, hcall⟩ | ⟨x, rest, -, hrest⟩
    · cases hcall
      exact ⟨rfl, (Calls.done.inj hwr').symm⟩
    · cases hrest.of_done.2

/-- Who has written an event was answered that it is done. -/
theorem heard_of_project_ok {e : Event} {heard : List Exchange}
    (h : (project e).run.After heard (.done (.ok ()))) :
    ∃ wr, writeFor e = .ok wr ∧ heard = [⟨.write wr, .ok ()⟩] := by
  rw [project_eq] at h
  obtain ⟨wr, first, second, rfl, hfirst, hsecond⟩ := Attempt.after_bind_ok h
  obtain ⟨rfl, hwr⟩ := hfirst.of_done
  obtain rfl : second = [⟨.write wr, .ok ()⟩] := Calls.After.of_ask_done hsecond
  exact ⟨wr, (Calls.done.inj hwr).symm, rfl⟩

/-- An event that is delivered is written only if it is the first of its user, or if the user has
been shown to have a profile. -/
theorem heard_of_handle_write {e : Event} {heard : List Exchange} {wr : Write}
    {k : (Request.write wr).Answer → Calls Outcome}
    (h : (handle e).run.After heard (.call (.write wr) k)) :
    writeFor e = .ok wr ∧ (e.version = 1 ∨ ∃ x ∈ heard, x.ShowsProfile e.aggregateId) := by
  rcases Attempt.after_bind_call h with ⟨k', hk'⟩ | ⟨current, first, second, rfl, hfirst, hsecond⟩
  · exact False.elim (hk'.allowed (noWrite_projectedVersion _))
  split at hsecond
  · cases hsecond.of_done.2
  split at hsecond
  · next hnext =>
    obtain ⟨rfl, hwr⟩ := heard_of_project_write hsecond
    refine ⟨hwr, ?_⟩
    rcases shown_of_projectedVersion hfirst with rfl | ⟨x, hx, hshows⟩
    · exact .inl hnext
    · exact .inr ⟨x, List.mem_append_left _ hx, hshows⟩
  · cases hsecond.of_done.2

/-! ## Catching up -/

/-- Who is about to write one of several events has written those before it. -/
theorem heard_of_projectAll_write {es : List Event} {heard : List Exchange} {wr : Write}
    {k : (Request.write wr).Answer → Calls Outcome}
    (h : (projectAll es).run.After heard (.call (.write wr) k)) :
    ∃ before e after, es = before ++ e :: after ∧ writeFor e = .ok wr ∧
      ∀ x ∈ before, ∃ wr', writeFor x = .ok wr' ∧ ⟨.write wr', .ok ()⟩ ∈ heard := by
  induction es generalizing heard with
  | nil => cases h.of_done.2
  | cons e es ih =>
    rw [projectAll] at h
    rcases Attempt.after_bind_call h with ⟨k', hk'⟩ | ⟨_, first, second, rfl, hfirst, hsecond⟩
    · exact ⟨[], e, es, rfl, (heard_of_project_write hk').2, by simp⟩
    · obtain ⟨wr', hwr', rfl⟩ := heard_of_project_ok hfirst
      obtain ⟨before, e', after, rfl, he', hbefore⟩ := ih hsecond
      refine ⟨e :: before, e', after, rfl, he', fun x hx => ?_⟩
      rcases List.mem_cons.1 hx with rfl | hx
      · exact ⟨wr', hwr', by simp⟩
      · obtain ⟨wr'', hwr'', hheard⟩ := hbefore x hx
        exact ⟨wr'', hwr'', List.mem_append_right _ hheard⟩

/-- Who is about to write while catching up writes an event that was loaded. It is the first of
those events, and all events were loaded, unless a user of these events has been shown to have a
profile. -/
theorem heard_of_sync_write {id : String} {heard : List Exchange} {wr : Write}
    {k : (Request.write wr).Answer → Calls Outcome}
    (h : (sync id).run.After heard (.call (.write wr) k)) :
    ∃ current missing e, ⟨.loadAfter id current, .ok missing⟩ ∈ heard ∧ e ∈ missing ∧
      writeFor e = .ok wr ∧
      ((current = 0 ∧ ∃ rest, History.sorted missing = e :: rest) ∨
        ∃ x ∈ heard, x.ShowsProfile id ∨ ∃ e' ∈ missing, x.ShowsProfile e'.aggregateId) := by
  rcases Attempt.after_bind_call h with ⟨k', hk'⟩ | ⟨current, first, rest, rfl, hfirst, hrest⟩
  · exact False.elim (hk'.allowed (noWrite_projectedVersion id))
  rcases Attempt.after_bind_call hrest with ⟨k', hk'⟩ | ⟨missing, second, last, rfl, hsecond, hlast⟩
  · have hload : (Attempt.loadAfter id current).run.Only Request.IsNoWrite :=
      ⟨True.intro, fun _ => True.intro⟩
    exact False.elim (hk'.allowed hload)
  obtain rfl : second = [⟨.loadAfter id current, .ok missing⟩] := Calls.After.of_ask_done hsecond
  obtain ⟨before, e, after, hsorted, hwr, hbefore⟩ := heard_of_projectAll_write hlast
  have hmissing : ∀ x, x ∈ missing ↔ x ∈ before ++ e :: after := by
    intro x
    rw [← hsorted]
    exact (History.sorted_perm missing).mem_iff.symm
  refine ⟨current, missing, e, by simp, (hmissing e).2 (by simp), hwr, ?_⟩
  cases before with
  | nil =>
    rcases shown_of_projectedVersion hfirst with rfl | ⟨x, hx, hshows⟩
    · exact .inl ⟨rfl, after, hsorted⟩
    · exact .inr ⟨x, List.mem_append_left _ hx, .inl hshows⟩
  | cons x before =>
    -- An earlier event was written, and that showed the profile of its user.
    obtain ⟨wr', hwr', hheard⟩ := hbefore x (by simp)
    have hshows : Exchange.ShowsProfile x.aggregateId ⟨.write wr', .ok ()⟩ :=
      userId_of_writeFor hwr'
    refine .inr ⟨⟨.write wr', .ok ()⟩, ?_, .inr ⟨x, (hmissing x).2 (by simp), hshows⟩⟩
    exact List.mem_append_right _ (List.mem_cons_of_mem _ hheard)

end Projection

end Loyalty
