import Loyalty.Delivery.Policy
import Loyalty.Proofs.Text.Numeral

/-!
# Settings

The retry policy comes from three variables of the environment. What a variable says is a matter of
that variable alone: it is not set, or it is a whole number, or it is garbled. A policy is described
when none of the three is garbled, and each setting is what its own variable says or what is usual.
Otherwise the first garbled variable is complained about.

Main statement: which policies environments describe, which complaints there are, and that numbers
are read back however much white space and how many zeros they are written with.
-/

namespace Loyalty.RetryPolicy

open Text Time

namespace Setting

/-- What an environment says about a setting: a number, or nothing. -/
inductive Says (environment : String → Option String) (s : Setting) : Option Nat → Prop where
  /-- the variable is not set -/
  | nothing (h : environment s.variable = none) : s.Says environment none
  /-- the variable is a whole number of 64 bits -/
  | number {raw : String} {text : List Char} {n : Nat} (h : environment s.variable = some raw)
    (htext : Trims raw.toList text) (hn : Numeral text n) (hlt : n < word64) :
    s.Says environment (some n)

/-- The variable is set, but not to a whole number of 64 bits. This is what is complained about. -/
inductive Garbled (environment : String → Option String) (s : Setting) : Failure → Prop where
  /-- something is wrong with the text -/
  | refused {raw : String} {text : List Char} {fault : NumeralFault}
    (h : environment s.variable = some raw) (htext : Trims raw.toList text)
    (hfault : Refused word64 text fault) :
    s.Garbled environment (.configuration
      (s.variable ++ "=" ++ quoted raw ++ " is not a whole number: " ++ fault.message))

variable {environment : String → Option String} {s : Setting}

theorem read_eq_ok_iff {raw : String} {n : Word} :
    s.read raw = .ok n ↔ Numeral (trimChars raw.toList) n.1 := by
  have hread (k : Nat) : readNumeral word64 (trimChars raw.toList) = .ok k ↔
      Numeral (trimChars raw.toList) k ∧ k < word64 := readNumeral_eq_ok_iff (by decide)
  rw [read]
  split
  · next m hm =>
    constructor
    · rintro ⟨⟩
      exact ((hread m).1 hm).1
    · intro hn
      cases hm.symm.trans ((hread n.1).2 ⟨hn, n.2⟩)
      rfl
  · next fault hfault =>
    constructor
    · nofun
    · intro hn
      cases hfault.symm.trans ((hread n.1).2 ⟨hn, n.2⟩)

theorem read_eq_error_iff {raw : String} {f : Failure} :
    s.read raw = .error f ↔ ∃ fault, Refused word64 (trimChars raw.toList) fault ∧
      f = .configuration
        (s.variable ++ "=" ++ quoted raw ++ " is not a whole number: " ++ fault.message) := by
  have hread (fault : NumeralFault) : readNumeral word64 (trimChars raw.toList) = .error fault ↔
      Refused word64 (trimChars raw.toList) fault := readNumeral_eq_error_iff (by decide)
  rw [read]
  split
  · next m hm =>
    constructor
    · nofun
    · rintro ⟨fault, hfault, -⟩
      cases hm.symm.trans ((hread fault).2 hfault)
  · next fault hfault =>
    constructor
    · rintro ⟨⟩
      exact ⟨fault, (hread fault).1 hfault, rfl⟩
    · rintro ⟨fault', hfault', rfl⟩
      cases hfault.symm.trans ((hread fault').2 hfault')
      rfl

theorem lookup_of_unset (h : environment s.variable = none) : s.lookup environment = .ok none := by
  rw [lookup, h]

theorem lookup_of_set {raw : String} (h : environment s.variable = some raw) :
    s.lookup environment = (s.read raw).map some := by
  rw [lookup, h]

theorem lookup_eq_ok_iff {v : Option Word} :
    s.lookup environment = .ok v ↔ s.Says environment (v.map Subtype.val) := by
  constructor
  · intro h
    cases hset : environment s.variable with
    | none =>
      rw [lookup_of_unset hset] at h
      cases h
      exact .nothing hset
    | some raw =>
      rw [lookup_of_set hset] at h
      cases hn : s.read raw with
      | error f =>
        rw [hn] at h
        cases h
      | ok n =>
        rw [hn] at h
        cases h
        exact .number hset (trims_trimChars _) (read_eq_ok_iff.1 hn) n.2
  · intro h
    cases v with
    | none =>
      cases h with
      | nothing hset => exact lookup_of_unset hset
    | some n =>
      cases h with
      | number hset htext hn =>
        rw [trims_iff.1 htext] at hn
        rw [lookup_of_set hset, read_eq_ok_iff.2 hn]
        rfl

theorem lookup_eq_error_iff {f : Failure} :
    s.lookup environment = .error f ↔ s.Garbled environment f := by
  constructor
  · intro h
    cases hset : environment s.variable with
    | none =>
      rw [lookup_of_unset hset] at h
      cases h
    | some raw =>
      rw [lookup_of_set hset] at h
      cases hn : s.read raw with
      | error g =>
        rw [hn] at h
        cases h
        obtain ⟨fault, hfault, rfl⟩ := read_eq_error_iff.1 hn
        exact .refused hset (trims_trimChars _) hfault
      | ok n =>
        rw [hn] at h
        cases h
  · intro h
    cases h with
    | refused hset htext hfault =>
      rw [trims_iff.1 htext] at hfault
      rw [lookup_of_set hset, read_eq_error_iff.2 ⟨_, hfault, rfl⟩]
      rfl

theorem Says.exists_lookup {v : Option Nat} (h : s.Says environment v) :
    ∃ w : Option Word, s.lookup environment = .ok w ∧ w.map Subtype.val = v := by
  cases v with
  | none => exact ⟨none, lookup_eq_ok_iff.2 h, rfl⟩
  | some n =>
    have hlt : n < word64 := by
      cases h with
      | number _ _ _ hlt => exact hlt
    exact ⟨some ⟨n, hlt⟩, lookup_eq_ok_iff.2 h, rfl⟩

/-- A variable says one thing, if it is not garbled. -/
theorem Says.unique {v v' : Option Nat} (h : s.Says environment v) (h' : s.Says environment v') :
    v = v' := by
  obtain ⟨w, hw, rfl⟩ := h.exists_lookup
  obtain ⟨w', hw', rfl⟩ := h'.exists_lookup
  cases hw.symm.trans hw'
  rfl

/-- Of these settings, the first that is garbled is complained about. -/
inductive FirstGarbled (environment : String → Option String) (f : Failure) :
    List Setting → Prop where
  /-- it is the first of them -/
  | here {s : Setting} (h : s.Garbled environment f) (ss : List Setting) :
    FirstGarbled environment f (s :: ss)
  /-- the first of them is not garbled -/
  | later {s : Setting} {v : Option Nat} (h : s.Says environment v) {ss : List Setting}
    (hlater : FirstGarbled environment f ss) : FirstGarbled environment f (s :: ss)

theorem firstGarbled_cons_iff {f : Failure} {ss : List Setting} :
    FirstGarbled environment f (s :: ss) ↔
      s.lookup environment = .error f ∨
        (∃ w, s.lookup environment = .ok w) ∧ FirstGarbled environment f ss := by
  constructor
  · intro h
    cases h with
    | here h => exact .inl (lookup_eq_error_iff.2 h)
    | later h hlater =>
      obtain ⟨w, hw, -⟩ := h.exists_lookup
      exact .inr ⟨⟨w, hw⟩, hlater⟩
  · rintro (h | ⟨⟨w, hw⟩, hlater⟩)
    · exact .here (lookup_eq_error_iff.1 h) ss
    · exact .later (lookup_eq_ok_iff.1 hw) hlater

end Setting

/-! ## Policies -/

/-- A policy is what an environment says, and what is usual where it says nothing. -/
structure DescribedBy (environment : String → Option String) (p : RetryPolicy) : Prop where
  /-- the pause before the first retry is given in milliseconds, and usually a tenth of a second -/
  initialInterval : ∃ v, Setting.initialInterval.Says environment v ∧
    p.initialInterval.nanos = v.getD 100 * 1000000
  /-- the longest retry time is given in milliseconds, and usually half a second -/
  maxElapsedTime : ∃ v, Setting.maxElapsedTime.Says environment v ∧
    p.maxElapsedTime.nanos = v.getD 500 * 1000000
  /-- there are usually three retries at most -/
  maxRetry : ∃ v, Setting.maxRetry.Says environment v ∧ p.maxRetry = v.getD 3

variable {environment : String → Option String}

/-- A policy with given settings. -/
def ofSettings (interval elapsed retry : Option Word) : RetryPolicy where
  initialInterval := (interval.map Word.millis).getD standard.initialInterval
  maxElapsedTime := (elapsed.map Word.millis).getD standard.maxElapsedTime
  maxRetry := (retry.map Subtype.val).getD standard.maxRetry

theorem eq_ofSettings_iff {p : RetryPolicy} {interval elapsed retry : Option Word} :
    p = ofSettings interval elapsed retry ↔
      p.initialInterval.nanos = (interval.map Subtype.val).getD 100 * 1000000 ∧
      p.maxElapsedTime.nanos = (elapsed.map Subtype.val).getD 500 * 1000000 ∧
      p.maxRetry = (retry.map Subtype.val).getD 3 := by
  obtain ⟨⟨n, hn⟩, ⟨m, hm⟩, k⟩ := p
  cases interval <;> cases elapsed <;> simp [ofSettings, Word.millis, Duration.ofMillis, standard]

theorem ofEnvironment_eq_ok_iff {p : RetryPolicy} :
    ofEnvironment environment = .ok p ↔ ∃ interval elapsed retry,
      Setting.initialInterval.lookup environment = .ok interval ∧
      Setting.maxElapsedTime.lookup environment = .ok elapsed ∧
      Setting.maxRetry.lookup environment = .ok retry ∧ p = ofSettings interval elapsed retry := by
  rw [ofEnvironment]
  cases Setting.initialInterval.lookup environment with
  | error f => exact ⟨nofun, nofun⟩
  | ok interval =>
    cases Setting.maxElapsedTime.lookup environment with
    | error f => exact ⟨nofun, nofun⟩
    | ok elapsed =>
      cases Setting.maxRetry.lookup environment with
      | error f => exact ⟨nofun, nofun⟩
      | ok retry =>
        constructor
        · rintro ⟨⟩
          exact ⟨interval, elapsed, retry, rfl, rfl, rfl, rfl⟩
        · rintro ⟨_, _, _, ⟨⟩, ⟨⟩, ⟨⟩, rfl⟩
          rfl

theorem ofEnvironment_eq_error_iff {f : Failure} :
    ofEnvironment environment = .error f ↔
      Setting.FirstGarbled environment f [.initialInterval, .maxElapsedTime, .maxRetry] := by
  have hnone : ¬ Setting.FirstGarbled environment f [] := nofun
  rw [Setting.firstGarbled_cons_iff, Setting.firstGarbled_cons_iff, Setting.firstGarbled_cons_iff,
    ofEnvironment]
  cases Setting.initialInterval.lookup environment with
  | error g => simp [bind, Except.bind]
  | ok interval =>
    cases Setting.maxElapsedTime.lookup environment with
    | error g => simp [bind, Except.bind]
    | ok elapsed =>
      cases Setting.maxRetry.lookup environment with
      | error g => simp [bind, Except.bind]
      | ok retry => simp [bind, Except.bind, hnone]

theorem describedBy_iff {p : RetryPolicy} :
    p.DescribedBy environment ↔ ofEnvironment environment = .ok p := by
  rw [ofEnvironment_eq_ok_iff]
  constructor
  · rintro ⟨⟨v₁, h₁, hinterval⟩, ⟨v₂, h₂, helapsed⟩, v₃, h₃, hretry⟩
    obtain ⟨interval, hinterval', rfl⟩ := h₁.exists_lookup
    obtain ⟨elapsed, helapsed', rfl⟩ := h₂.exists_lookup
    obtain ⟨retry, hretry', rfl⟩ := h₃.exists_lookup
    exact ⟨interval, elapsed, retry, hinterval', helapsed', hretry',
      eq_ofSettings_iff.2 ⟨hinterval, helapsed, hretry⟩⟩
  · rintro ⟨interval, elapsed, retry, h₁, h₂, h₃, hp⟩
    obtain ⟨hinterval, helapsed, hretry⟩ := eq_ofSettings_iff.1 hp
    exact ⟨⟨_, Setting.lookup_eq_ok_iff.1 h₁, hinterval⟩,
      ⟨_, Setting.lookup_eq_ok_iff.1 h₂, helapsed⟩, ⟨_, Setting.lookup_eq_ok_iff.1 h₃, hretry⟩⟩

/-- There is a policy when no variable is garbled. -/
theorem exists_ofEnvironment_eq_ok_iff :
    (∃ p, ofEnvironment environment = .ok p) ↔ ∀ s : Setting, ∃ v, s.Says environment v := by
  constructor
  · rintro ⟨p, hp⟩ s
    obtain ⟨⟨v₁, h₁, -⟩, ⟨v₂, h₂, -⟩, v₃, h₃, -⟩ := describedBy_iff.2 hp
    cases s with
    | initialInterval => exact ⟨v₁, h₁⟩
    | maxElapsedTime => exact ⟨v₂, h₂⟩
    | maxRetry => exact ⟨v₃, h₃⟩
  · intro h
    have hlookup (s : Setting) : ∃ w, s.lookup environment = .ok w := by
      obtain ⟨v, hv⟩ := h s
      obtain ⟨w, hw, -⟩ := hv.exists_lookup
      exact ⟨w, hw⟩
    obtain ⟨interval, hinterval⟩ := hlookup .initialInterval
    obtain ⟨elapsed, helapsed⟩ := hlookup .maxElapsedTime
    obtain ⟨retry, hretry⟩ := hlookup .maxRetry
    exact ⟨_, ofEnvironment_eq_ok_iff.2 ⟨_, _, _, hinterval, helapsed, hretry, rfl⟩⟩

/-- **Policies of an environment.** An environment describes a policy exactly when each of the three
variables is not set or is a whole number of 64 bits, with white space around it or not. Each setting
is then what its own variable says, or what is usual, whatever the other variables are. Otherwise it
is the first garbled variable that is complained about. A number is read back as it is, with however
many zeros and whatever white space it is written. -/
theorem environment_describes (environment : String → Option String) :
    ((∃ p, ofEnvironment environment = .ok p) ↔ ∀ s : Setting, ∃ v, s.Says environment v) ∧
    (∀ p, ofEnvironment environment = .ok p ↔ p.DescribedBy environment) ∧
    (∀ (s : Setting) (v v' : Option Nat), s.Says environment v → s.Says environment v' → v = v') ∧
    (∀ f, ofEnvironment environment = .error f ↔
      Setting.FirstGarbled environment f [.initialInterval, .maxElapsedTime, .maxRetry]) ∧
    ∀ (s : Setting) (n width : Nat) (front back : List Char), n < word64 →
      (∀ c ∈ front, isSpace c = true) → (∀ c ∈ back, isSpace c = true) →
      environment s.variable = some (String.ofList (front ++ padded width n ++ back)) →
      s.Says environment (some n) := by
  refine ⟨exists_ofEnvironment_eq_ok_iff, fun p => describedBy_iff.symm,
    fun s v v' h h' => h.unique h', fun f => ofEnvironment_eq_error_iff,
    fun s n width front back hlt hfront hback h => ?_⟩
  have htext : Trims (String.ofList (front ++ padded width n ++ back)).toList (padded width n) := by
    rw [String.toList_ofList]
    exact (numeral_padded width n).trims hfront hback
  exact .number h htext (numeral_padded width n) hlt

/-- An environment in which a number is written at length, another one does not fit and has a unit, and
a third one is a word. -/
def misspelt (name : String) : Option String :=
  if name = "EVENT_BUS_BACKOFF_INITIAL_INTERVAL" then some "\n0025\u3000"
  else if name = "EVENT_BUS_BACKOFF_MAX_ELAPSED_TIME" then some "18446744073709551616ms"
  else some "three"

theorem misspelt_described :
    Setting.initialInterval.Says misspelt (some 25) ∧
    ofEnvironment misspelt = .error (.configuration
      ("EVENT_BUS_BACKOFF_MAX_ELAPSED_TIME=\"18446744073709551616ms\"" ++
        " is not a whole number: number too large to fit in target type")) := by
  have hwritten : misspelt Setting.initialInterval.variable =
      some (String.ofList (['\n'] ++ padded 4 25 ++ ['\u3000'])) := by
    decide +kernel
  have hinterval : Setting.initialInterval.Says misspelt (some 25) :=
    (environment_describes misspelt).2.2.2.2 .initialInterval 25 4 ['\n'] ['\u3000'] (by decide)
      (List.forall_mem_singleton.2 (by decide)) (List.forall_mem_singleton.2 (by decide)) hwritten
  have hdigits : "18446744073709551616".toList.all Char.isDigit = true := by decide
  have hfault : Faulty word64 0 ("18446744073709551616".toList ++ ['m', 's']) .tooLarge :=
    .tooLarge (List.all_eq_true.1 hdigits) (by decide +kernel)
  have hsign : ∀ c ∈ ("18446744073709551616".toList ++ ['m', 's']).head?, c ≠ '+' := by
    rintro _ ⟨⟩
    decide
  have hraw : misspelt Setting.maxElapsedTime.variable = some "18446744073709551616ms" := rfl
  have hgarbled := Setting.Garbled.refused hraw (trims_iff.2 (by decide +kernel))
    (.unsigned hsign hfault)
  have hmessage : Setting.maxElapsedTime.variable ++ "=" ++ quoted "18446744073709551616ms" ++
      " is not a whole number: " ++ NumeralFault.tooLarge.message =
        "EVENT_BUS_BACKOFF_MAX_ELAPSED_TIME=\"18446744073709551616ms\"" ++
          " is not a whole number: number too large to fit in target type" := by
    decide +kernel
  rw [hmessage] at hgarbled
  exact ⟨hinterval,
    ((environment_describes misspelt).2.2.2.1 _).2 (.later hinterval (.here hgarbled _))⟩

end Loyalty.RetryPolicy
