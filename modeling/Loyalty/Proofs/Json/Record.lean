import Loyalty.Event.Kind
import Loyalty.Points
import Loyalty.Proofs.Json.RoundTrip
import Loyalty.Proofs.Time.Rfc3339
import Loyalty.Time.Duration

/-!
# Reading back a record

A record is written as an object, all its fields under their names and in their order. Its reader
finds the fields by their names, whatever their order, and reads each of them by itself. So a
record is read back when each of its fields is: the names are known and distinct, and what stands
under a name is what was written there.

A field that is optional is either left out or null when it is empty. Both are told apart from any
value, because nothing that can stand in such a field is written as null.

Times are the one kind of value that need not be read as they were: a text shows them with a full
second of their nanoseconds carried over. So options and lists are followed for any reader that
gives some function of the value that was written, and for all other kinds this function is the
identity.
-/

namespace Loyalty

open Text

namespace Json

/-! ## Fields -/

/-- Names that are written are strings, so all of them can be read, and none of them is half of a
surrogate pair. -/
theorem readNames?_map (fs : Fields) :
    readNames? (fs.map fun f => (some f.1, f.2)) = some fs := by
  induction fs with
  | nil => rfl
  | cons f fs ih => rw [List.map_cons, readNames?, ih, Option.map_some]

/-- A record whose names are known and distinct has the fields that it was written with, in the same
order. A reader that knows more names than these may find that some are missing, which is for the
reader of the field to decide. -/
theorem fields?_record (ks : List String) {names : List String} {spare : Nat} {fs : Fields}
    (hks : fs.map Prod.fst = ks) (hknown : ∀ k ∈ ks, names.contains k = true) (hnodup : ks.Nodup) :
    fields? names spare (.record fs) = some fs := by
  subst hks
  -- No member is passed over, since every name that was written is one of those looked for.
  have hfilter : (fs.filter fun f => names.contains f.1) = fs :=
    List.filter_eq_self.2 fun f hf => hknown f.1 (List.mem_map_of_mem hf)
  have hdistinct : distinctNames fs = true := decide_eq_true hnodup
  have hread : fields? names spare (.record fs) =
      if distinctNames (fs.filter fun f => names.contains f.1) = true then
        some (fs.filter fun f => names.contains f.1) else none := by
    rw [record, fields?, readNames?_map]
    rfl
  rw [hread, hfilter, if_pos hdistinct]

/-- So has a record that admits no further names, since there are none. -/
theorem strictFields?_record (ks : List String) {names : List String} {fs : Fields}
    (hks : fs.map Prod.fst = ks) (hknown : ∀ k ∈ ks, names.contains k = true) (hnodup : ks.Nodup) :
    strictFields? names (.record fs) = some fs := by
  have hfields := @fields?_record ks names 0 fs hks hknown hnodup
  have hall : (fs.all fun f => names.contains f.1) = true := by
    subst hks
    exact List.all_eq_true.2 fun f hf => hknown f.1 (List.mem_map_of_mem hf)
  have hread : strictFields? names (.record fs) =
      if (fs.all fun f => names.contains f.1) = true then fields? names 0 (.record fs)
      else none := by
    rw [record, strictFields?, readNames?_map]
    rfl
  rw [hread, if_pos hall, hfields]

/-! ## Fields, one after the other -/

section Fields

variable {α : Type} {k name : String} (j : Json) (fs : Fields) (read : Json → Option α)

/-- A field is found under its name when the reader has come to it. -/
@[simp] theorem Fields.required_cons_self : Fields.required ((k, j) :: fs) k read = read j := by
  rw [required, List.lookup_cons_self, Option.bind_some]

/-- A field of another name does not matter: the reader passes it over and looks further. -/
@[simp] theorem Fields.required_cons_of_ne (h : name ≠ k) :
    Fields.required ((k, j) :: fs) name read = Fields.required fs name read := by
  rw [required, List.lookup_cons, beq_false_of_ne h, required]

/-- A field that is left out is empty. -/
@[simp] theorem Fields.optional_nil : Fields.optional [] name read = some none := rfl

/-- An optional field is found under its name, and may be null there. -/
@[simp] theorem Fields.optional_cons_self :
    Fields.optional ((k, j) :: fs) k read = toOption? read j := by
  rw [optional, List.lookup_cons_self]

/-- A field of another name does not matter to it. -/
@[simp] theorem Fields.optional_cons_of_ne (h : name ≠ k) :
    Fields.optional ((k, j) :: fs) name read = Fields.optional fs name read := by
  rw [optional, List.lookup_cons, beq_false_of_ne h, optional]

end Fields

/-! ## Values in fields -/

/-- Any string is read back, whatever its characters: how they are escaped was settled when the text
was read as a value. -/
@[simp] theorem toString?_text (s : String) : toString? (text s) = some s := rfl

/-- A number is read back where it stays below the limit, which is that of a word of 32 or of 64
bits. -/
theorem toNat?_nat {limit n : Nat} (h : n < limit) : toNat? limit (nat n) = some n :=
  if_pos h

/-- A number that was read stays below the limit: everything else is refused. -/
theorem lt_of_toNat? {limit : Nat} (j : Json) (n : Nat) (h : toNat? limit j = some n) :
    n < limit := by
  cases j with
  | number x =>
    cases x with
    | natural m =>
      rw [toNat?] at h
      split at h
      · next hlt =>
        cases h
        exact hlt
      · cases h
    -- A fraction or an exponent is refused, even if the number is whole.
    | other finite => cases h
  | null | bool | string | array | object => cases h

/-- What is true of all that a reader gives is true of a field that must be present. -/
theorem Fields.of_required {α : Type} {fs : Fields} {name : String} {read : Json → Option α}
    {P : α → Prop} (hread : ∀ j a, read j = some a → P a) {a : α}
    (h : fs.required name read = some a) : P a := by
  obtain ⟨j, -, hj⟩ := Option.bind_eq_some_iff.1 h
  exact hread j a hj

/-- And of a field that may be missing, where it is not. -/
theorem Fields.of_optional {α : Type} {fs : Fields} {name : String} {read : Json → Option α}
    {P : α → Prop} (hread : ∀ j a, read j = some a → P a) {a? : Option α}
    (h : fs.optional name read = some a?) : ∀ a ∈ a?, P a := by
  intro a ha
  rw [Option.mem_def] at ha
  subst ha
  rw [optional] at h
  split at h
  · cases h
  · next j hj =>
    unfold toOption? at h
    split at h
    · cases h
    · obtain ⟨_, hvalue, hsome⟩ := Option.map_eq_some_iff.1 h
      cases hsome
      exact hread j a hvalue

/-- And of every item of an array. -/
theorem of_toList? {α : Type} {read : Json → Option α} {P : α → Prop}
    (hread : ∀ j a, read j = some a → P a) {j : Json} {as : List α}
    (h : toList? read j = some as) : ∀ a ∈ as, P a := by
  cases j with
  | array items =>
    rw [toList?] at h
    induction items generalizing as with
    | nil =>
      cases h
      exact List.forall_mem_nil _
    | cons item items ih =>
      simp only [List.mapM_cons, Option.bind_eq_bind, Option.bind_eq_some_iff] at h
      obtain ⟨a, ha, as, has, htail⟩ := h
      cases htail
      exact List.forall_mem_cons.2 ⟨hread item a ha, ih has⟩
  | null | bool | string | number | object => cases h

/-- An optional value is read as what its value is read as. The value must not be written as null, or
it could not be told from one that is missing. -/
theorem toOption?_option {α : Type} {write : α → Json} {read : Json → Option α} {f : α → α}
    (hnull : ∀ a, write a ≠ .null) (h : ∀ a, read (write a) = some (f a)) (a : Option α) :
    toOption? read (option write a) = some (a.map f) := by
  cases a with
  | none => rfl
  | some a =>
    rw [option, toOption?, h, Option.map_some, Option.map_some]
    exact hnull a

/-- An array is read item by item, so it is read as the items that its items are read as. -/
theorem toList?_array {α : Type} {write : α → Json} {read : Json → Option α} {f : α → α}
    (h : ∀ a, read (write a) = some (f a)) (as : List α) :
    toList? read (.array (as.map write)) = some (as.map f) := by
  rw [toList?]
  induction as with
  | nil => rfl
  | cons a as ih =>
    rw [List.map_cons, List.mapM_cons, h, ih]
    rfl

/-- A text that may be missing is read back: a text is never written as null. -/
@[simp] theorem toOption?_text (s : Option String) :
    toOption? toString? (option text s) = some s :=
  (toOption?_option (fun a (h : text a = .null) => nomatch h) toString?_text s).trans
    (congrArg some (congrFun Option.map_id s))

end Json

/-! ## Plain values of the domain -/

/-- A kind of event is read back from its name. -/
@[simp] theorem EventType.ofJson?_toJson (t : EventType) : EventType.ofJson? t.toJson = some t := by
  cases t <;> rfl

/-- So is the state of a referral. -/
@[simp] theorem ReferralStatus.ofJson?_toJson (s : ReferralStatus) :
    ReferralStatus.ofJson? s.toJson = some s := by
  cases s <;> rfl

/-- Points are words of 32 bits, and every such number is read. -/
@[simp] theorem Points.ofJson?_toJson (p : Points) : Points.ofJson? p.toJson = some p := by
  have hlt : p.toNat < Text.word32 := UInt32.toNat_lt p
  have hread : p.toJson.toNat? Text.word32 = some p.toNat := Json.toNat?_nat hlt
  rw [Points.ofJson?, hread, Option.map_some, UInt32.ofNat_toNat]

namespace Time

/-- A timestamp is read as it is shown. This is the only value of a record that may come back as
another. -/
@[simp] theorem Rfc3339.ofJson?_toJson (t : Timestamp) :
    Rfc3339.ofJson? (Rfc3339.toJson t) = some t.carried := by
  rw [Rfc3339.ofJson?, Rfc3339.toJson, Json.toString?_text, Option.bind_some, Rfc3339.read?_write]

/-- So is one that may be missing. -/
@[simp] theorem Rfc3339.toOption?_toJson (t : Option Timestamp) :
    Json.toOption? Rfc3339.ofJson? (.option Rfc3339.toJson t) = some (t.map Timestamp.carried) :=
  Json.toOption?_option (fun a (h : Rfc3339.toJson a = .null) => nomatch h)
    Rfc3339.ofJson?_toJson t

/-- Every timestamp that is read is regular, whoever wrote the text. -/
theorem Rfc3339.regular_of_ofJson? (j : Json) (t : Timestamp) (h : Rfc3339.ofJson? j = some t) :
    t.Regular := by
  obtain ⟨s, -, hs⟩ := Option.bind_eq_some_iff.1 h
  exact Rfc3339.regular_of_read? hs

/-- A duration is read back: its seconds and its nanoseconds fit in their words, and no whole second
is left among the nanoseconds that would have to be carried over. -/
@[simp] theorem Duration.ofJson?_toJson (d : Duration) : Duration.ofJson? d.toJson = some d := by
  have hseconds : d.seconds < word64 := Nat.div_lt_of_lt_mul (Nat.mul_comm _ _ ▸ d.nanos_lt)
  have hnanos : d.subsecond < word32 := by
    have : d.nanos % nanosPerSecond < nanosPerSecond := Nat.mod_lt d.nanos (by decide)
    simp only [Duration.subsecond, nanosPerSecond, word32] at this ⊢
    omega
  rw [Duration.ofJson?, Duration.toJson,
    Json.strictFields?_record ["secs", "nanos"] rfl (by decide) (by decide),
    Option.bind_eq_bind, Option.bind_some]
  refine Option.bind_eq_some_iff.2 ⟨_, Json.toNat?_nat hseconds, ?_⟩
  refine Option.bind_eq_some_iff.2 ⟨_, Json.toNat?_nat hnanos, ?_⟩
  exact Duration.ofParts?_seconds_subsecond d

end Time

end Loyalty
