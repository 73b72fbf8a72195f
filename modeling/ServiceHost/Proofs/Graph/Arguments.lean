import ServiceHost.Graph.Args

/-!
# Arguments by name

The values of a call stand in the order of its declared inputs, and are read by field name. Several
inputs may have one name, and the first of them is the one that is read (`Inputs.FirstAt`): `get`
and `optional` give the value that stands at its place, or say that there is none, and `get` names
its key then (`Args.reads`). This can be had by one search for an entry, or by two, one for the
place of the value and another one for the key (`Args.optional_eq`, `Args.get_eq`), since both stop
at the first input of the name.
-/

namespace ServiceHost

variable {ι : Type}

/-- The input stands at the place, and is the first one of its field name. -/
structure Inputs.FirstAt (inputs : Inputs) (n : Nat) (p : Param) : Prop where
  declared : inputs[n]? = some p
  first : ∀ m < n, ∀ q, inputs[m]? = some q → q.field ≠ p.field

namespace Inputs

variable {inputs : Inputs} {n : Nat} {p : Param} {field : String}

theorem FirstAt.place (h : inputs.FirstAt n p) :
    inputs.findIdx? (fun q => q.field == p.field) = some n := by
  obtain ⟨hn, hp⟩ := List.getElem?_eq_some_iff.1 h.declared
  refine List.findIdx?_eq_some_iff_getElem.2 ⟨hn, by rw [hp, beq_self_eq_true], fun m hm hq => ?_⟩
  exact h.first m hm _ (List.getElem?_eq_getElem _) (beq_iff_eq.1 hq)

theorem find_eq_none_iff : inputs.find field = none ↔ ∀ p ∈ inputs, p.field ≠ field := by
  simp only [find, List.find?_eq_none, beq_iff_eq, ne_eq]

/-- A name that some input has is the name of a first one. -/
theorem exists_firstAt (h : ∃ p ∈ inputs, p.field = field) :
    ∃ n p, inputs.FirstAt n p ∧ p.field = field := by
  cases hfind : inputs.find field with
  | none =>
    obtain ⟨p, hp, hfield⟩ := h
    exact absurd hfield (find_eq_none_iff.1 hfind p hp)
  | some p =>
    obtain ⟨hfield, n, hn, hp, hfirst⟩ := List.find?_eq_some_iff_getElem.1 hfind
    have hfield : p.field = field := beq_iff_eq.1 hfield
    refine ⟨n, p, ⟨List.getElem?_eq_some_iff.2 ⟨hn, hp⟩, fun m hm q hq => ?_⟩, hfield⟩
    obtain ⟨hlength, rfl⟩ := List.getElem?_eq_some_iff.1 hq
    rw [hfield]
    exact beq_eq_false_iff_ne.1 (Bool.not_eq_true' _ ▸ hfirst m hm)

end Inputs

namespace Args

/-- The declared inputs of the call. -/
def params (args : Args ι) : Inputs :=
  args.entries.map Prod.fst

/-- The values of the call, in the order of the inputs. -/
def values (args : Args ι) : List (Option (Instance ι)) :=
  args.entries.map Prod.snd

/-- What the arguments give under the name of an input of that value. -/
structure Reads (args : Args ι) (p : Param) (value : Option (Instance ι)) : Prop where
  absent : value = none → ∀ type,
    args.optional p.field type = .ok none ∧
      args.get p.field type = .error (.missingDependency p.key (some args.owner))
  present : ∀ item, value = some item →
    args.optional p.field p.key.type = .ok (some item.value) ∧
      args.get p.field p.key.type = .ok item.value
  mistyped : ∀ item, value = some item → ∀ type, type ≠ p.key.type →
    args.optional p.field type = .error (.downcastFailed type.name) ∧
      args.get p.field type = .error (.downcastFailed type.name)

variable {args : Args ι} {n : Nat} {p : Param} {value : Option (Instance ι)}

theorem params_find (args : Args ι) (field : String) :
    args.params.find field = (args.entry? field).map Prod.fst := by
  rw [params, Inputs.find, List.find?_map]
  rfl

theorem entry?_eq_none_iff {field : String} :
    args.entry? field = none ↔ ∀ p ∈ args.params, p.field ≠ field := by
  rw [← Inputs.find_eq_none_iff, params_find, Option.map_eq_none_iff]

/-- What is found under a name is the first input of the name, with the value at its place. -/
theorem entry?_eq (h : args.params.FirstAt n p) (hvalue : args.values[n]? = some value) :
    args.entry? p.field = some (p, value) := by
  obtain ⟨e, hentry, hparam⟩ : ∃ e, args.entries[n]? = some e ∧ e.1 = p := by
    simpa [params] using h.declared
  have hsecond : e.2 = value := by simpa [values, hentry] using hvalue
  obtain rfl : e = (p, value) := Prod.ext hparam hsecond
  obtain ⟨hn, he⟩ := List.getElem?_eq_some_iff.1 hentry
  refine List.find?_eq_some_iff_getElem.2 ⟨beq_self_eq_true _, n, hn, he, fun m hm => ?_⟩
  rw [Bool.not_eq_true', beq_eq_false_iff_ne]
  refine h.first m hm _ ?_
  rw [params, List.getElem?_map, List.getElem?_eq_getElem (Nat.lt_trans hm hn), Option.map_some]

/-- A name that no input has is unknown, and no other name is. -/
theorem unknownField_iff (args : Args ι) (field : String) (type : ComponentType) :
    (args.optional field type = .error (.unknownField args.owner field) ↔
        ∀ p ∈ args.params, p.field ≠ field) ∧
      (args.get field type = .error (.unknownField args.owner field) ↔
        ∀ p ∈ args.params, p.field ≠ field) := by
  rw [← entry?_eq_none_iff]
  unfold optional get
  cases args.entry? field with
  | none => simp
  | some e =>
    obtain ⟨p, value⟩ := e
    cases value with
    | none => simp
    | some item =>
      unfold Instance.as
      by_cases htype : item.type = type
      · simp [htype]
      · simp [htype]

/-- What is read under the name of the first input is the value at its place. -/
theorem reads (h : args.params.FirstAt n p) (hvalue : args.values[n]? = some value)
    (htype : ∀ item, value = some item → item.type = p.key.type) : args.Reads p value := by
  have hentry := entry?_eq h hvalue
  constructor
  case absent =>
    rintro rfl type
    simp only [optional, get, hentry, and_self]
  case present =>
    rintro item rfl
    simp only [optional, get, hentry, Instance.as, htype item rfl, if_true, and_self]
  case mistyped =>
    rintro item rfl type hother
    simp only [optional, get, hentry, Instance.as, htype item rfl, if_neg hother.symm, and_self]

/-! ## Two searches -/

/-- There is a value for each input. -/
theorem value_at (h : args.params[n]? = some p) : ∃ value, args.values[n]? = some value := by
  obtain ⟨e, hentry, -⟩ : ∃ e, args.entries[n]? = some e ∧ e.1 = p := by simpa [params] using h
  exact ⟨e.2, by rw [values, List.getElem?_map, hentry, Option.map_some]⟩

/-- An optional value is read at the place of the first input of the name. -/
theorem optional_eq (args : Args ι) (field : String) (type : ComponentType) :
    args.optional field type =
      match args.params.findIdx? fun p => p.field == field with
      | none => .error (.unknownField args.owner field)
      | some n =>
        match args.values[n]? with
        | some (some item) => (item.as type).map some
        | _ => .ok none := by
  by_cases hname : ∃ p ∈ args.params, p.field = field
  · obtain ⟨n, p, hfirst, rfl⟩ := Inputs.exists_firstAt hname
    obtain ⟨value, hvalue⟩ := value_at hfirst.declared
    rw [hfirst.place, optional, entry?_eq hfirst hvalue]
    simp only [hvalue]
    cases value with
    | none => rfl
    | some item =>
      dsimp only
      cases item.as type <;> rfl
  · have hunknown : ∀ p ∈ args.params, p.field ≠ field := fun p hp hfield => hname ⟨p, hp, hfield⟩
    have hplace : args.params.findIdx? (fun p => p.field == field) = none :=
      List.findIdx?_eq_none_iff.2 fun p hp => beq_eq_false_iff_ne.2 (hunknown p hp)
    rw [hplace, optional, entry?_eq_none_iff.2 hunknown]

/-- A required value is an optional one that is there. If it is not, the key that is missed is
looked for by the name once more. -/
theorem get_eq (args : Args ι) (field : String) (type : ComponentType) :
    args.get field type =
      match args.optional field type with
      | .error e => .error e
      | .ok (some value) => .ok value
      | .ok none =>
        .error (.missingDependency (((args.params.find field).map Param.key).getD (.of type))
          (some args.owner)) := by
  rw [params_find]
  unfold get optional
  cases args.entry? field with
  | none => rfl
  | some e =>
    obtain ⟨p, value⟩ := e
    cases value with
    | none => rfl
    | some item =>
      dsimp only
      cases item.as type <;> rfl

end Args

end ServiceHost
