import RuleTransducer.Api.Http
import RuleTransducer.Proofs.Schema

/-! Request bodies. The check of a body is put together from the checks of its fields, and so is
what is known of it: it reads a request exactly from the documents that hold the request in their
fields, and reports no other parts than the faulty ones. The report shows them as far as JSON can;
it is not made if one of them nests too deep, and not sent if one of them has a surrogate. -/

namespace RuleTransducer

/-! ### Documents in reports -/

/-- A document as a report shows it. -/
def Json.reported (document : Json) : Json := (Datum.ofJson document).reported

/-- Whether a report can show a document: it does not nest too deep, and no text or name in it has a
surrogate. -/
def Json.IsReportable (document : Json) : Prop :=
  document.reported.levels ≤ Api.valueLevels ∧ document.reported.isScalar = true

instance (document : Json) : Decidable document.IsReportable :=
  inferInstanceAs (Decidable (_ ∧ _))

theorem Json.reported_array (elements : List Json) :
    (array elements).reported = .array (elements.map reported) := by
  rw [reported, Datum.ofJson, Datum.reported, Datum.reportedElements_eq_map,
    Datum.ofElements_eq_map, List.map_map]
  rfl

theorem Datum.inherited_levels_le (n : ℕ) : Inherited fun value => value.reported.levels ≤ n := by
  intro elements harray element helement
  have hlt : element.reported.levels < (Json.array elements).reported.levels := by
    rw [Json.reported_array]
    exact Json.levels_lt_of_mem (List.mem_map_of_mem helement)
  exact Nat.le_of_lt (Nat.lt_of_lt_of_le hlt harray)

theorem Datum.inherited_isScalar : Inherited fun value => value.reported.isScalar = true := by
  intro elements harray element helement
  have hall : (Json.array elements).reported.isScalar = true := harray
  rw [Json.reported_array, Json.isScalar_array, List.all_map, List.all_eq_true] at hall
  exact hall element helement

namespace Api

/-- The report of an error can be sent exactly if the value that it shows can. -/
theorem SchemaError.isScalar_json (e : SchemaError) :
    e.json.isScalar = e.value.reported.isScalar := by
  have hplace : (e.place.map Place.json).all Json.isScalar = true := by
    rw [List.all_map, List.all_eq_true]
    intro level _
    cases level with
    | field name => exact Text.isScalar_ofString name
    | index i => rfl
  have hcontext : (Json.object e.fault.context).isScalar = true := by
    rw [Json.isScalar_object]
    cases e.fault with
    | listTooLong limit count? | pairTooLong count? => cases count? <;> rfl
    | _ => simp [SchemaFault.context, Json.nat, Json.isScalar]
  unfold SchemaError.json
  dsimp only
  split <;> simp [hplace, hcontext]

variable {α β : Type}

/-! ### Fields -/

/-- What a check of fields does on those of documents. -/
structure ChecksFields (check : List Place → List (Text × Datum) → Checked α)
    (Holds : List (Text × Json) → α → Prop) (faulty : List (Text × Json) → List Json) :
    Prop where
  eq_ok_iff (place : List Place) (fields : List (Text × Json)) (a : α) :
    check place (Datum.ofFields fields) = .ok a ↔ Holds fields a
  errors_iff (place : List Place) (fields : List (Text × Json)) {P : Datum → Prop}
    (hP : Datum.Inherited P) :
    (∀ e ∈ (check place (Datum.ofFields fields)).errors, P e.value) ↔
      ∀ part ∈ faulty fields, P (.ofJson part)

theorem find?_ofFields (fields : List (Text × Json)) (name : Text) :
    (Datum.ofFields fields).find? (·.1 = name) =
      (fields.find? (·.1 = name)).map fun field => (field.1, .ofJson field.2) := by
  induction fields with
  | nil => rfl
  | cons field fields ih =>
    by_cases h : field.1 = name <;> simp [Datum.ofFields, h, ih]

/-- The faulty parts of a field, or all of the fields where it is missing. -/
def faultyField (faulty : Json → List Json) (name : String) (fields : List (Text × Json)) :
    List Json :=
  match Json.lookup name fields with
  | some content => faulty content
  | none => [.object fields]

/-- The faulty parts of a field that may be absent or null. -/
def faultyOptionalField (faulty : Json → List Json) (name : String)
    (fields : List (Text × Json)) : List Json :=
  match Json.lookup name fields with
  | none | some .null => []
  | some content => faulty content

/-- Whether a field has a content as it is written and within its bound; without a content it is
absent or null. -/
def HoldsOptional (write : α → Json) (Keeps : α → Prop) (name : String)
    (fields : List (Text × Json)) : Option α → Prop
  | some a => Json.lookup name fields = some (write a) ∧ Keeps a
  | none => Json.lookup name fields = none ∨ Json.lookup name fields = some .null

section Fields
variable {check : List Place → Datum → Checked α} {write : α → Json} {Keeps : α → Prop}
  {faulty : Json → List Json}

theorem checkField_ofFields (check : List Place → Datum → Checked α) (place : List Place)
    (fields : List (Text × Json)) (name : String) :
    checkField check place (Datum.ofFields fields) name =
      match Json.lookup name fields with
      | some content => check (place ++ [.field name]) (.ofJson content)
      | none => .refuse (place ++ [.field name]) .missing (.ofJson (.object fields)) := by
  unfold checkField Json.lookup
  rw [find?_ofFields]
  cases fields.find? (·.1 = (name : Text)) <;> rfl

theorem checkOptionalField_ofFields (check : List Place → Datum → Checked α) (place : List Place)
    (fields : List (Text × Json)) (name : String) :
    checkOptionalField check place (Datum.ofFields fields) name =
      match Json.lookup name fields with
      | none | some .null => .ok none
      | some content => (check (place ++ [.field name]) (.ofJson content)).map some := by
  unfold checkOptionalField Json.lookup
  rw [find?_ofFields]
  cases fields.find? (·.1 = (name : Text)) with
  | none => rfl
  | some field =>
    obtain ⟨name, content⟩ := field
    cases content <;> rfl

theorem Checks.field (h : Checks check write Keeps faulty) (name : String) :
    ChecksFields (fun place fields => checkField check place fields name)
      (fun fields a => Json.lookup name fields = some (write a) ∧ Keeps a)
      (faultyField faulty name) where
  eq_ok_iff place fields a := by
    rw [checkField_ofFields]
    cases Json.lookup name fields with
    | none => simp [Checked.refuse]
    | some content => simp [h.eq_ok_iff]
  errors_iff place fields P hP := by
    rw [checkField_ofFields, faultyField]
    cases Json.lookup name fields with
    | none =>
      dsimp only
      rw [(Checked.refusesAll_refuse _ _ _).errors_iff hP, List.forall_mem_singleton]
    | some content => exact h.errors_iff _ content hP

theorem Checks.optionalField (h : Checks check write Keeps faulty) (hnull : ∀ a, write a ≠ .null)
    (name : String) :
    ChecksFields (fun place fields => checkOptionalField check place fields name)
      (HoldsOptional write Keeps name) (faultyOptionalField faulty name) where
  eq_ok_iff place fields a? := by
    rw [checkOptionalField_ofFields]
    split
    case h_1 hlookup => cases a? <;> simp [HoldsOptional, hlookup]
    case h_2 hlookup => cases a? <;> simp [HoldsOptional, hlookup, (hnull _).symm]
    case h_3 content hcontent hlookup =>
      cases a? with
      | none =>
        refine iff_of_false (fun hok => ?_) fun hnone => ?_
        · cases hcheck : check (place ++ [.field name]) (.ofJson content) <;>
            simp [hcheck, Except.map] at hok
        · simp only [HoldsOptional, hlookup, Option.some.injEq, reduceCtorEq, false_or] at hnone
          exact hcontent hnone
      | some a =>
        rw [HoldsOptional, hlookup, Option.some.injEq, ← h.eq_ok_iff (place ++ [.field name])]
        cases check (place ++ [.field name]) (.ofJson content) <;> simp [Except.map]
  errors_iff place fields P hP := by
    rw [checkOptionalField_ofFields, faultyOptionalField]
    split
    case h_1 | h_2 => simp
    case h_3 content _ _ =>
      rw [Checked.errors_map]
      exact h.errors_iff _ content hP

end Fields

section Several
variable {check : List Place → List (Text × Datum) → Checked α}
  {Holds : List (Text × Json) → α → Prop} {faulty : List (Text × Json) → List Json}

theorem ChecksFields.both (h : ChecksFields check Holds faulty)
    {check' : List Place → List (Text × Datum) → Checked β}
    {Holds' : List (Text × Json) → β → Prop} {faulty' : List (Text × Json) → List Json}
    (h' : ChecksFields check' Holds' faulty') :
    ChecksFields (fun place fields => (check place fields).both (check' place fields))
      (fun fields ab => Holds fields ab.1 ∧ Holds' fields ab.2)
      (fun fields => faulty fields ++ faulty' fields) where
  eq_ok_iff place fields ab := by
    rw [Checked.both_eq_ok_iff, h.eq_ok_iff, h'.eq_ok_iff]
  errors_iff place fields P hP := by
    rw [Checked.errors_both, List.forall_mem_append, List.forall_mem_append,
      h.errors_iff place fields hP, h'.errors_iff place fields hP]

/-- A check whose content is repacked; `g` unpacks it again. -/
theorem ChecksFields.map (h : ChecksFields check Holds faulty) {f : α → β} {g : β → α}
    (hf : Function.LeftInverse g f) (hg : Function.RightInverse g f) :
    ChecksFields (fun place fields => (check place fields).map f)
      (fun fields b => Holds fields (g b)) faulty where
  eq_ok_iff place fields b := by
    rw [← h.eq_ok_iff place]
    cases check place (Datum.ofFields fields) with
    | error errors => exact iff_of_false nofun nofun
    | ok a =>
      simp only [Except.map, Except.ok.injEq]
      exact ⟨fun hab => by rw [← hab, hf], fun hab => by rw [hab, hg]⟩
  errors_iff place fields P hP := by
    rw [Checked.errors_map]
    exact h.errors_iff place fields hP

end Several

/-! ### Bodies -/

/-- The faulty parts of a body: those of its fields, or all of it if it has none. -/
def faultyBody (faulty : List (Text × Json) → List Json) : Json → List Json
  | .object fields => faulty fields
  | document => [document]

/-- What a check of bodies does on documents. -/
structure ChecksBody (check : List Place → List (Text × Datum) → Checked α)
    (HasBody : Json → α → Prop) (faulty : Json → List Json) : Prop where
  eq_ok_iff (place : List Place) (fault : SchemaFault) (document : Json) (a : α) :
    checkModel (check place) place fault (.ofJson document) = .ok a ↔ HasBody document a
  errors_iff (place : List Place) (fault : SchemaFault) (document : Json) {P : Datum → Prop}
    (hP : Datum.Inherited P) :
    (∀ e ∈ (checkModel (check place) place fault (.ofJson document)).errors, P e.value) ↔
      ∀ part ∈ faulty document, P (.ofJson part)

/-- A document is the body of one request at most. -/
theorem ChecksBody.unique {check : List Place → List (Text × Datum) → Checked α}
    {HasBody : Json → α → Prop} {faulty : Json → List Json} (h : ChecksBody check HasBody faulty)
    {document : Json} {a b : α} (ha : HasBody document a) (hb : HasBody document b) : a = b := by
  rw [← h.eq_ok_iff [] .notObject] at ha hb
  exact Except.ok.inj (ha.symm.trans hb)

section Body
variable {check : List Place → List (Text × Datum) → Checked α}
  {Holds : List (Text × Json) → α → Prop} {faulty : List (Text × Json) → List Json}

/-- A document without fields is refused where a body is expected. -/
theorem refusesAll_checkModel {document : Json} (hobject : ∀ fields, document ≠ .object fields)
    (check : List (Text × Datum) → Checked α) (place : List Place) (fault : SchemaFault) :
    (checkModel check place fault (.ofJson document)).RefusesAll document := by
  cases document with
  | object fields => exact absurd rfl (hobject fields)
  | _ => exact Checked.refusesAll_refuse place fault _

theorem ChecksFields.body (h : ChecksFields check Holds faulty) :
    ChecksBody check (fun document a => ∃ fields, document = .object fields ∧ Holds fields a)
      (faultyBody faulty) where
  eq_ok_iff place fault document a := by
    by_cases hobject : ∃ fields, document = .object fields
    · obtain ⟨fields, rfl⟩ := hobject
      simp only [Json.object.injEq, exists_eq_left']
      exact h.eq_ok_iff place fields a
    · have hno (fields : List (Text × Json)) : document ≠ .object fields := fun heq =>
        hobject ⟨fields, heq⟩
      exact iff_of_false ((refusesAll_checkModel hno _ place fault).ne_ok a)
        fun ⟨fields, heq, _⟩ => hno fields heq
  errors_iff place fault document P hP := by
    by_cases hobject : ∃ fields, document = .object fields
    · obtain ⟨fields, rfl⟩ := hobject
      exact h.errors_iff place fields hP
    · have hno (fields : List (Text × Json)) : document ≠ .object fields := fun heq =>
        hobject ⟨fields, heq⟩
      have hfaulty : faultyBody faulty document = [document] := by
        cases document with
        | object fields => exact absurd rfl (hno fields)
        | _ => rfl
      rw [(refusesAll_checkModel hno _ place fault).errors_iff hP, hfaulty,
        List.forall_mem_singleton]

end Body

/-! ### Requests -/

/-- How rules are written in a document. -/
def rulesJson (rules : List (List (Item Text))) : Json :=
  .array (rules.map fun items => .array (items.map itemJson))

namespace CreateRequest

/-- Whether a document is a body for a request: an object with the rules, and with the name within
its limit and without surrogates, which is absent or null where there is none. -/
def HasBody (document : Json) (request : CreateRequest) : Prop :=
  ∃ fields, document = .object fields ∧
    Json.lookup "rules" fields = some (rulesJson request.rules) ∧
    HoldsOptional textJson (fun name => name.length ≤ maxNameLength) "name" fields request.name

/-- The parts of a document that keep it from being a body: all of it if it is no object or has no
rules, the rules or a rule that are no array, an item that is neither a text nor a pair of texts,
and a name that is too long, has a surrogate or is no text. -/
def faultyParts : Json → List Json :=
  faultyBody fun fields =>
    faultyField (faultyArray (·.flatMap (faultyArray (·.flatMap (faultyUnless isItem))))) "rules"
        fields ++
      faultyOptionalField (faultyUnless (isShortText maxNameLength)) "name" fields

theorem checksBody : ChecksBody check HasBody faultyParts := by
  have hboth := (checks_item.list.list.field "rules").both
    ((checks_shortText maxNameLength).optionalField (fun _ => nofun) "name")
  have hbody := (hboth.map (f := fun parts => CreateRequest.mk parts.1 parts.2)
    (g := fun request => (request.rules, request.name)) (fun _ => rfl) fun _ => rfl).body
  refine ⟨fun place fault document request => ?_, hbody.errors_iff⟩
  have hiff := hbody.eq_ok_iff place fault document request
  simp only [implies_true, and_true] at hiff
  exact hiff

end CreateRequest

namespace ParseRequest

/-- Whether a document is a body for a request: an object with the input, which is within its limit
and without surrogates. -/
def HasBody (document : Json) (request : ParseRequest) : Prop :=
  ∃ fields, document = .object fields ∧
    Json.lookup "input" fields = some (textJson request.input) ∧
    request.input.length ≤ maxInputLength

/-- The parts of a document that keep it from being a body: all of it if it is no object or has no
input, and an input that is too long, has a surrogate or is no text. -/
def faultyParts : Json → List Json :=
  faultyBody (faultyField (faultyUnless (isShortText maxInputLength)) "input")

theorem checksBody : ChecksBody check HasBody faultyParts :=
  (((checks_shortText maxInputLength).field "input").map (f := ParseRequest.mk)
    (g := ParseRequest.input) (fun _ => rfl) fun _ => rfl).body

end ParseRequest

namespace BatchRequest

/-- Whether a document is a body for a request: an object with the inputs, which are without
surrogates, no more of them and none of them longer than the limits. -/
def HasBody (document : Json) (request : BatchRequest) : Prop :=
  ∃ fields, document = .object fields ∧
    Json.lookup "inputs" fields = some (.strings request.inputs) ∧
    request.inputs.length ≤ maxBatchSize ∧ ∀ input ∈ request.inputs, input.length ≤ maxInputLength

/-- The parts of a document that keep it from being a body: all of it if it is no object or has no
inputs, the inputs if they are too many or no array, and an input that is too long, has a surrogate
or is no text. -/
def faultyParts : Json → List Json := faultyBody (faultyField (faultyArray faultyInputs) "inputs")

theorem checksBody : ChecksBody check HasBody faultyParts :=
  ((checks_inputs.field "inputs").map (f := BatchRequest.mk) (g := BatchRequest.inputs)
    (fun _ => rfl) fun _ => rfl).body

end BatchRequest

/-! ### Answers to bodies -/

theorem isScalar_invalidBody (errors : List SchemaError) :
    (invalidBody errors).body.isScalar = errors.all fun e => e.value.reported.isScalar := by
  have hreports : (errors.map SchemaError.json).all Json.isScalar =
      errors.all fun e => e.value.reported.isScalar := by
    rw [List.all_map]
    exact congrArg errors.all (funext SchemaError.isScalar_json)
  simp [invalidBody, errorJson, hreports]

/-- A document that is a body for a request is answered by what is done on the request. Any other
leaves the registry as it is, and its errors are reported unless a faulty part is too deep; the
report can be sent if no faulty part has a surrogate. -/
theorem ChecksBody.withBody_cases {check : List Place → List (Text × Datum) → Checked α}
    {HasBody : Json → α → Prop} {faulty : Json → List Json} (h : ChecksBody check HasBody faulty)
    (r : Registry) (document : Json) (act : α → Registry × Except Breakdown Response) :
    (∃ request, HasBody document request ∧ withBody r (.ok document) check act = act request) ∨
      (∀ request, ¬HasBody document request) ∧
        ((∃ part ∈ faulty document, valueLevels < part.reported.levels) ∧
            withBody r (.ok document) check act = (r, .error .deepValue) ∨
          (∀ part ∈ faulty document, part.reported.levels ≤ valueLevels) ∧
            ∃ errors, withBody r (.ok document) check act = (r, .ok (invalidBody errors)) ∧
              ((invalidBody errors).body.isScalar = true ↔
                ∀ part ∈ faulty document, part.reported.isScalar = true)) := by
  have hok := h.eq_ok_iff [.field "body"] .notObject document
  have hlevels := h.errors_iff [.field "body"] .notObject document
    (Datum.inherited_levels_le valueLevels)
  have hscalar := h.errors_iff [.field "body"] .notObject document Datum.inherited_isScalar
  unfold withBody
  dsimp only
  cases hcheck :
      checkModel (check [.field "body"]) [.field "body"] .notObject (.ofJson document) with
  | ok request => exact .inl ⟨request, (hok request).mp hcheck, rfl⟩
  | error errors =>
    refine .inr ⟨fun request hbody => ?_, ?_⟩
    · rw [(hok request).mpr hbody] at hcheck
      cases hcheck
    · rw [hcheck, Checked.errors_error] at hlevels hscalar
      by_cases hshallow : ∀ part ∈ faulty document, part.reported.levels ≤ valueLevels
      · have hall : (errors.all fun e => decide (e.value.reported.levels ≤ valueLevels)) =
            true := by
          simpa using hlevels.mpr hshallow
        refine .inr ⟨hshallow, errors, by simp [reportErrors, hall], ?_⟩
        rw [isScalar_invalidBody, List.all_eq_true]
        exact hscalar
      · refine .inl ⟨by simpa using hshallow, ?_⟩
        have hall : (errors.all fun e => decide (e.value.reported.levels ≤ valueLevels)) =
            false := by
          rw [← Bool.not_eq_true]
          simpa using mt hlevels.mp hshallow
        simp [reportErrors, hall]

end Api

end RuleTransducer
