import Mathlib.Data.List.Basic
import RuleTransducer.Api.Request

/-! The schema of the parts of a request body. A check of a part is described by how its content is
written, by a bound on the content, and by the parts of a document that it reports as faulty: it
succeeds exactly on what is written so within the bound, and otherwise its errors are about the
faulty parts or about elements of them. The check of a list inherits such a description from the
check of its elements. -/

namespace RuleTransducer

/-- Whether a document is another one or one of its elements. -/
def Json.IsWithin (part document : Json) : Prop :=
  part = document ∨ ∃ elements, document = .array elements ∧ part ∈ elements

/-- Whether a property of values passes from an array to its elements. -/
def Datum.Inherited (P : Datum → Prop) : Prop :=
  ∀ elements, P (.ofJson (.array elements)) → ∀ element ∈ elements, P (.ofJson element)

theorem Datum.Inherited.of_isWithin {P : Datum → Prop} (h : Inherited P) {part document : Json}
    (hwithin : part.IsWithin document) (hdocument : P (.ofJson document)) : P (.ofJson part) := by
  obtain rfl | ⟨elements, rfl, hpart⟩ := hwithin
  · exact hdocument
  · exact h elements hdocument part hpart

namespace Api

variable {α β : Type}

/-! ### Errors of several checks -/

namespace Checked

/-- The errors of a check, none if it succeeds. -/
def errors : Checked α → List SchemaError
  | .ok _ => []
  | .error es => es

@[simp] theorem errors_ok (a : α) : errors (.ok a) = [] := rfl

@[simp] theorem errors_error (es : List SchemaError) : errors (.error es : Checked α) = es := rfl

@[simp] theorem errors_map (f : α → β) (checked : Checked α) :
    errors (checked.map f) = checked.errors := by cases checked <;> rfl

theorem all_map_ok (as : List α) : all (as.map .ok) = .ok as := by
  induction as with
  | nil => rfl
  | cons a as ih => rw [List.map_cons, all, ih]

theorem all_eq_ok_iff {checks : List (Checked α)} {as : List α} :
    all checks = .ok as ↔ checks = as.map .ok := by
  refine ⟨fun h => ?_, fun h => by rw [h, all_map_ok]⟩
  induction checks generalizing as with
  | nil =>
    cases h
    rfl
  | cons check checks ih =>
    cases check with
    | error es => cases hall : all checks <;> simp [all, hall] at h
    | ok a =>
      cases hall : all checks with
      | error es => simp [all, hall] at h
      | ok rest =>
        simp only [all, hall, Except.ok.injEq] at h
        rw [ih hall, ← h, List.map_cons]

theorem errors_all (checks : List (Checked α)) : (all checks).errors = checks.flatMap errors := by
  induction checks with
  | nil => rfl
  | cons check checks ih =>
    rw [List.flatMap_cons, ← ih]
    cases check <;> cases hall : all checks <;> simp [all, hall]

theorem both_eq_ok_iff {first : Checked α} {second : Checked β} {a : α} {b : β} :
    first.both second = .ok (a, b) ↔ first = .ok a ∧ second = .ok b := by
  cases first <;> cases second <;> simp [both]

theorem errors_both (first : Checked α) (second : Checked β) :
    (first.both second).errors = first.errors ++ second.errors := by
  cases first <;> cases second <;> simp [both]

end Checked

/-! ### Checks of parts -/

/-- What a check of a part does on documents: it succeeds on contents as they are written if they
keep the bound, and its errors are about the faulty parts and perhaps elements of these. -/
structure Checks (check : List Place → Datum → Checked α) (write : α → Json) (Keeps : α → Prop)
    (faulty : Json → List Json) : Prop where
  eq_ok_iff (place : List Place) (document : Json) (a : α) :
    check place (.ofJson document) = .ok a ↔ document = write a ∧ Keeps a
  errors_iff (place : List Place) (document : Json) {P : Datum → Prop} (hP : Datum.Inherited P) :
    (∀ e ∈ (check place (.ofJson document)).errors, P e.value) ↔
      ∀ part ∈ faulty document, P (.ofJson part)

/-- Whether an error is about a document or one of its elements. -/
def SchemaError.IsAbout (e : SchemaError) (document : Json) : Prop :=
  ∃ part, e.value = .ofJson part ∧ part.IsWithin document

theorem SchemaError.IsAbout.of_value {e : SchemaError} {document : Json}
    (h : e.value = .ofJson document) : e.IsAbout document := ⟨document, h, .inl rfl⟩

/-- Whether a check refuses a document as a whole: an error is about all of it, and the others are
about it or its elements. -/
def Checked.RefusesAll (checked : Checked α) (document : Json) : Prop :=
  ∃ errors, checked = .error errors ∧ (∃ e ∈ errors, e.value = .ofJson document) ∧
    ∀ e ∈ errors, e.IsAbout document

theorem Checked.refusesAll_refuse (place : List Place) (fault : SchemaFault) (document : Json) :
    (refuse place fault (.ofJson document) : Checked α).RefusesAll document := by
  refine ⟨_, rfl, ⟨_, List.mem_singleton_self _, rfl⟩, fun e he => ?_⟩
  rw [List.mem_singleton.mp he]
  exact .of_value rfl

theorem Checked.RefusesAll.ne_ok {checked : Checked α} {document : Json}
    (h : checked.RefusesAll document) (a : α) : checked ≠ .ok a := by
  obtain ⟨errors, rfl, -⟩ := h
  exact nofun

theorem Checked.RefusesAll.errors_iff {checked : Checked α} {document : Json}
    (h : checked.RefusesAll document) {P : Datum → Prop} (hP : Datum.Inherited P) :
    (∀ e ∈ checked.errors, P e.value) ↔ P (.ofJson document) := by
  obtain ⟨errors, rfl, ⟨e, he, hvalue⟩, hall⟩ := h
  constructor
  · intro hevery
    have hdocument := hevery e he
    rwa [hvalue] at hdocument
  · intro hdocument e he
    obtain ⟨part, hpart, hwithin⟩ := hall e he
    rw [hpart]
    exact hP.of_isWithin hwithin hdocument

/-- A document that should be of a given form is faulty as a whole. -/
def faultyUnless (fits : Json → Bool) (document : Json) : List Json :=
  if fits document then [] else [document]

/-- A check of the whole form of a document. -/
theorem Checks.of_form {check : List Place → Datum → Checked α} {write : α → Json}
    {Keeps : α → Prop} {fits : Json → Bool} (hwrite : Function.Injective write)
    (hfits : ∀ document, fits document = true → ∃ a, document = write a ∧ Keeps a ∧
      ∀ place, check place (.ofJson document) = .ok a)
    (hrefuses : ∀ document, fits document = false → (∀ a, document = write a → ¬Keeps a) ∧
      ∀ place, (check place (.ofJson document)).RefusesAll document) :
    Checks check write Keeps (faultyUnless fits) where
  eq_ok_iff place document a := by
    cases hform : fits document with
    | true =>
      obtain ⟨b, rfl, hkeeps, hok⟩ := hfits document hform
      rw [hok, Except.ok.injEq, hwrite.eq_iff]
      exact ⟨fun hba => ⟨hba, hba ▸ hkeeps⟩, And.left⟩
    | false =>
      obtain ⟨hno, hrefused⟩ := hrefuses document hform
      exact iff_of_false ((hrefused place).ne_ok a) fun h => hno a h.1 h.2
  errors_iff place document P hP := by
    cases hform : fits document with
    | true =>
      obtain ⟨b, rfl, hkeeps, hok⟩ := hfits document hform
      simp [hok, faultyUnless, hform]
    | false =>
      rw [((hrefuses document hform).2 place).errors_iff hP]
      simp [faultyUnless, hform]

/-! ### Texts and items -/

theorem checkText_ofJson_eq_ok_iff {place : List Place} {document : Json} {s : Text} :
    checkText place (.ofJson document) = .ok s ↔ document = .text s := by
  cases document <;> simp [Datum.ofJson, checkText, Checked.refuse]

theorem value_of_mem_errors_checkText {place : List Place} {value : Datum} {e : SchemaError}
    (h : e ∈ (checkText place value).errors) : e.value = value := by
  unfold checkText at h
  split at h
  case h_1 => exact absurd h List.not_mem_nil
  case h_2 =>
    split at h
    · exact absurd h List.not_mem_nil
    · rw [List.mem_singleton.mp h]
  case h_3 => rw [List.mem_singleton.mp h]

/-- How a text without surrogates is written in a document. -/
def textJson (s : String) : Json := .text s

theorem textJson_injective : Function.Injective textJson := fun _ _ h =>
  Text.ofString_injective (Json.text.inj h)

/-- Whether a document is a text without surrogates and within a limit. -/
def isShortText (limit : ℕ) : Json → Bool
  | .text s => s.isScalar && s.length ≤ limit
  | _ => false

theorem isShortText_textJson (limit : ℕ) (s : String) :
    isShortText limit (textJson s) = decide (s.length ≤ limit) := by
  simp [isShortText, textJson]

theorem checkShortText_textJson (limit : ℕ) (place : List Place) (s : String) :
    checkShortText limit place (.ofJson (textJson s)) =
      if limit < s.length then .refuse place (.textTooLong limit) (.ofJson (textJson s))
      else .ok s := by
  simp [textJson, Datum.ofJson, checkShortText, checkText]

theorem checks_shortText (limit : ℕ) :
    Checks (checkShortText limit) textJson (fun s => s.length ≤ limit)
      (faultyUnless (isShortText limit)) := by
  apply Checks.of_form textJson_injective
  · intro document h
    cases document with
    | text s =>
      obtain ⟨hscalar, hshort⟩ := Bool.and_eq_true_iff.mp h
      obtain ⟨t, rfl⟩ := Text.exists_eq_ofString_iff.mpr hscalar
      rw [Text.length_ofString] at hshort
      refine ⟨t, rfl, of_decide_eq_true hshort, fun place => ?_⟩
      exact (checkShortText_textJson limit place t).trans
        (if_neg (Nat.not_lt.mpr (of_decide_eq_true hshort)))
    | _ => cases h
  · intro document h
    cases document with
    | text s =>
      cases hs : s.string? with
      | none =>
        -- neither is the text written from one without surrogates, nor does the check take it
        refine ⟨fun t ht _ => ?_, fun place => ?_⟩
        · rw [Json.text.inj ht, Text.string?_ofString] at hs
          cases hs
        · simp only [Datum.ofJson, checkShortText, checkText, hs]
          exact Checked.refusesAll_refuse place _ (.text s)
      | some t =>
        obtain rfl := Text.string?_eq_some_iff.mp hs
        have hlong : limit < t.length :=
          Nat.lt_of_not_le (of_decide_eq_false ((isShortText_textJson limit t).symm.trans h))
        refine ⟨fun u hu hkeeps => ?_, fun place => ?_⟩
        · rw [textJson_injective hu] at hlong
          exact absurd hkeeps (Nat.not_le.mpr hlong)
        · have hcheck := (checkShortText_textJson limit place t).trans (if_pos hlong)
          rw [show Json.text t = textJson t from rfl, hcheck]
          exact Checked.refusesAll_refuse place _ _
    | _ => exact ⟨nofun, fun place => Checked.refusesAll_refuse place _ _⟩

/-- How an item is written in a document. -/
def itemJson : Item Text → Json
  | .literal s => .text s
  | .transform source destination => .array [.text source, .text destination]

theorem itemJson_injective : Function.Injective itemJson := by
  intro a b h
  cases a <;> cases b <;> simp_all [itemJson]

/-- Whether a document is a text or two texts in an array. -/
def isItem : Json → Bool
  | .text _ | .array [.text _, .text _] => true
  | _ => false

theorem isAbout_of_mem_errors_checkMember {place : List Place} {elements : List Json} {i : ℕ}
    {e : SchemaError}
    (h : e ∈ (checkMember place (.ofJson (.array elements)) (elements.map .ofJson) i).errors) :
    e.IsAbout (.array elements) := by
  unfold checkMember at h
  split at h
  case h_1 member hmember =>
    rw [List.getElem?_map, Option.map_eq_some_iff] at hmember
    obtain ⟨part, hpart, rfl⟩ := hmember
    exact ⟨part, value_of_mem_errors_checkText h, .inr ⟨elements, rfl, List.mem_of_getElem? hpart⟩⟩
  case h_2 => exact .of_value (by rw [List.mem_singleton.mp h])

theorem listElements?_ofJson_array (elements : List Json) :
    listElements? (.ofJson (.array elements)) = some (elements.map .ofJson) := by
  rw [← Datum.ofElements_eq_map]
  rfl

theorem count?_ofJson_array (elements : List Json) :
    count? (.ofJson (.array elements)) = some elements.length := by
  simp [count?, Datum.ofJson, Datum.ofElements_eq_map]

theorem checkPair_ofJson_array (place : List Place) (elements : List Json) :
    checkPair place (.ofJson (.array elements)) =
      if 2 < elements.length then
        .refuse place (.pairTooLong (some elements.length)) (.ofJson (.array elements))
      else
        (checkMember place (.ofJson (.array elements)) (elements.map .ofJson) 0).both
          (checkMember place (.ofJson (.array elements)) (elements.map .ofJson) 1) := by
  unfold checkPair
  rw [listElements?_ofJson_array]
  simp only [List.length_map]
  split
  · rw [count?_ofJson_array]
  · rfl

theorem isAbout_of_mem_errors_checkPair {place : List Place} {elements : List Json}
    {e : SchemaError} (h : e ∈ (checkPair place (.ofJson (.array elements))).errors) :
    e.IsAbout (.array elements) := by
  rw [checkPair_ofJson_array] at h
  split at h
  · exact .of_value (by rw [List.mem_singleton.mp h])
  · rw [Checked.errors_both, List.mem_append] at h
    exact h.elim isAbout_of_mem_errors_checkMember isAbout_of_mem_errors_checkMember

theorem checkMember_eq_ok_iff {place : List Place} {value : Datum} {elements : List Json} {i : ℕ}
    {s : Text} :
    checkMember place value (elements.map .ofJson) i = .ok s ↔ elements[i]? = some (.text s) := by
  unfold checkMember
  rw [List.getElem?_map]
  cases elements[i]? with
  | none => simp [Checked.refuse]
  | some part => simp [checkText_ofJson_eq_ok_iff]

theorem checkPair_eq_ok_iff {place : List Place} {elements : List Json} {s d : Text} :
    checkPair place (.ofJson (.array elements)) = .ok (s, d) ↔ elements = [.text s, .text d] := by
  rw [checkPair_ofJson_array]
  split
  case isTrue hlong =>
    refine iff_of_false nofun fun h => ?_
    rw [h] at hlong
    exact absurd hlong (Nat.lt_irrefl 2)
  case isFalse hshort =>
    rw [Checked.both_eq_ok_iff, checkMember_eq_ok_iff, checkMember_eq_ok_iff]
    constructor
    · rintro ⟨hsource, hdestination⟩
      match elements with
      | [] => cases hsource
      | [_] => cases hdestination
      | [_, _] => simp_all
      | _ :: _ :: _ :: _ => simp at hshort
    · rintro rfl
      exact ⟨rfl, rfl⟩

/-- An array that is no item is refused with both readings. -/
theorem refusesAll_checkItem_array {elements : List Json} (h : isItem (.array elements) = false)
    (place : List Place) :
    (checkItem place (.ofJson (.array elements))).RefusesAll (.array elements) := by
  unfold checkItem
  cases hpair : checkPair (place ++ [.field "tuple[str, str]"]) (.ofJson (.array elements)) with
  | ok pair =>
    rw [checkPair_eq_ok_iff.mp hpair] at h
    cases h
  | error later =>
    refine ⟨_, rfl, ⟨_, List.mem_cons_self, rfl⟩, fun e he => ?_⟩
    obtain rfl | he := List.mem_cons.mp he
    · exact .of_value rfl
    · have hmem : e ∈ (checkPair (place ++ [.field "tuple[str, str]"])
          (.ofJson (.array elements))).errors := by rwa [hpair]
      exact isAbout_of_mem_errors_checkPair hmem

/-- What is no item is refused with both readings. -/
theorem refusesAll_checkItem {document : Json} (h : isItem document = false) (place : List Place) :
    (checkItem place (.ofJson document)).RefusesAll document := by
  cases document with
  | text s => cases h
  | array elements => exact refusesAll_checkItem_array h place
  | _ =>
    refine ⟨_, rfl, ⟨_, List.mem_cons_self, rfl⟩, fun e he => ?_⟩
    simp only [List.cons_append, List.nil_append, List.mem_cons, List.not_mem_nil, or_false] at he
    obtain rfl | rfl := he <;> exact .of_value rfl

theorem checks_item : Checks checkItem itemJson (fun _ => True) (faultyUnless isItem) := by
  apply Checks.of_form itemJson_injective
  · intro document h
    unfold isItem at h
    split at h
    case h_1 s => exact ⟨.literal s, rfl, trivial, fun place => rfl⟩
    case h_2 s d => exact ⟨.transform s d, rfl, trivial, fun place => rfl⟩
    case h_3 => cases h
  · intro document h
    refine ⟨fun item hitem => ?_, refusesAll_checkItem h⟩
    cases item <;> rw [hitem] at h <;> cases h

/-! ### Lists -/

/-- The faulty parts of a document that should be an array: those of its elements, or all of it if
it is none. -/
def faultyArray (faulty : List Json → List Json) : Json → List Json
  | .array elements => faulty elements
  | document => [document]

/-- A check that refuses what is no array is described by what it does on arrays. -/
theorem Checks.of_array {check : List Place → Datum → Checked α} {write : α → List Json}
    {Keeps : α → Prop} {faulty : List Json → List Json}
    (hrefuses : ∀ place document, (∀ elements, document ≠ .array elements) →
      (check place (.ofJson document)).RefusesAll document)
    (hok : ∀ place elements a, check place (.ofJson (.array elements)) = .ok a ↔
      elements = write a ∧ Keeps a)
    (herrors : ∀ place elements (P : Datum → Prop), Datum.Inherited P →
      ((∀ e ∈ (check place (.ofJson (.array elements))).errors, P e.value) ↔
        ∀ part ∈ faulty elements, P (.ofJson part))) :
    Checks check (fun a => .array (write a)) Keeps (faultyArray faulty) where
  eq_ok_iff place document a := by
    by_cases harray : ∃ elements, document = .array elements
    · obtain ⟨elements, rfl⟩ := harray
      rw [hok, Json.array.injEq]
    · have hno (elements : List Json) : document ≠ .array elements := fun heq =>
        harray ⟨elements, heq⟩
      exact iff_of_false ((hrefuses place document hno).ne_ok a) fun heq => hno _ heq.1
  errors_iff place document P hP := by
    by_cases harray : ∃ elements, document = .array elements
    · obtain ⟨elements, rfl⟩ := harray
      exact herrors place elements P hP
    · have hno (elements : List Json) : document ≠ .array elements := fun heq =>
        harray ⟨elements, heq⟩
      have hfaulty : faultyArray faulty document = [document] := by
        cases document with
        | array elements => exact absurd rfl (hno elements)
        | _ => rfl
      rw [(hrefuses place document hno).errors_iff hP, hfaulty, List.forall_mem_singleton]

section List
variable {check : List Place → Datum → Checked α} {write : α → Json} {Keeps : α → Prop}
  {faulty : Json → List Json}

theorem Checks.checkElements_eq_ok_iff (h : Checks check write Keeps faulty) (place : List Place)
    (elements : List Json) (as : List α) :
    checkElements check place (elements.map .ofJson) = .ok as ↔
      elements = as.map write ∧ ∀ a ∈ as, Keeps a := by
  unfold checkElements
  rw [Checked.all_eq_ok_iff]
  generalize 0 = start
  induction elements generalizing as start with
  | nil => cases as <;> simp
  | cons element elements ih =>
    cases as with
    | nil => simp
    | cons a as =>
      simp only [List.map_cons, List.zipIdx_cons, List.cons.injEq, h.eq_ok_iff, ih,
        List.forall_mem_cons]
      exact and_and_and_comm

theorem Checks.errors_checkElements_iff (h : Checks check write Keeps faulty)
    (place : List Place) (elements : List Json) {P : Datum → Prop} (hP : Datum.Inherited P) :
    (∀ e ∈ (checkElements check place (elements.map .ofJson)).errors, P e.value) ↔
      ∀ part ∈ elements.flatMap faulty, P (.ofJson part) := by
  unfold checkElements
  rw [Checked.errors_all]
  generalize 0 = start
  induction elements generalizing start with
  | nil => simp
  | cons element elements ih =>
    simp only [List.map_cons, List.zipIdx_cons, List.flatMap_cons, List.forall_mem_append,
      h.errors_iff _ _ hP, ih]

theorem checkList_ofJson_array (check : List Place → Datum → Checked α) (place : List Place)
    (elements : List Json) :
    checkList check place (.ofJson (.array elements)) =
      checkElements check place (elements.map .ofJson) := by
  unfold checkList
  rw [listElements?_ofJson_array]

theorem Checks.list (h : Checks check write Keeps faulty) :
    Checks (checkList check) (fun as => .array (as.map write)) (fun as => ∀ a ∈ as, Keeps a)
      (faultyArray (·.flatMap faulty)) := by
  apply Checks.of_array
  · intro place document harray
    cases document with
    | array elements => exact absurd rfl (harray elements)
    | _ => exact Checked.refusesAll_refuse place _ _
  · intro place elements as
    rw [checkList_ofJson_array, h.checkElements_eq_ok_iff]
  · intro place elements P hP
    rw [checkList_ofJson_array, h.errors_checkElements_iff place elements hP]

end List

theorem checkInputs_ofJson_array (place : List Place) (elements : List Json) :
    BatchRequest.checkInputs place (.ofJson (.array elements)) =
      if maxBatchSize < elements.length then
        .refuse place (.listTooLong maxBatchSize (some elements.length)) (.ofJson (.array elements))
      else checkElements (checkShortText maxInputLength) place (elements.map .ofJson) := by
  unfold BatchRequest.checkInputs
  rw [listElements?_ofJson_array]
  simp only [List.length_map]
  split
  · rw [count?_ofJson_array]
  · rfl

/-- The faulty parts of a batch of inputs: all of it if it is too long, and otherwise those of its
elements. -/
def faultyInputs (elements : List Json) : List Json :=
  if maxBatchSize < elements.length then [.array elements]
  else elements.flatMap (faultyUnless (isShortText maxInputLength))

theorem checks_inputs :
    Checks BatchRequest.checkInputs Json.strings
      (fun inputs => inputs.length ≤ maxBatchSize ∧ ∀ input ∈ inputs, input.length ≤ maxInputLength)
      (faultyArray faultyInputs) := by
  apply Checks.of_array
  · intro place document harray
    cases document with
    | array elements => exact absurd rfl (harray elements)
    | _ => exact Checked.refusesAll_refuse place _ _
  · intro place elements inputs
    rw [checkInputs_ofJson_array]
    split
    case isTrue hlong =>
      refine iff_of_false nofun fun h => ?_
      rw [h.1, List.length_map] at hlong
      exact absurd h.2.1 (Nat.not_le.mpr hlong)
    case isFalse hshort =>
      rw [(checks_shortText maxInputLength).checkElements_eq_ok_iff]
      refine and_congr_right fun helements => (and_iff_right ?_).symm
      rw [helements, List.length_map] at hshort
      exact Nat.not_lt.mp hshort
  · intro place elements P hP
    rw [checkInputs_ofJson_array, faultyInputs]
    split
    · rw [(Checked.refusesAll_refuse place _ _).errors_iff hP, List.forall_mem_singleton]
    · exact (checks_shortText maxInputLength).errors_checkElements_iff place elements hP

end Api

end RuleTransducer
