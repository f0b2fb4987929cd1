import RuleTransducer.Proofs.Registration

/-! Validity. The check reads a finished item by its raw form and the builder takes it as it
is, so an item has two readings, and they agree but for a finished literal over a pair of
texts, which the check takes for a transform. Where no such literal stands in a rule, the
check finds a flaw in an item exactly if the builder cannot take the item or cannot align
it, and a rule is valid exactly if it can be built. -/

namespace RuleTransducer

theorem Verdict.isValid_iff {verdict : Verdict} : verdict.isValid = true ↔ verdict.flaws = [] :=
  List.isEmpty_iff

theorem Verdict.isValid_eq_false_iff {verdict : Verdict} :
    verdict.isValid = false ↔ verdict.flaws ≠ [] := List.isEmpty_eq_false_iff

namespace Item

/-- The alignment of an item fails exactly if the item emits without reading. -/
theorem exists_steps_eq_error_iff {part : Item Text} :
    (∃ e, part.steps = .error e) ↔ part.Inserts := by
  by_cases h : part.Inserts
  · exact iff_of_true ⟨_, steps_of_inserts h⟩ h
  · rw [steps_of_not_inserts h]
    simp [h]

/-- Only a transform emits without reading. -/
theorem Inserts.eq_transform {part : Item Text} (h : part.Inserts) :
    ∃ d : Text, d ≠ "" ∧ part = .transform "" d := by
  obtain ⟨hsource, hdestination⟩ := h
  cases part with
  | literal text => exact absurd hsource hdestination
  | transform source destination =>
    have hempty : source = "" := hsource
    exact ⟨destination, hdestination, by rw [hempty]⟩

end Item

namespace Datum

/-! ### Two readings of an item -/

/-- The transform over texts that two parts make. -/
def pairItem? : List Datum → Option (Item Text)
  | [source, destination] => (Item.transform source destination).texts?
  | _ => none

/-- The item over texts of which a value is the raw form. -/
def rawItem? : Datum → Option (Item Text)
  | text s => some (.literal s)
  | list parts | tuple parts => pairItem? parts
  | _ => none

/-- The item over texts that a value is checked as. -/
def checkedItem? : Datum → Option (Item Text)
  | item part => part.raw.rawItem?
  | value => value.rawItem?

/-- The item over texts that a value is built as. -/
def builtItem? (value : Datum) : Option (Item Text) :=
  match value.toItem with
  | .ok part => part.texts?
  | .error _ => none

theorem texts?_eq_some_iff {part : Item Datum} {texts : Item Text} :
    part.texts? = some texts ↔ part = texts.map .text := by
  cases part with
  | literal content => cases content <;> cases texts <;> simp [Item.texts?, text?, Item.map]
  | transform source destination =>
    cases source <;> cases destination <;> cases texts <;> simp [Item.texts?, text?, Item.map]

theorem builtItem?_eq_some_iff {value : Datum} {part : Item Text} :
    value.builtItem? = some part ↔ value.toItem = .ok (part.map .text) := by
  unfold builtItem?
  cases value.toItem with
  | error e => simp
  | ok finished => rw [texts?_eq_some_iff, Except.ok.injEq]

/-- Whether a value is a finished literal over a pair of texts. -/
def isPairLiteral : Datum → Bool
  | item (.literal (list parts)) | item (.literal (tuple parts)) => (pairItem? parts).isSome
  | _ => false

/-- A sequence is built as the transform that its parts make. -/
theorem builtItem?_sequence (parts : List Datum) :
    builtItem? (list parts) = pairItem? parts ∧ builtItem? (tuple parts) = pairItem? parts := by
  match parts with
  | [] => exact ⟨rfl, rfl⟩
  | [_] => simp [builtItem?, toItem, pairItem?]
  | [source, destination] =>
    cases source with
    | text s => cases destination <;> exact ⟨rfl, rfl⟩
    | _ => exact ⟨rfl, rfl⟩
  | _ :: _ :: _ :: _ => simp [builtItem?, toItem, pairItem?]

/-- The readings agree but for finished literals over pairs. -/
theorem builtItem?_eq (value : Datum) :
    value.builtItem? = if value.isPairLiteral then none else value.checkedItem? := by
  cases value with
  | item part =>
    cases part with
    | transform source destination => rfl
    | literal content =>
      cases content with
      | list parts | tuple parts =>
        unfold builtItem? isPairLiteral checkedItem? toItem
        cases h : pairItem? parts <;> simp [Item.texts?, text?, Item.raw, rawItem?, h]
      | _ => rfl
  | list parts => exact (builtItem?_sequence parts).1
  | tuple parts => exact (builtItem?_sequence parts).2
  | _ => rfl

/-! ### Flaws of an item -/

theorem flaws_checkPair_eq_nil_iff (source destination : Datum) :
    (checkPair source destination).flaws = [] ↔
      ∃ part, pairItem? [source, destination] = some part ∧ ¬part.Inserts := by
  cases hs : source.text? with
  | none => cases hd : destination.text? <;> simp [checkPair, pairItem?, Item.texts?, hs, hd]
  | some s =>
    cases hd : destination.text? with
    | none => simp [checkPair, pairItem?, Item.texts?, hs, hd]
    | some d =>
      simp only [checkPair, pairItem?, Item.texts?, hs, hd, Item.Inserts]
      by_cases hs : s = "" <;> by_cases hd : d = "" <;>
        simp [hs, hd, Item.source, Item.destination]

theorem flaws_checkRaw_eq_nil_iff (value : Datum) :
    value.checkRaw.flaws = [] ↔ ∃ part, value.rawItem? = some part ∧ ¬part.Inserts := by
  fun_cases checkRaw value with
  | case1 s h | case2 s h => simp [rawItem?, Item.Inserts, Item.source, Item.destination]
  | case3 source destination | case4 source destination =>
    exact flaws_checkPair_eq_nil_iff source destination
  | case5 parts hparts | case6 parts hparts =>
    have hnone : pairItem? parts = none := by
      unfold pairItem?
      split
      · exact absurd rfl (hparts _ _)
      · rfl
    simp [rawItem?, hnone]
  | case7 value => cases value <;> simp_all [rawItem?]

/-- The check finds no flaw in an item exactly if it reads an item that can be aligned. -/
theorem flaws_checkItem_eq_nil_iff (value : Datum) :
    value.checkItem.flaws = [] ↔ ∃ part, value.checkedItem? = some part ∧ ¬part.Inserts := by
  cases value with
  | item part => exact flaws_checkRaw_eq_nil_iff part.raw
  | _ => exact flaws_checkRaw_eq_nil_iff _

/-- But for literals over pairs, an item without flaws is one that is built and aligned. -/
theorem flaws_checkItem_eq_nil_iff_built {value : Datum} (h : value.isPairLiteral = false) :
    value.checkItem.flaws = [] ↔ ∃ part, value.builtItem? = some part ∧ ¬part.Inserts := by
  rw [flaws_checkItem_eq_nil_iff, builtItem?_eq, h]
  rfl

/-- A literal over a pair is over no text. -/
theorem texts?_of_isPairLiteral {value : Datum} (h : value.isPairLiteral = true) :
    ∃ part, value = item part ∧ part.source.text? = none ∧ part.texts? = none := by
  unfold isPairLiteral at h
  split at h
  · exact ⟨_, rfl, rfl, rfl⟩
  · exact ⟨_, rfl, rfl, rfl⟩
  · cases h

/-! ### Flaws of a rule -/

theorem flaws_checkItems (items : List Datum) :
    (checkItems items).flaws =
      items.zipIdx.flatMap fun (value, i) => value.checkItem.flaws.map (.inItem i) := by
  unfold checkItems
  split
  case h_1 hlast =>
    rw [List.getLast?_eq_none_iff] at hlast
    rw [hlast]
    rfl
  case h_2 => rfl

/-- The flaws of a rule are those of its items, each with the place of the item. -/
theorem inItem_mem_flaws_checkItems_iff {items : List Datum} {i : ℕ} {flaw : ItemFlaw} :
    RuleFlaw.inItem i flaw ∈ (checkItems items).flaws ↔
      ∃ value, items[i]? = some value ∧ flaw ∈ value.checkItem.flaws := by
  rw [flaws_checkItems]
  simp only [List.mem_flatMap, List.mem_map, List.mem_zipIdx_iff_getElem?, RuleFlaw.inItem.injEq]
  constructor
  · rintro ⟨⟨value, _⟩, hvalue, _, hflaw, rfl, rfl⟩
    exact ⟨value, hvalue, hflaw⟩
  · rintro ⟨value, hvalue, hflaw⟩
    exact ⟨(value, i), hvalue, flaw, hflaw, rfl, rfl⟩

theorem isValid_checkItems_iff {items : List Datum} :
    (checkItems items).isValid = true ↔ ∀ value ∈ items, value.checkItem.flaws = [] := by
  rw [Verdict.isValid_iff, flaws_checkItems]
  exact flatMap_zipIdx_eq_nil_iff fun _ => List.map_eq_nil_iff

/-! ### Rules that are built -/

/-- The builder reads the items of a rule one by one. -/
theorem mapM_builtItem? (elements : List Datum) :
    elements.mapM builtItem? =
      match elements.mapM toItem with
      | .ok parts => parts.mapM Item.texts?
      | .error _ => none := by
  induction elements with
  | nil => rfl
  | cons element elements ih =>
    rw [List.mapM_cons, List.mapM_cons, ih]
    cases hpart : element.toItem with
    | error e => simp [builtItem?, hpart, bind, Except.bind]
    | ok part =>
      cases hparts : elements.mapM toItem with
      | error e => simp [bind, Except.bind]
      | ok parts => simp [builtItem?, hpart, bind, Except.bind, pure, Except.pure]

theorem textRule?_eq {declared : Datum} {elements : List Datum}
    (h : declared.elements? = some elements) :
    declared.textRule? = (elements.mapM builtItem?).map Rule.mk := by
  rw [mapM_builtItem?]
  simp only [textRule?, toItems, Datum.elements, h, bind, Except.bind]
  cases elements.mapM toItem <;> rfl

/-- A value declares a rule over texts with a property of every item exactly if each of its
elements is built as an item with the property. -/
theorem exists_textRule?_iff {declared : Datum} {elements : List Datum}
    (h : declared.elements? = some elements) {P : Item Text → Prop} :
    (∃ rule, declared.textRule? = some rule ∧ ∀ part ∈ rule.items, P part) ↔
      ∀ value ∈ elements, ∃ part, value.builtItem? = some part ∧ P part := by
  rw [textRule?_eq h, ← exists_mapM_eq_some_iff]
  simp [Option.map_eq_some_iff]

/-! ### Items over texts -/

section Textual
variable {value : Datum} (h : ∀ part, value = item part → part.texts?.isSome)
include h

theorem builtItem?_eq_none_iff : value.builtItem? = none ↔ ∃ e, value.toItem = .error e := by
  cases hitem : value.toItem with
  | error e => simp [builtItem?, hitem]
  | ok part =>
    have hsome := texts?_of_toItem hitem h
    simp only [builtItem?, hitem, reduceCtorEq, exists_false, iff_false]
    exact Option.isSome_iff_ne_none.mp hsome

theorem isPairLiteral_eq_false : value.isPairLiteral = false := by
  rw [← Bool.not_eq_true]
  intro hpair
  obtain ⟨part, hvalue, -, hnone⟩ := texts?_of_isPairLiteral hpair
  have hsome := h part hvalue
  rw [hnone] at hsome
  exact Bool.false_ne_true hsome

/-- An item over texts has a flaw exactly if it cannot be taken, or is taken and cannot be
aligned. -/
theorem flaws_checkItem_ne_nil_iff :
    value.checkItem.flaws ≠ [] ↔
      (∃ e, value.toItem = .error e) ∨
        ∃ part : Item Text, value.toItem = .ok (part.map .text) ∧ ∃ e, part.steps = .error e := by
  rw [ne_eq, flaws_checkItem_eq_nil_iff_built (isPairLiteral_eq_false h),
    ← builtItem?_eq_none_iff h]
  simp only [← builtItem?_eq_some_iff, Item.exists_steps_eq_error_iff]
  cases value.builtItem? <;> simp

end Textual

/-- A textual value with elements declares no rule exactly if one of them stands for no item. -/
theorem textRule?_eq_none_iff {declared : Datum} {elements : List Datum}
    (helements : declared.elements? = some elements) (h : declared.IsTextual) :
    declared.textRule? = none ↔ ∃ value ∈ elements, ∃ e, value.toItem = .error e := by
  have htext (value : Datum) (hvalue : value ∈ elements) (part : Item Datum)
      (hpart : value = item part) : part.texts?.isSome :=
    h elements helements part (hpart ▸ hvalue)
  have hbuilt := exists_textRule?_iff helements (P := fun _ => True)
  simp only [implies_true, and_true] at hbuilt
  rw [← not_iff_not, ← ne_eq, Option.ne_none_iff_exists', hbuilt]
  constructor
  · rintro hall ⟨value, hvalue, herror⟩
    obtain ⟨part, hpart⟩ := hall value hvalue
    rw [← builtItem?_eq_none_iff (htext value hvalue), hpart] at herror
    cases herror
  · intro hnone value hvalue
    rw [← Option.ne_none_iff_exists', ne_eq, builtItem?_eq_none_iff (htext value hvalue)]
    exact fun herror => hnone ⟨value, hvalue, herror⟩

/-- A rule cannot be aligned exactly if one of its elements is a transform that writes without
reading. -/
theorem not_alignable_iff {declared : Datum} {elements : List Datum} {rule : Rule}
    (helements : declared.elements? = some elements) (hrule : declared.textRule? = some rule) :
    ¬rule.Alignable ↔
      ∃ value ∈ elements, ∃ d : Text, d ≠ "" ∧
        value.toItem = .ok (.transform (text "") (text d)) := by
  have hbuilt := (exists_textRule?_iff helements (P := fun _ => True)).mp
    ⟨rule, hrule, fun _ _ => trivial⟩
  have halign := exists_textRule?_iff helements (P := fun part => ¬part.Inserts)
  simp only [hrule, Option.some.injEq, exists_eq_left'] at halign
  rw [Rule.Alignable, halign]
  constructor
  · intro h
    push Not at h
    obtain ⟨value, hvalue, hinserts⟩ := h
    obtain ⟨part, hpart, -⟩ := hbuilt value hvalue
    obtain ⟨d, hd, rfl⟩ := (hinserts part hpart).eq_transform
    exact ⟨value, hvalue, d, hd, builtItem?_eq_some_iff.mp hpart⟩
  · rintro ⟨value, hvalue, d, hd, hitem⟩ h
    obtain ⟨part, hpart, haligned⟩ := h value hvalue
    have hinsertion : value.builtItem? = some (.transform "" d) := builtItem?_eq_some_iff.mpr hitem
    rw [hinsertion, Option.some.injEq] at hpart
    exact haligned (hpart ▸ ⟨rfl, hd⟩)

/-- A textual value declares a rule that cannot be aligned exactly if all its elements stand for
items and one of them is a transform that writes without reading. -/
theorem exists_not_alignable_iff {declared : Datum} {elements : List Datum}
    (helements : declared.elements? = some elements) (h : declared.IsTextual) :
    (∃ rule, declared.textRule? = some rule ∧ ¬rule.Alignable) ↔
      (∀ value ∈ elements, ∃ part, value.toItem = .ok part) ∧
        ∃ value ∈ elements, ∃ d : Text, d ≠ "" ∧
        value.toItem = .ok (.transform (text "") (text d)) := by
  have hall : (∀ value ∈ elements, ∃ part, value.toItem = .ok part) ↔
      ∃ rule, declared.textRule? = some rule := by
    rw [← Option.ne_none_iff_exists', ne_eq, textRule?_eq_none_iff helements h]
    push Not
    refine forall₂_congr fun value _ => ?_
    cases value.toItem <;> simp
  rw [hall]
  constructor
  · rintro ⟨rule, hrule, halign⟩
    exact ⟨⟨rule, hrule⟩, (not_alignable_iff helements hrule).mp halign⟩
  · rintro ⟨⟨rule, hrule⟩, hinserts⟩
    exact ⟨rule, hrule, (not_alignable_iff helements hrule).mpr hinserts⟩

end Datum

/-- Several rules have no errors exactly if each of them is valid. -/
theorem errors_validateRules_eq_nil_iff {rules : List Datum} :
    (validateRules rules).errors = [] ↔ ∀ rule ∈ rules, rule.validate.isValid = true := by
  simp only [Verdict.isValid_iff]
  exact flatMap_zipIdx_eq_nil_iff fun _ => List.map_eq_nil_iff

/-- Whether a build failed at an insertion, and not at a value that cannot serve. -/
def BuildError.isInsertion : BuildError → Bool
  | insertion _ => true
  | declaration _ | part _ => false

namespace Graph

variable {α : Type} [BEq α] [Fragment α]

/-! ### Agreement with the builder -/

/-- A textual value declares no rule and fails as such, or declares a rule that can be aligned
and is built, or one that cannot be aligned and fails at an insertion. -/
theorem error?_buildDeclared_cases (g : Graph α) {declared : Datum} (h : declared.IsTextual) :
    (declared.textRule? = none ∧ ∃ e, (g.buildDeclared declared).error? = some (.declaration e)) ∨
      ∃ rule, declared.textRule? = some rule ∧
        (rule.Alignable ∧ (g.buildDeclared declared).error? = none ∨
          ¬rule.Alignable ∧ ∃ d, (g.buildDeclared declared).error? = some (.insertion d)) := by
  obtain ⟨e, he⟩ | ⟨rule, hrule⟩ := h.cases
  · refine .inl ⟨by simp [Datum.textRule?, he], e, by simp [buildDeclared, he]⟩
  · refine .inr ⟨rule, hrule, ?_⟩
    rw [buildDeclared_of_textRule? hrule]
    by_cases halign : rule.Alignable
    · exact .inl ⟨halign, (error?_buildRule g rule).mpr halign⟩
    · refine .inr ⟨halign, ?_⟩
      obtain ⟨e, he⟩ := Option.ne_none_iff_exists'.mp (mt Rule.plan_snd_eq_none_iff.mp halign)
      have herror : (g.buildRule rule).error? =
          rule.plan.2.map fun e => .insertion (.text e.destination) := rfl
      exact ⟨_, by rw [herror, he]; rfl⟩

section Built
variable (g : Graph α) {declared : Datum} (h : declared.IsTextual)
include h

theorem error?_buildDeclared_eq_none_iff :
    (g.buildDeclared declared).error? = none ↔
      ∃ rule, declared.textRule? = some rule ∧ rule.Alignable := by
  obtain ⟨hno, e, he⟩ | ⟨rule, hrule, ⟨halign, he⟩ | ⟨halign, d, he⟩⟩ :=
    error?_buildDeclared_cases g h
  · simp [hno, he]
  · simp [hrule, he, halign]
  · simp [hrule, he, halign]

theorem fails_at_value_iff :
    (∃ e, (g.buildDeclared declared).error? = some e ∧ e.isInsertion = false) ↔
      declared.textRule? = none := by
  obtain ⟨hno, e, he⟩ | ⟨rule, hrule, ⟨halign, he⟩ | ⟨halign, d, he⟩⟩ :=
    error?_buildDeclared_cases g h
  · simp [hno, he, BuildError.isInsertion]
  · simp [hrule, he]
  · simp [hrule, he, BuildError.isInsertion]

theorem fails_at_insertion_iff :
    (∃ e, (g.buildDeclared declared).error? = some e ∧ e.isInsertion = true) ↔
      ∃ rule, declared.textRule? = some rule ∧ ¬rule.Alignable := by
  obtain ⟨hno, e, he⟩ | ⟨rule, hrule, ⟨halign, he⟩ | ⟨halign, d, he⟩⟩ :=
    error?_buildDeclared_cases g h
  · simp [hno, he, BuildError.isInsertion]
  · simp [hrule, he, halign]
  · simp [hrule, he, halign, BuildError.isInsertion]

end Built

section Items
variable {items : List Datum} (h : (Datum.list items).IsTextual)
include h

/-- The check finds flaws in the items that cannot be taken or cannot be aligned. -/
theorem exists_flaw_validate_iff (i : ℕ) :
    (∃ flaw, .inItem i flaw ∈ (Datum.list items).validate.flaws) ↔
      ∃ value, items[i]? = some value ∧
        ((∃ e, value.toItem = .error e) ∨
          ∃ part : Item Text, value.toItem = .ok (part.map .text) ∧
            ∃ e, part.steps = .error e) := by
  have hflaws : (Datum.list items).validate = Datum.checkItems items := rfl
  simp only [hflaws, Datum.inItem_mem_flaws_checkItems_iff]
  rw [exists_comm]
  refine exists_congr fun value => ?_
  rw [exists_and_left]
  refine and_congr_right fun hvalue => ?_
  have htext (part : Item Datum) (hpart : value = .item part) : part.texts?.isSome :=
    h items rfl part (hpart ▸ List.mem_of_getElem? hvalue)
  rw [← Datum.flaws_checkItem_ne_nil_iff htext, ne_eq, List.eq_nil_iff_forall_not_mem,
    not_forall_not]

/-- A rule is valid exactly if it is one over texts that can be aligned. -/
theorem isValid_validate_iff :
    (Datum.list items).validate.isValid = true ↔
      ∃ rule, (Datum.list items).textRule? = some rule ∧ rule.Alignable := by
  have hvalid : (Datum.list items).validate = Datum.checkItems items := rfl
  rw [hvalid, Datum.isValid_checkItems_iff]
  refine Iff.trans ?_ (Datum.exists_textRule?_iff (P := fun part => ¬part.Inserts) rfl).symm
  refine forall₂_congr fun value hvalue => ?_
  exact Datum.flaws_checkItem_eq_nil_iff_built
    (Datum.isPairLiteral_eq_false fun part hpart => h items rfl part (hpart ▸ hvalue))

/-- For items over texts the check and the builder draw one line. The check finds flaws in
exactly the items that cannot be taken or, if taken, not be aligned; a rule is valid exactly
if it is built; and a build fails at a value exactly if some item cannot be taken, and at an
insertion exactly if all can be taken and a transform writes without reading. -/
theorem flaws_validate_iff_error?_buildDeclared (g : Graph α) :
    (∀ i, (∃ flaw, .inItem i flaw ∈ (Datum.list items).validate.flaws) ↔
      ∃ value, items[i]? = some value ∧
        ((∃ e, value.toItem = .error e) ∨
          ∃ part : Item Text, value.toItem = .ok (part.map .text) ∧
            ∃ e, part.steps = .error e)) ∧
    ((Datum.list items).validate.isValid = true ↔
      (g.buildDeclared (.list items)).error? = none) ∧
    ((∃ e, (g.buildDeclared (.list items)).error? = some e ∧ e.isInsertion = false) ↔
      ∃ value ∈ items, ∃ e, value.toItem = .error e) ∧
    ((∃ e, (g.buildDeclared (.list items)).error? = some e ∧ e.isInsertion = true) ↔
      (∀ value ∈ items, ∃ part, value.toItem = .ok part) ∧
        ∃ value ∈ items, ∃ d : Text, d ≠ "" ∧
          value.toItem = .ok (.transform (.text "") (.text d))) := by
  have helements : (Datum.list items).elements? = some items := rfl
  refine ⟨exists_flaw_validate_iff h, ?_, ?_, ?_⟩
  · rw [isValid_validate_iff h, error?_buildDeclared_eq_none_iff g h]
  · rw [fails_at_value_iff g h, Datum.textRule?_eq_none_iff helements h]
  · rw [fails_at_insertion_iff g h, Datum.exists_not_alignable_iff helements h]

end Items

/-- Items of every kind, of which the pair writes without reading. -/
def mixedItems : List Datum :=
  [.ofJson (.text "a"), .ofJson (.array [.text "b", .text "c"]), .item (.literal (.text "d")),
    .item (.transform (.text "e") (.text "")), .tuple [.ofJson (.text ""), .ofJson (.text "x")]]

theorem flaws_validate_iff_error?_buildDeclared_mixedItems :
    (∃ flaw, .inItem 4 flaw ∈ (Datum.list mixedItems).validate.flaws) ∧
      ∃ e, ((empty : Graph Text).buildDeclared (.list mixedItems)).error? = some e ∧
        e.isInsertion = true := by
  have htextual : (Datum.list mixedItems).IsTextual := by
    intro elements helements part hpart
    cases helements
    simp only [mixedItems, Datum.ofJson, List.mem_cons, List.not_mem_nil, reduceCtorEq,
      Datum.item.injEq, false_or, or_false] at hpart
    obtain rfl | rfl := hpart <;> rfl
  have htaken : ∀ value ∈ mixedItems, ∃ part, value.toItem = .ok part := by
    simp [mixedItems, Datum.ofJson, Datum.ofElements, Datum.toItem]
  obtain ⟨hflaws, -, -, hinsertion⟩ :=
    flaws_validate_iff_error?_buildDeclared htextual (empty : Graph Text)
  refine ⟨(hflaws 4).mpr ⟨_, rfl, .inr ⟨.transform "" "x", rfl, _, rfl⟩⟩, hinsertion.mpr ?_⟩
  exact ⟨htaken, _, List.mem_of_getElem? (i := 4) rfl, "x", by decide, rfl⟩

end Graph

end RuleTransducer
