import RuleTransducer.Proofs.Validity

/-! Admission. A rule that is not valid leaves the graph as it was, and a valid rule is built
without failing, unless a finished literal over a pair of texts stands in it. The check takes
such a literal for a transform, and the builder for a literal whose two parts are its code
points; so its edges are made, and the rule fails when its input is joined at the end. Rules
that are all admitted are therefore rules over texts. -/

namespace RuleTransducer

namespace Datum

/-- Whether a rule passes validation with a finished literal over a pair of texts in it. -/
def Slips (declared : Datum) : Prop :=
  declared.materialised.validate.isValid = true ∧
    ∃ elements, declared.elements? = some elements ∧
      ∃ value ∈ elements, value.isPairLiteral = true

/-- A valid rule has elements, and none of them has a flaw. -/
theorem exists_elements?_of_isValid {declared : Datum}
    (h : declared.materialised.validate.isValid = true) :
    ∃ elements, declared.elements? = some elements ∧
      ∀ value ∈ elements, value.checkItem.flaws = [] := by
  cases declared with
  | list items | tuple items | dict fields | bytes octets | generator mark items | rule items =>
    exact ⟨_, rfl, isValid_checkItems_iff.mp h⟩
  | _ => cases h

/-- A valid rule without literals over pairs is a rule over texts that can be aligned. -/
theorem exists_alignable_of_isValid {declared : Datum}
    (h : declared.materialised.validate.isValid = true) (hslips : ¬declared.Slips) :
    ∃ rule, declared.textRule? = some rule ∧ rule.Alignable := by
  obtain ⟨elements, helements, hflaws⟩ := exists_elements?_of_isValid h
  refine (exists_textRule?_iff helements (P := fun part => ¬part.Inserts)).mpr ?_
  intro value hvalue
  have hpair : value.isPairLiteral = false := by
    rw [← Bool.not_eq_true]
    exact fun hpair => hslips ⟨h, elements, helements, value, hvalue, hpair⟩
  exact (flaws_checkItem_eq_nil_iff_built hpair).mp (hflaws value hvalue)

/-- Values of which one is no text cannot be joined. -/
theorem exists_joinTexts_eq_error {values : List Datum} {value : Datum} (h : value ∈ values)
    (htext : value.text? = none) : ∃ e, joinTexts values = .error e := by
  obtain ⟨i, hi⟩ := List.mem_iff_getElem?.mp h
  have hmem : (value, i) ∈ values.zipIdx := List.mem_zipIdx_iff_getElem?.mpr hi
  unfold joinTexts
  cases hfind : values.zipIdx.find? fun entry => entry.1.text?.isNone with
  | some entry => exact ⟨_, rfl⟩
  | none =>
    have hnone := List.find?_eq_none.mp hfind _ hmem
    simp [htext] at hnone

/-- Texts can always be aligned value by value. -/
theorem exists_alignedPairs_text (s d : Text) :
    ∃ ps, alignedPairs (text s) (text d) = .ok ps := by
  simp only [alignedPairs, measured, elements?, withElements, bind, Except.bind, pure, Except.pure]
  split
  · exact ⟨_, rfl⟩
  · split
    · exact ⟨_, rfl⟩
    · exact ⟨_, rfl⟩

theorem exists_pairs_map_text {part : Item Text} (h : ¬part.Inserts) :
    ∃ ps, (part.map text).pairs = .ok ps := by
  cases part with
  | literal s => exact ⟨_, rfl⟩
  | transform s d =>
    obtain ⟨ps, hps⟩ := exists_alignedPairs_text s d
    by_cases hs : s = ""
    · have hd : d = "" := not_not.mp fun hd => h ⟨hs, hd⟩
      exact ⟨[], by simp [Item.pairs, Item.map, isPresent, hs, hd]⟩
    · exact ⟨ps, by simp [Item.pairs, Item.map, isPresent, hs, hps, Except.mapError]⟩

/-- An item without flaws is taken and has its pairs, a literal over a pair among them. -/
theorem exists_pairs_of_flaws_eq_nil {value : Datum} (h : value.checkItem.flaws = []) :
    ∃ part, value.toItem = .ok part ∧ ∃ ps, part.pairs = .ok ps := by
  cases hpair : value.isPairLiteral with
  | false =>
    obtain ⟨texts, hbuilt, halign⟩ := (flaws_checkItem_eq_nil_iff_built hpair).mp h
    exact ⟨_, builtItem?_eq_some_iff.mp hbuilt, exists_pairs_map_text halign⟩
  | true =>
    unfold isPairLiteral at hpair
    split at hpair
    · exact ⟨_, rfl, _, rfl⟩
    · exact ⟨_, rfl, _, rfl⟩
    · cases hpair

/-- Elements that each stand for an item with a property stand for items with it. -/
theorem exists_mapM_toItem {elements : List Datum} {P : Item Datum → Prop}
    (h : ∀ value ∈ elements, ∃ part, value.toItem = .ok part ∧ P part) :
    ∃ parts, elements.mapM toItem = .ok parts ∧ (∀ part ∈ parts, P part) ∧
      ∀ part, item part ∈ elements → part ∈ parts := by
  induction elements with
  | nil => exact ⟨[], rfl, by simp, by simp⟩
  | cons element elements ih =>
    obtain ⟨⟨first, hfirst, hP⟩, hrest⟩ := List.forall_mem_cons.mp h
    obtain ⟨rest, hparts, hall, hmem⟩ := ih hrest
    refine ⟨first :: rest, ?_, List.forall_mem_cons.mpr ⟨hP, hall⟩, fun part hpart => ?_⟩
    · simp [List.mapM_cons, hfirst, hparts, bind, Except.bind, pure, Except.pure]
    · obtain rfl | hlater := List.mem_cons.mp hpart
      · cases hfirst
        exact List.mem_cons_self
      · exact List.mem_cons_of_mem first (hmem part hlater)

end Datum

/-! ### Guarded admissions -/

variable {α : Type}

/-- Whether admission either succeeds or stops at flaws and leaves the graph as it was. -/
def Admission.IsGuarded (admission : Admission α) (g : Graph α) : Prop :=
  admission.error? = none ∨
    (∃ flaws, admission.error? = some (.invalid flaws)) ∧ admission.graph = g

theorem Admission.not_isGuarded {admission : Admission α} {e : BuildError}
    (h : admission.error? = some (.build e)) (g : Graph α) : ¬admission.IsGuarded g := by
  rintro (hnone | ⟨⟨flaws, hflaws⟩, -⟩)
  · rw [h] at hnone
    cases hnone
  · rw [h] at hflaws
    cases hflaws

variable [BEq α] [Fragment α]

/-- Items with pairs are threaded, or fail at a value that cannot serve. -/
theorem Cursor.error_followItems {items : List (Item Datum)}
    (h : ∀ part ∈ items, ∃ ps, part.pairs = .ok ps) (c : Cursor α) {e : BuildError}
    (he : (c.followItems items).2 = some e) : ∃ e', e = .part e' := by
  induction items generalizing c with
  | nil => cases he
  | cons part items ih =>
    obtain ⟨hpart, hitems⟩ := List.forall_mem_cons.mp h
    obtain ⟨ps, hps⟩ := hpart
    unfold followItems at he
    rw [hps] at he
    dsimp only at he
    split at he
    · cases he
      exact ⟨_, rfl⟩
    · exact ih hitems _ he

namespace Graph

/-- Items of which one reads no text are not built to the end. -/
theorem error?_buildLoose {items : List (Item Datum)}
    (h : ∀ part ∈ items, ∃ ps, part.pairs = .ok ps) {part : Item Datum} (hpart : part ∈ items)
    (htext : part.source.text? = none) (g : Graph α) :
    ∃ e, (g.buildLoose items).error? = some (.part e) := by
  obtain ⟨e, he⟩ := Datum.exists_joinTexts_eq_error (List.mem_map_of_mem hpart) htext
  have hfollow (e : BuildError) := Cursor.error_followItems h (Cursor.atRoot g) (e := e)
  unfold buildLoose
  generalize (Cursor.atRoot g).followItems items = reached at hfollow ⊢
  obtain ⟨reached, _ | failure⟩ := reached
  · exact ⟨e, by simp only [he]⟩
  · obtain ⟨e', rfl⟩ := hfollow failure rfl
    exact ⟨e', rfl⟩

/-- A rule that slips through fails in the builder, at a value that cannot serve. -/
theorem error?_addRule_of_slips (g : Graph α) {declared : Datum} (h : declared.Slips) :
    ∃ e, (g.addRule declared).error? = some (.build (.part e)) := by
  obtain ⟨hvalid, elements, helements, value, hvalue, hpair⟩ := h
  obtain ⟨elements', helements', hflaws⟩ := Datum.exists_elements?_of_isValid hvalid
  obtain rfl : elements = elements' := Option.some.inj (helements.symm.trans helements')
  obtain ⟨parts, hparts, hpairs, hmem⟩ := Datum.exists_mapM_toItem fun value hvalue =>
    Datum.exists_pairs_of_flaws_eq_nil (hflaws value hvalue)
  obtain ⟨part, rfl, hsource, htexts⟩ := Datum.texts?_of_isPairLiteral hpair
  have hnone : parts.mapM Item.texts? = none := by
    rw [Option.eq_none_iff_forall_ne_some]
    intro texts hsome
    obtain ⟨text, htext, -⟩ := (exists_mapM_eq_some_iff (P := fun _ => True)).mp
      ⟨texts, hsome, fun _ _ => trivial⟩ part (hmem part hvalue)
    rw [htexts] at htext
    cases htext
  obtain ⟨e, he⟩ := error?_buildLoose hpairs (hmem part hvalue) hsource g
  have hitems : declared.toItems = .ok parts := by
    simp [Datum.toItems, Datum.elements, helements, hparts, bind, Except.bind]
  have hbuilt : (g.buildDeclared declared).error? = some (.part e) := by
    simp only [buildDeclared, hitems, buildItems, hnone, he]
  exact ⟨e, by simp only [addRule, hvalid, if_true, buildDeclared_materialised, hbuilt]⟩

/-- Admission builds a rule without failing or keeps it out with the graph as it was, exactly
if the rule does not slip through with a literal over a pair. -/
theorem addRule_isGuarded_iff (g : Graph α) (declared : Datum) :
    (g.addRule declared).IsGuarded g ↔ ¬declared.Slips := by
  constructor
  · intro h hslips
    obtain ⟨e, he⟩ := error?_addRule_of_slips g hslips
    exact Admission.not_isGuarded he g h
  · intro hslips
    by_cases hvalid : declared.materialised.validate.isValid = true
    · obtain ⟨rule, hrule, halign⟩ := Datum.exists_alignable_of_isValid hvalid hslips
      have hbuilt : (g.buildDeclared declared).error? = none := by
        rw [buildDeclared_of_textRule? hrule]
        exact (error?_buildRule g rule).mpr halign
      left
      simp only [addRule, hvalid, if_true, buildDeclared_materialised, hbuilt]
    · right
      simp [addRule, hvalid]

/-- A rule of one finished literal over the pair of `a` and `b`. -/
def pairLiteral : Datum := .list [.item (.literal (.tuple [.text "a", .text "b"]))]

/-- The rule of a literal over a pair passes the check and fails behind its two edges. -/
theorem not_isGuarded_addRule_pairLiteral :
    ¬((empty : Graph Text).addRule pairLiteral).IsGuarded empty ∧
      ((empty : Graph Text).addRule pairLiteral).error? =
        some (.build (.part (.notTextAt 0 "tuple"))) ∧
      ((empty : Graph Text).addRule pairLiteral).graph.stats = ⟨3, 2, 1⟩ := by
  have herror : ((empty : Graph Text).addRule pairLiteral).error? =
      some (.build (.part (.notTextAt 0 "tuple"))) := rfl
  exact ⟨Admission.not_isGuarded herror empty, herror, rfl⟩

/-! ### Rules that are all admitted -/

end Graph

/-- Whether a rule passes validation and does not slip through. -/
def Datum.IsAdmissible (declared : Datum) : Prop :=
  declared.materialised.validate.isValid = true ∧ ¬declared.Slips

/-- A valid rule over texts is admissible. -/
theorem Datum.IsTextual.isAdmissible {declared : Datum} (h : declared.IsTextual)
    (hvalid : declared.materialised.validate.isValid = true) : declared.IsAdmissible := by
  refine ⟨hvalid, ?_⟩
  rintro ⟨-, elements, helements, value, hvalue, hpair⟩
  have htext (part : Item Datum) (hpart : value = .item part) : part.texts?.isSome :=
    h elements helements part (hpart ▸ hvalue)
  rw [isPairLiteral_eq_false htext] at hpair
  cases hpair

/-- An admissible rule is one over texts that can be aligned. -/
theorem Datum.IsAdmissible.exists_alignable {declared : Datum} (h : declared.IsAdmissible) :
    ∃ rule, declared.textRule? = some rule ∧ rule.Alignable := exists_alignable_of_isValid h.1 h.2

namespace Graph

/-- Whether a rule is admitted does not depend on the graph. -/
theorem error?_addRule_eq_none_iff (g : Graph α) (declared : Datum) :
    (g.addRule declared).error? = none ↔ declared.IsAdmissible := by
  constructor
  · intro h
    constructor
    · by_contra hvalid
      simp [addRule, hvalid] at h
    · intro hslips
      obtain ⟨e, he⟩ := error?_addRule_of_slips g hslips
      rw [h] at he
      cases he
  · intro h
    obtain ⟨rule, hrule, halign⟩ := h.exists_alignable
    have hbuilt : (g.buildDeclared declared).error? = none := by
      rw [buildDeclared_of_textRule? hrule]
      exact (error?_buildRule g rule).mpr halign
    simp only [addRule, h.1, if_true, buildDeclared_materialised, hbuilt]

theorem error?_addRules_eq_none_iff (g : Graph α) (declared : List Datum) :
    (g.addRules declared).error? = none ↔ ∀ rule ∈ declared, rule.IsAdmissible := by
  induction declared generalizing g with
  | nil => simp [addRules]
  | cons first rest ih =>
    rw [List.forall_mem_cons, ← error?_addRule_eq_none_iff g first, ← ih (g.addRule first).graph,
      addRules]
    cases hfirst : (g.addRule first).error? with
    | some e => simp [hfirst]
    | none => simp

theorem exists_compile?_iff {declared : List Datum} :
    (∃ g, compile? declared = .ok g) ↔ ∀ rule ∈ declared, rule.IsAdmissible := by
  rw [← error?_addRules_eq_none_iff (empty : Graph Text)]
  simp only [compile?, compileAll]
  split
  case h_1 hnone => simp [hnone]
  case h_2 e he => simp [he]

/-- Valid rules over texts compile. -/
theorem exists_compile?_of_isValid {declared : List Datum}
    (h : ∀ rule ∈ declared, rule.materialised.validate.isValid = true ∧ rule.IsTextual) :
    ∃ g, compile? declared = .ok g := by
  apply exists_compile?_iff.mpr
  intro rule hrule
  exact (h rule hrule).2.isAdmissible (h rule hrule).1

theorem exists_textRules_of_addRules {g : Graph α} {declared : List Datum}
    (h : (g.addRules declared).error? = none) :
    ∃ rules, declared.mapM Datum.textRule? = some rules := by
  rw [error?_addRules_eq_none_iff] at h
  obtain ⟨rules, hrules, -⟩ := (exists_mapM_eq_some_iff (P := Rule.Alignable)).mpr
    fun first hfirst => (h first hfirst).exists_alignable
  exact ⟨rules, hrules⟩

/-- Compiled rules are rules over texts, threaded one after another and all completed. -/
theorem exists_threads_of_compile? {declared : List Datum} {g : Graph Text}
    (h : compile? declared = .ok g) :
    ∃ rules, declared.mapM Datum.textRule? = some rules ∧ Threads empty g rules rules := by
  have hnone : (compileAll declared : Admission Text).error? = none := by
    simp only [compile?] at h
    split at h
    case h_1 hnone => exact hnone
    case h_2 => cases h
  obtain ⟨rules, hrules⟩ := exists_textRules_of_addRules hnone
  exact ⟨rules, hrules, threads_of_compile? h hrules⟩

/-- Rules compile to a graph if all are admissible and it is that of the rules over texts that
they declare. -/
theorem compile?_eq_ok_iff {declared : List Datum} {g : Graph Text} :
    compile? declared = .ok g ↔
      (∀ rule ∈ declared, rule.IsAdmissible) ∧
        ∃ rules, declared.mapM Datum.textRule? = some rules ∧ g = empty.buildRules rules := by
  constructor
  · intro hcompile
    obtain ⟨rules, hrules, hg⟩ := exists_threads_of_compile? hcompile
    exact ⟨exists_compile?_iff.mp ⟨g, hcompile⟩, rules, hrules, hg.graph⟩
  · rintro ⟨hadmissible, rules, hrules, rfl⟩
    obtain ⟨g, hcompile⟩ := exists_compile?_iff.mpr hadmissible
    rw [hcompile, (threads_of_compile? hcompile hrules).graph]

/-- The rules over texts that compiled rules declare are read off one by one. -/
theorem compile?_eq_ok_iff_filterMap {declared : List Datum} {g : Graph Text} :
    compile? declared = .ok g ↔
      (∀ rule ∈ declared, rule.IsAdmissible) ∧
        g = empty.buildRules (declared.filterMap Datum.textRule?) := by
  rw [compile?_eq_ok_iff]
  refine and_congr_right fun hadmissible => ?_
  obtain ⟨_, hcompile⟩ := exists_compile?_iff.mpr hadmissible
  obtain ⟨rules, hrules, -⟩ := exists_threads_of_compile? hcompile
  rw [← eq_filterMap_of_mapM hrules]
  constructor
  · rintro ⟨rules', hrules', hg⟩
    rwa [Option.some.inj (hrules.symm.trans hrules')]
  · intro hg
    exact ⟨rules, hrules, hg⟩

end Graph

end RuleTransducer
