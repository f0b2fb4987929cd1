import RuleTransducer.Compilation
import RuleTransducer.Proofs.Chain
import RuleTransducer.Proofs.Elementwise
import RuleTransducer.Proofs.Plan

/-! Registering rules. A rule whose finished items are over texts either declares no items,
and then building it changes nothing, or it is a rule over texts, and then building it
threads its plan and succeeds if the rule can be aligned. So whatever calls register rules,
validated or not, one by one or many, and whichever of them fail, the graph is that of a
list of rules threaded one after another, and the completed rules are those of the list that
can be aligned. -/

namespace RuleTransducer

namespace Datum

/-- The rule over texts that a value declares. -/
def textRule? (declared : Datum) : Option Rule :=
  match declared.toItems with
  | .ok items => (items.mapM Item.texts?).map Rule.mk
  | .error _ => none

/-- Whether the finished items among a value's elements are over texts. -/
def IsTextual (declared : Datum) : Prop :=
  ∀ elements, declared.elements? = some elements →
    ∀ part, item part ∈ elements → part.texts?.isSome

theorem texts?_of_toItem {element : Datum} {part : Item Datum} (h : element.toItem = .ok part)
    (htext : ∀ part, element = item part → part.texts?.isSome) : part.texts?.isSome := by
  unfold toItem at h
  split at h
  case h_1 =>
    cases h
    exact htext part rfl
  case h_5 => cases h
  all_goals
    cases h
    rfl

/-- The items that values stand for are over texts if the finished ones among the values are. -/
theorem isSome_mapM_texts? {elements : List Datum} {items : List (Item Datum)}
    (h : elements.mapM toItem = .ok items)
    (htext : ∀ part, item part ∈ elements → part.texts?.isSome) :
    (items.mapM Item.texts?).isSome := by
  rw [mapM_eq_ok_iff_forall₂] at h
  induction h with
  | nil => rfl
  | @cons element part _ _ hpart _ ih =>
    obtain ⟨first, hfirst⟩ := Option.isSome_iff_exists.mp
      (texts?_of_toItem hpart fun part heq => htext part (heq ▸ List.mem_cons_self))
    obtain ⟨rest, hrest⟩ := Option.isSome_iff_exists.mp
      (ih fun part hmem => htext part (List.mem_cons_of_mem element hmem))
    simp [List.mapM_cons, hfirst, hrest]

/-- A textual value declares no items or a rule over texts. -/
theorem IsTextual.cases {declared : Datum} (h : declared.IsTextual) :
    (∃ e, declared.toItems = .error e) ∨ ∃ rule, declared.textRule? = some rule := by
  cases hitems : declared.toItems with
  | error e => exact .inl ⟨e, rfl⟩
  | ok items =>
    right
    unfold toItems elements at hitems
    cases helements : declared.elements? with
    | none => simp [helements, bind, Except.bind] at hitems
    | some elements =>
      simp only [helements, bind, Except.bind] at hitems
      obtain ⟨texts, htexts⟩ := Option.isSome_iff_exists.mp
        (isSome_mapM_texts? hitems (h elements helements))
      refine ⟨⟨texts⟩, ?_⟩
      simp [textRule?, toItems, Datum.elements, helements, hitems, htexts, bind, Except.bind]

theorem toItems_materialised (declared : Datum) :
    declared.materialised.toItems = declared.toItems := by
  cases declared <;> rfl

end Datum

namespace Graph

variable {α : Type} [BEq α] [Fragment α]

theorem buildDeclared_of_error {declared : Datum} {e : DeclarationError}
    (h : declared.toItems = .error e) (g : Graph α) :
    (g.buildDeclared declared).graph = g ∧ (g.buildDeclared declared).error?.isSome := by
  simp [buildDeclared, h]

theorem buildDeclared_of_textRule? {declared : Datum} {rule : Rule}
    (h : declared.textRule? = some rule) (g : Graph α) :
    g.buildDeclared declared = g.buildRule rule := by
  unfold Datum.textRule? at h
  split at h
  case h_1 items hitems =>
    obtain ⟨texts, htexts, rfl⟩ := Option.map_eq_some_iff.mp h
    simp [buildDeclared, hitems, buildItems, htexts]
  case h_2 => cases h

theorem error?_buildRule (g : Graph α) (rule : Rule) :
    (g.buildRule rule).error? = none ↔ rule.Alignable := by
  rw [← Rule.plan_snd_eq_none_iff]
  exact Option.map_eq_none_iff

theorem buildDeclared_materialised (g : Graph α) (declared : Datum) :
    g.buildDeclared declared.materialised = g.buildDeclared declared := by
  rw [buildDeclared, buildDeclared, Datum.toItems_materialised]

/-- Validation either keeps a rule out or lets it be built. -/
theorem addRule_cases (g : Graph α) (declared : Datum) :
    ((g.addRule declared).graph = g ∧ (g.addRule declared).error?.isSome) ∨
      ((g.addRule declared).graph = (g.buildDeclared declared).graph ∧
        ((g.addRule declared).error? = none ↔ (g.buildDeclared declared).error? = none)) := by
  simp only [addRule, buildDeclared_materialised]
  split
  case isTrue =>
    right
    split <;> simp_all
  case isFalse => simp

/-! ### Threads -/

/-- One graph reached from another by threading rules, of which those that can be aligned are
completed. -/
structure Threads (g g' : Graph α) (rules completed : List Rule) : Prop where
  graph : g' = g.buildRules rules
  completed : ∀ rule, rule ∈ completed ↔ rule ∈ rules ∧ rule.Alignable

theorem Threads.refl (g : Graph α) : Threads g g [] [] := ⟨rfl, by simp⟩

theorem Threads.trans {g g' g'' : Graph α} {rules completed later laterCompleted : List Rule}
    (h : Threads g g' rules completed) (h' : Threads g' g'' later laterCompleted) :
    Threads g g'' (rules ++ later) (completed ++ laterCompleted) := by
  refine ⟨by rw [h'.graph, h.graph, buildRules_append], fun rule => ?_⟩
  rw [List.mem_append, List.mem_append, h.completed, h'.completed, or_and_right]

theorem Threads.root {g g' : Graph α} {rules completed : List Rule}
    (h : Threads g g' rules completed) : g'.root = g.root := by
  rw [h.graph]
  exact (grows_buildRules g rules).root

theorem Threads.alignable {g g' : Graph α} {rules : List Rule} (h : Threads g g' rules rules)
    {rule : Rule} (hrule : rule ∈ rules) : rule.Alignable := ((h.completed rule).mp hrule).2

theorem threads_buildRule (g : Graph α) {rule : Rule} (h : rule.Alignable) :
    Threads g (g.buildRule rule).graph [rule] [rule] := by
  refine ⟨rfl, fun other => ?_⟩
  rw [List.mem_singleton, iff_self_and]
  rintro rfl
  exact h

end Graph

/-! ### Runs of calls -/

/-- A call that registers rules. -/
inductive Registration
  /-- One rule, if it is valid. -/
  | add (declared : Datum)
  /-- One rule, without validation. -/
  | build (declared : Datum)
  /-- Every element of a value as a rule, without validation. -/
  | buildEach (rules : Datum)

/-- Whether the rules of a call are over texts. -/
def Registration.IsTextual : Registration → Prop
  | add declared => declared.IsTextual
  | build declared => declared.IsTextual
  | buildEach rules =>
    ∀ elements, rules.elements? = some elements → ∀ declared ∈ elements, declared.IsTextual

namespace Graph

variable {α : Type} [BEq α] [Fragment α]

/-- The rules that are completed when declared rules are built in order: those before the
first that fails. -/
def completed (g : Graph α) : List Datum → List Rule
  | [] => []
  | declared :: rest =>
    let built := g.buildDeclared declared
    match built.error? with
    | some _ => []
    | none => declared.textRule?.toList ++ built.graph.completed rest

/-- The graph after a call, and the rules that the call completed. -/
def register (g : Graph α) : Registration → Graph α × List Rule
  | .add declared =>
    let admission := g.addRule declared
    (admission.graph, if admission.error? = none then declared.textRule?.toList else [])
  | .build declared =>
    let built := g.buildDeclared declared
    (built.graph, if built.error? = none then declared.textRule?.toList else [])
  | .buildEach rules => ((g.buildEach rules).1, (rules.elements?.map g.completed).getD [])

/-- The graph after a run of calls, whether they fail or not, and the rules completed. -/
def registerAll (g : Graph α) : List Registration → Graph α × List Rule
  | [] => (g, [])
  | call :: rest =>
    let (g, completed) := g.register call
    let (g, later) := g.registerAll rest
    (g, completed ++ later)

/-! ### What calls thread -/

/-- A textual value that is built threads a rule and completes it if it can be aligned, or it
fails and threads none. -/
theorem buildDeclared_cases (g : Graph α) {declared : Datum} (h : declared.IsTextual) :
    ((g.buildDeclared declared).error? = none ∧ ∃ rule, declared.textRule? = some rule ∧
        Threads g (g.buildDeclared declared).graph [rule] [rule]) ∨
      ((g.buildDeclared declared).error? ≠ none ∧
        ∃ rules, Threads g (g.buildDeclared declared).graph rules []) := by
  obtain ⟨e, he⟩ | ⟨rule, hrule⟩ := h.cases
  · obtain ⟨hgraph, herror⟩ := buildDeclared_of_error he g
    refine .inr ⟨Option.isSome_iff_ne_none.mp herror, [], ?_⟩
    rw [hgraph]
    exact Threads.refl g
  · rw [buildDeclared_of_textRule? hrule]
    by_cases halign : rule.Alignable
    · exact .inl ⟨(error?_buildRule g rule).mpr halign, rule, hrule, threads_buildRule g halign⟩
    · refine .inr ⟨mt (error?_buildRule g rule).mp halign, [rule], rfl, fun other => ?_⟩
      rw [List.mem_singleton]
      refine ⟨fun hmem => absurd hmem List.not_mem_nil, ?_⟩
      rintro ⟨rfl, hother⟩
      exact absurd hother halign

theorem exists_threads_buildAll (g : Graph α) {elements : List Datum}
    (h : ∀ declared ∈ elements, declared.IsTextual) :
    ∃ rules, Threads g (g.buildAll elements).1 rules (g.completed elements) := by
  induction elements generalizing g with
  | nil => exact ⟨[], Threads.refl g⟩
  | cons declared rest ih =>
    obtain ⟨hdeclared, hrest⟩ := List.forall_mem_cons.mp h
    obtain ⟨hnone, rule, hrule, hthreads⟩ | ⟨hsome, rules, hthreads⟩ :=
      buildDeclared_cases g hdeclared
    · obtain ⟨later, hlater⟩ := ih (g.buildDeclared declared).graph hrest
      refine ⟨[rule] ++ later, ?_⟩
      simp only [buildAll, completed, hnone, hrule, Option.toList_some]
      exact hthreads.trans hlater
    · obtain ⟨e, he⟩ := Option.ne_none_iff_exists'.mp hsome
      refine ⟨rules, ?_⟩
      simp only [buildAll, completed, he]
      exact hthreads

theorem exists_threads_buildDeclared (g : Graph α) {declared : Datum} (h : declared.IsTextual) :
    ∃ rules, Threads g (g.buildDeclared declared).graph rules
      (if (g.buildDeclared declared).error? = none then declared.textRule?.toList else []) := by
  obtain ⟨hnone, rule, hrule, hthreads⟩ | ⟨hsome, rules, hthreads⟩ := buildDeclared_cases g h
  · rw [if_pos hnone, hrule]
    exact ⟨[rule], hthreads⟩
  · rw [if_neg hsome]
    exact ⟨rules, hthreads⟩

theorem exists_threads_addRule (g : Graph α) {declared : Datum} (h : declared.IsTextual) :
    ∃ rules, Threads g (g.addRule declared).graph rules
      (if (g.addRule declared).error? = none then declared.textRule?.toList else []) := by
  obtain ⟨hgraph, herror⟩ | ⟨hgraph, herror⟩ := addRule_cases g declared
  · rw [hgraph, if_neg (Option.isSome_iff_ne_none.mp herror)]
    exact ⟨[], Threads.refl g⟩
  · rw [hgraph, if_congr herror rfl rfl]
    exact exists_threads_buildDeclared g h

/-- Every call threads rules. -/
theorem exists_threads_register (g : Graph α) {call : Registration} (h : call.IsTextual) :
    ∃ rules, Threads g (g.register call).1 rules (g.register call).2 := by
  cases call with
  | add declared => exact exists_threads_addRule g h
  | build declared => exact exists_threads_buildDeclared g h
  | buildEach rules =>
    simp only [register, buildEach, Datum.elements]
    cases helements : rules.elements? with
    | none => exact ⟨[], Threads.refl g⟩
    | some elements => exact exists_threads_buildAll g (h elements helements)

/-- Every run of calls threads rules. -/
theorem exists_threads_registerAll (g : Graph α) {calls : List Registration}
    (h : ∀ call ∈ calls, call.IsTextual) :
    ∃ rules, Threads g (g.registerAll calls).1 rules (g.registerAll calls).2 := by
  induction calls generalizing g with
  | nil => exact ⟨[], Threads.refl g⟩
  | cons call rest ih =>
    obtain ⟨hcall, hrest⟩ := List.forall_mem_cons.mp h
    obtain ⟨rules, hrules⟩ := exists_threads_register g hcall
    obtain ⟨later, hlater⟩ := ih (g.register call).1 hrest
    exact ⟨rules ++ later, hrules.trans hlater⟩

/-! ### Compiling -/

/-- Rules over texts that are all admitted are threaded and completed. -/
theorem threads_addRules {g : Graph α} {declared : List Datum} {rules : List Rule}
    (hrules : declared.mapM Datum.textRule? = some rules)
    (hnone : (g.addRules declared).error? = none) :
    Threads g (g.addRules declared).graph rules rules := by
  induction declared generalizing g rules with
  | nil =>
    cases hrules
    exact Threads.refl g
  | cons first rest ih =>
    obtain ⟨rule, hrule, later, hlater, rfl⟩ := mapM_cons_eq_some_iff.mp hrules
    rw [addRules] at hnone ⊢
    cases hfirst : (g.addRule first).error? with
    | some e => simp [hfirst] at hnone
    | none =>
      simp only [hfirst] at hnone ⊢
      obtain ⟨-, herror⟩ | ⟨hgraph, herror⟩ := addRule_cases g first
      · exact absurd hfirst (Option.isSome_iff_ne_none.mp herror)
      · rw [buildDeclared_of_textRule? hrule] at hgraph herror
        have halign : rule.Alignable := (error?_buildRule g rule).mp (herror.mp hfirst)
        have hthreads := threads_buildRule g halign
        rw [← hgraph] at hthreads
        exact hthreads.trans (ih hlater hnone)

/-- The graph of compiled rules over texts is that of the rules threaded one after another,
and all of them can be aligned. -/
theorem threads_of_compile? {declared : List Datum} {rules : List Rule} {g : Graph Text}
    (hcompile : compile? declared = .ok g)
    (hrules : declared.mapM Datum.textRule? = some rules) : Threads empty g rules rules := by
  simp only [compile?, compileAll] at hcompile
  split at hcompile
  case h_1 hnone =>
    cases hcompile
    exact threads_addRules hrules hnone
  case h_2 => cases hcompile

end Graph

end RuleTransducer
