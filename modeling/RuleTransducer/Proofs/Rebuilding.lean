import RuleTransducer.Proofs.RawForm
import RuleTransducer.Proofs.Registry

/-! Stored rules. A session keeps its rules in raw form. The raw form of a run of elements has the
same elements, and that of a finished rule over texts stands for the same items, so nothing that
compiling looks at is lost: the stored rules and the rules as they were given both compile, to the
graph of the session. -/

namespace RuleTransducer

namespace Datum

/-- Whether the finished rules among a value's elements are over texts. -/
def HoldsTextRules (rules : Datum) : Prop :=
  ∀ elements, rules.elements? = some elements →
    ∀ items, rule items ∈ elements → ∀ part ∈ items, part.texts?.isSome

theorem isTextual_rule_iff {items : List (Item Datum)} :
    (rule items).IsTextual ↔ ∀ part ∈ items, part.texts?.isSome := by
  simp [IsTextual, elements?]

/-- A value whose raw form is over texts is over texts itself, unless it is a finished rule. -/
theorem IsTextual.of_rawRule {declared raw : Datum} (hraw : declared.rawRule = .ok raw)
    (hrule : ∀ items, declared ≠ rule items) (h : raw.IsTextual) : declared.IsTextual := by
  unfold rawRule at hraw
  split at hraw
  case h_1 items => exact absurd rfl (hrule items)
  case h_2 s =>
    cases hraw
    exact h
  case h_3 =>
    intro elements helements part hpart
    simp only [Datum.elements, helements, Except.map, Except.ok.injEq] at hraw
    rw [← hraw] at h
    exact h elements rfl part hpart

/-- Where raw forms are admissible, the values they come from are over texts, if the finished rules
among them are. -/
theorem isTextual_of_rawRules {elements raw : List Datum} (hraw : elements.mapM rawRule = .ok raw)
    (hadmissible : ∀ rawForm ∈ raw, rawForm.IsAdmissible)
    (h : ∀ items, rule items ∈ elements → ∀ part ∈ items, part.texts?.isSome) :
    ∀ declared ∈ elements, declared.IsTextual := by
  rw [mapM_eq_ok_iff_forall₂] at hraw
  induction hraw with
  | nil => exact fun declared hdeclared => absurd hdeclared List.not_mem_nil
  | @cons first rawForm elements raw hfirst hrest ih =>
    obtain ⟨hform, hforms⟩ := List.forall_mem_cons.mp hadmissible
    refine List.forall_mem_cons.mpr ⟨?_, ih hforms fun items hitems =>
      h items (List.mem_cons_of_mem first hitems)⟩
    by_cases hrule : ∃ items, first = rule items
    · obtain ⟨items, rfl⟩ := hrule
      exact isTextual_rule_iff.mpr (h items List.mem_cons_self)
    · exact .of_rawRule hfirst (fun items heq => hrule ⟨items, heq⟩) hform.isTextual

end Datum

/-- Compiling the elements of a list is compiling the list. -/
theorem compile_list_of_compile? {rules : List Datum} {g : Graph Text}
    (h : compile? rules = .ok g) :
    (compile (.list rules) : Admission Text).error? = none ∧
      (compile (.list rules) : Admission Text).graph = g := by
  have hlist : (compile (.list rules) : Admission Text) = compileAll rules := rfl
  rw [hlist]
  simp only [compile?] at h
  split at h
  case h_1 hnone => exact ⟨hnone, Except.ok.inj h⟩
  case h_2 => cases h

namespace Registry

/-- The stored rules of a session that is created compile, and so do the rules that it was created
for, if the finished rules among them are over texts. Both give the session's graph, with the same
vertices and the same edges in the same order. -/
theorem compile_rules_of_create {r : Registry} {rules : Datum} {name : Option String}
    {fresh : ℕ → String} {session : Session} (hcreate : (r.create rules name fresh).2 = .ok session)
    (htext : rules.HoldsTextRules) :
    let stored : Admission Text := compile (.list session.rules)
    let given : Admission Text := compile rules
    (stored.error? = none ∧ stored.graph = session.graph) ∧
      given.error? = none ∧ given.graph = session.graph := by
  intro stored given
  obtain ⟨e, he⟩ | ⟨raw, graph, hraw, hgraph, hcreated⟩ := create_cases fresh r rules name
  · rw [he] at hcreate
    cases hcreate
  rw [hcreated] at hcreate
  obtain rfl := Except.ok.inj hcreate
  obtain ⟨hgiven, hcompiles⟩ := compile_of_rawRules hraw hgraph
  have hnone : given.error? = none := by
    apply hcompiles
    intro elements helements
    have hmapM : elements.mapM Datum.rawRule = .ok raw := by
      simpa only [Datum.rawRules, Datum.elements, helements, bind, Except.bind] using hraw
    exact Datum.isTextual_of_rawRules hmapM (Graph.exists_compile?_iff.mp ⟨graph, hgraph⟩)
      (htext elements helements)
  exact ⟨compile_list_of_compile? hgraph, hnone, hgiven hnone⟩

/-- A one-shot sequence of rules in every shape: a finished rule, a list, a tuple, a dict, whose
names are its items, and another one-shot sequence. -/
def shapedRules : Datum :=
  .generator 0
    [.rule [.literal (.text "a"), .transform (.text "b") (.text "x")],
      .list [.text "a", .tuple [.text "b", .text "y"]],
      .tuple [.item (.transform (.text "a") (.text "")), .list [.text "c", .text "zz"]],
      .dict [("a", .int 1), ("b", .null)],
      .generator 1 [.text "a", .text "b"]]

theorem compile_rules_of_create_shapedRules :
    ∃ session, (empty.create shapedRules none).2 = .ok session ∧ shapedRules.HoldsTextRules ∧
      (compile (.list session.rules) : Admission Text).graph = session.graph ∧
      (compile shapedRules : Admission Text).graph = session.graph := by
  have htext : shapedRules.HoldsTextRules := by
    intro elements helements items hitems
    cases helements
    simp only [List.mem_cons, List.not_mem_nil, reduceCtorEq, Datum.rule.injEq, or_false] at hitems
    subst hitems
    decide
  obtain ⟨session, hsession⟩ : ∃ session, (empty.create shapedRules none).2 = .ok session :=
    ⟨_, rfl⟩
  obtain ⟨⟨-, hstored⟩, -, hgiven⟩ := compile_rules_of_create hsession htext
  exact ⟨session, hsession, htext, hstored, hgiven⟩

end Registry

end RuleTransducer
