import RuleTransducer.Proofs.Registration

/-! Recognition. A compiled graph accepts a text if it is the input of a rule that can be
aligned and closes. The last edge of an accepting path ends on a terminal vertex, so it
belongs to the closing step of some rule; it has read the whole text, and that step has read
the whole input of its rule. -/

namespace RuleTransducer.Graph

open RuleTransducer.Alignment

/-- The last edge of an accepting path closes a rule whose input is the text. -/
theorem exists_rule_of_accepts {rules : List Rule} {input : List CodePoint} {p : List (Edge Text)}
    (h : (empty.buildRules rules).Accepts .root input p) :
    ∃ rule ∈ rules, rule.Alignable ∧ rule.closes ∧ rule.inputText.toList = input := by
  have hchain := eq_chain_of_accepts (fun e he => layered_buildRules he) h
  have hinput : (input.zip (emitted p)).map Prod.fst = input :=
    List.map_fst_zip (Nat.le_of_eq (length_emitted_of_accepts h).symm)
  cases hps : input.zip (emitted p) using List.reverseRecOn with
  | nil =>
    -- the root is not terminal, so a path reads something
    rw [hps] at hchain hinput
    subst hchain hinput
    exact absurd h Bool.false_ne_true
  | append_singleton qs q =>
    rw [hps] at hchain hinput
    have hclose := onlyLastCloses_closeLast (qs ++ [q])
    have hlast : (closeLast (qs ++ [q]))[qs.length]? = some ⟨q.1, q.2, true⟩ := by
      simp [getElem?_closeLast]
    have hmem : link .root "" ((closeLast (qs ++ [q])).take qs.length) ⟨q.1, q.2, true⟩ ∈ p := by
      rw [hchain]
      exact mem_chain_iff.mpr ⟨_, _, hlast, rfl⟩
    obtain ⟨rule, hrule, hlink⟩ := mem_edges_empty_buildRules.mp (mem_edges_of_accepts h hmem)
    obtain ⟨step, hstep, hread, -, -, hclosing⟩ :=
      (link_mem_chain_iff hclose rule.onlyLastCloses_plan hlast).mp hlink
    obtain ⟨halign, hcloses, hplan, hlength⟩ := Rule.plan_of_closing hstep hclosing.symm
    refine ⟨rule, hrule, halign, hcloses, ?_⟩
    have hwhole : (closeLast (qs ++ [q])).length ≤ qs.length + 1 := by
      simp [length_closeLast]
    rw [List.take_of_length_le hwhole, map_input_closeLast, hinput, hplan, hlength,
      List.take_length, Rule.map_input_steps] at hread
    exact hread.symm

/-- A compiled graph accepts the inputs of its rules that can be aligned and close. -/
theorem canParse_buildRules_iff (rules : List Rule) (text : Text) :
    (empty.buildRules rules : Graph Text).canParse text = true ↔
      ∃ rule ∈ rules, rule.Alignable ∧ rule.closes ∧ rule.inputText = text := by
  have hroot : (empty.buildRules rules : Graph Text).root = .root :=
    (grows_buildRules empty rules).root
  rw [canParse_iff, hroot]
  constructor
  · rintro ⟨p, hp⟩
    obtain ⟨rule, hrule, halign, hcloses, hinput⟩ := exists_rule_of_accepts hp
    exact ⟨rule, hrule, halign, hcloses, Text.toList_inj.mp hinput⟩
  · rintro ⟨rule, hrule, halign, hcloses, rfl⟩
    exact ⟨_, accepts_chain_plan halign hcloses fun e he =>
      mem_edges_empty_buildRules.mpr ⟨rule, hrule, he⟩⟩

/-- After any run of calls that register rules over texts, failed calls among them, the graph
accepts a text exactly if the text is the input of a completed rule whose last item reads. -/
theorem canParse_registerAll_iff (calls : List Registration) (h : ∀ call ∈ calls, call.IsTextual)
    (text : Text) :
    ((empty : Graph Text).registerAll calls).1.canParse text = true ↔
      ∃ rule ∈ ((empty : Graph Text).registerAll calls).2,
        rule.inputText = text ∧ rule.closes = true := by
  obtain ⟨rules, hthreads⟩ := exists_threads_registerAll (empty : Graph Text) h
  rw [hthreads.graph, canParse_buildRules_iff]
  constructor
  · rintro ⟨rule, hrule, halign, hcloses, htext⟩
    exact ⟨rule, (hthreads.completed rule).mpr ⟨hrule, halign⟩, htext, hcloses⟩
  · rintro ⟨rule, hcompleted, htext, hcloses⟩
    obtain ⟨hrule, halign⟩ := (hthreads.completed rule).mp hcompleted
    exact ⟨rule, hrule, halign, hcloses, htext⟩

/-- Calls of every kind, among them a rule that stops behind its first edge and a value that
declares no rule. -/
def mixedCalls : List Registration :=
  [.add (.list [.text "a", .tuple [.text "b", .text "xy"]]),
    .build (.list [.text "c", .tuple [.text "", .text "z"]]),
    .buildEach (.list [.list [.text "c", .text ""], .list [.int 3], .list [.text "d"]])]

theorem canParse_registerAll_mixedCalls :
    ((empty : Graph Text).registerAll mixedCalls).1.canParse "ab" = true ∧
      ((empty : Graph Text).registerAll mixedCalls).1.canParse "c" = false := by
  have h : ∀ call ∈ mixedCalls, call.IsTextual := by
    simp [mixedCalls, Registration.IsTextual, Datum.IsTextual, Datum.elements?]
  refine ⟨(canParse_registerAll_iff mixedCalls h "ab").mpr (by decide), ?_⟩
  rw [← Bool.not_eq_true, canParse_registerAll_iff mixedCalls h "c"]
  decide

end RuleTransducer.Graph
