import RuleTransducer.Graph.Threading
import RuleTransducer.Proofs.Alignment

/-! The plan of a rule. A rule none of whose items emits without reading has the steps of
its items one after another, and the last of them closes if it is a step of the last item.
Any other rule has only the steps of the items before the first insertion, and closes
nothing. The steps of a rule read its input and emit its output. -/

namespace RuleTransducer

namespace Rule

open RuleTransducer.Alignment

/-- The pairs of code point and fragment of a rule, item after item. -/
def pairs (rule : Rule) : List (CodePoint × Text) := rule.items.flatMap Item.aligned

/-- What a rule emits, one fragment for each code point that it reads. -/
def fragments (rule : Rule) : List Text := rule.pairs.map Prod.snd

/-- Whether the last item of a rule reads at least one code point. -/
def closes (rule : Rule) : Bool := rule.items.getLast?.any fun item => !item.source.isEmpty

/-- Whether every item of a rule can be aligned. -/
def Alignable (rule : Rule) : Prop := ∀ item ∈ rule.items, ¬item.Inserts

/-- The steps of a rule that can be aligned. -/
def steps (rule : Rule) : List Step :=
  if rule.closes then closeLast rule.pairs else openAll rule.pairs

/-! ### Pairs of a rule -/

theorem pairs_cons (item : Item Text) (rest : List (Item Text)) :
    pairs ⟨item :: rest⟩ = item.aligned ++ pairs ⟨rest⟩ := List.flatMap_cons

/-- A rule reads its input. -/
theorem map_fst_pairs (rule : Rule) : rule.pairs.map Prod.fst = rule.inputText.toList := by
  rw [pairs, inputText, Text.toList_join, List.map_flatMap, List.flatMap_map]
  exact congrArg rule.items.flatMap (funext Item.map_fst_aligned)

/-- A rule that can be aligned emits its output. -/
theorem join_fragments {rule : Rule} (h : rule.Alignable) :
    Text.join rule.fragments = rule.outputText := by
  obtain ⟨items⟩ := rule
  simp only [fragments, outputText]
  induction items with
  | nil => rfl
  | cons item items ih =>
    rw [pairs_cons, List.map_append, Text.join_append, List.map_cons, Text.join_cons,
      Item.join_map_snd_aligned (h item List.mem_cons_self),
      ih fun later hlater => h later (List.mem_cons_of_mem item hlater)]

theorem length_pairs (rule : Rule) : rule.pairs.length = rule.inputText.toList.length := by
  rw [← map_fst_pairs, List.length_map]

theorem length_fragments (rule : Rule) : rule.fragments.length = rule.inputText.toList.length := by
  rw [fragments, List.length_map, length_pairs]

theorem closes_cons_cons (item next : Item Text) (rest : List (Item Text)) :
    closes ⟨item :: next :: rest⟩ = closes ⟨next :: rest⟩ := by
  rw [closes, closes, List.getLast?_cons_cons]

/-- A rule that closes has a step to close. -/
theorem pairs_ne_nil_of_closes {rule : Rule} (h : rule.closes) : rule.pairs ≠ [] := by
  obtain ⟨last, hlast, hreads⟩ := (Option.any_eq_true _ _).mp h
  intro hnil
  have haligned : last.aligned = [] :=
    List.flatMap_eq_nil_iff.mp hnil last (List.mem_of_getLast? hlast)
  simp [Item.aligned_eq_nil_iff.mp haligned] at hreads

/-! ### Plans -/

theorem planItems_cons {item : Item Text} (h : ¬item.Inserts) {rest : List (Item Text)}
    (hrest : rest ≠ []) :
    planItems (item :: rest) =
      (openAll item.aligned ++ (planItems rest).1, (planItems rest).2) := by
  cases rest with
  | nil => exact absurd rfl hrest
  | cons next rest => simp [planItems, Item.steps_of_not_inserts h]

/-- A rule that can be aligned is planned in full. -/
theorem plan_of_alignable {rule : Rule} (h : rule.Alignable) : rule.plan = (rule.steps, none) := by
  obtain ⟨items⟩ := rule
  simp only [plan]
  induction items with
  | nil => rfl
  | cons item items ih =>
    have hitem : ¬item.Inserts := h item List.mem_cons_self
    cases items with
    | nil =>
      simp only [planItems, Item.steps_of_not_inserts hitem, steps, closes, pairs_cons]
      by_cases hs : item.source = ""
      · simp [hs, Item.aligned_eq_nil_iff.mpr hs, closeLast, pairs]
      · simp [hs, pairs]
    | cons next items =>
      rw [planItems_cons hitem (List.cons_ne_nil next items),
        ih fun later hlater => h later (List.mem_cons_of_mem item hlater)]
      simp only [steps, closes_cons_cons, pairs_cons item]
      split
      case isTrue hcloses => rw [closeLast_append _ (pairs_ne_nil_of_closes hcloses)]
      case isFalse => rw [openAll_append]

/-- The plan of a rule ends where its first insertion stands. -/
theorem plan_of_insertion {before : List (Item Text)} (hbefore : ∀ item ∈ before, ¬item.Inserts)
    {item : Item Text} (hitem : item.Inserts) (after : List (Item Text)) :
    plan ⟨before ++ item :: after⟩ =
      (openAll (before.flatMap Item.aligned), some ⟨item.destination⟩) := by
  simp only [plan]
  induction before with
  | nil => cases after <;> simp [planItems, Item.steps_of_inserts hitem]
  | cons first before ih =>
    rw [List.cons_append, planItems_cons (hbefore first List.mem_cons_self) (by simp),
      ih fun later hlater => hbefore later (List.mem_cons_of_mem first hlater),
      List.flatMap_cons, openAll_append]

/-- A rule that cannot be aligned has a first insertion. -/
theorem exists_insertion {rule : Rule} (h : ¬rule.Alignable) :
    ∃ before item after, rule.items = before ++ item :: after ∧
      (∀ earlier ∈ before, ¬earlier.Inserts) ∧ item.Inserts := by
  obtain ⟨items⟩ := rule
  induction items with
  | nil => exact absurd (fun item hitem => absurd hitem List.not_mem_nil) h
  | cons first items ih =>
    by_cases hfirst : first.Inserts
    · exact ⟨[], first, items, rfl, fun item hitem => absurd hitem List.not_mem_nil, hfirst⟩
    · have hrest : ¬Alignable ⟨items⟩ := fun hrest => h (List.forall_mem_cons.mpr ⟨hfirst, hrest⟩)
      obtain ⟨before, item, after, hitems, hbefore, hitem⟩ := ih hrest
      exact ⟨first :: before, item, after, congrArg (first :: ·) hitems,
        List.forall_mem_cons.mpr ⟨hfirst, hbefore⟩, hitem⟩

theorem plan_snd_eq_none_iff {rule : Rule} : rule.plan.2 = none ↔ rule.Alignable := by
  constructor
  · intro hplan
    by_contra h
    obtain ⟨before, item, after, hitems, hbefore, hitem⟩ := exists_insertion h
    obtain ⟨items⟩ := rule
    subst hitems
    simp [plan_of_insertion hbefore hitem] at hplan
  · intro h
    rw [plan_of_alignable h]

/-- A plan is the steps of a rule that can be aligned, or it closes nothing. -/
theorem plan_fst_cases (rule : Rule) :
    (rule.Alignable ∧ rule.plan.1 = rule.steps) ∨
      (¬rule.Alignable ∧ ∃ ps, rule.plan.1 = openAll ps) := by
  by_cases h : rule.Alignable
  · exact .inl ⟨h, by rw [plan_of_alignable h]⟩
  · obtain ⟨before, item, after, hitems, hbefore, hitem⟩ := exists_insertion h
    obtain ⟨items⟩ := rule
    subst hitems
    exact .inr ⟨h, before.flatMap Item.aligned, by rw [plan_of_insertion hbefore hitem]⟩

/-- The last step of a rule closes if the rule does, and no other step closes. -/
theorem getElem?_steps (rule : Rule) (i : ℕ) :
    rule.steps[i]? = rule.pairs[i]?.map fun p =>
      ⟨p.1, p.2, rule.closes && decide (i + 1 = rule.pairs.length)⟩ := by
  unfold steps
  split
  case isTrue h => simp [getElem?_closeLast, h]
  case isFalse h => simp [getElem?_openAll, h]

theorem map_input_steps (rule : Rule) : rule.steps.map Step.input = rule.inputText.toList := by
  rw [← map_fst_pairs, steps]
  split <;> simp

/-- The steps up to one of them read a beginning of the rule's input. -/
theorem map_input_take_steps {rule : Rule} {i : ℕ} {step : Step} (h : rule.steps[i]? = some step) :
    (rule.steps.take i ++ [step]).map Step.input = rule.inputText.toList.take (i + 1) := by
  rw [← map_input_steps, ← List.map_take, List.take_add_one, h]
  rfl

theorem map_output_steps (rule : Rule) : rule.steps.map Step.output = rule.fragments := by
  rw [fragments, steps]
  split <;> simp

theorem length_steps (rule : Rule) : rule.steps.length = rule.fragments.length := by
  rw [← map_output_steps, List.length_map]

/-- Every fragment of a rule has its step. -/
theorem exists_getElem?_steps {rule : Rule} {i : ℕ} (hi : i < rule.fragments.length) :
    ∃ step, rule.steps[i]? = some step ∧ rule.fragments[i]? = some step.output ∧
      (step.closing = true ↔ rule.closes = true ∧ i + 1 = rule.fragments.length) := by
  have hlength : rule.fragments.length = rule.pairs.length := List.length_map ..
  obtain ⟨p, hp⟩ : ∃ p, rule.pairs[i]? = some p := ⟨_, List.getElem?_eq_getElem (hlength ▸ hi)⟩
  refine ⟨⟨p.1, p.2, rule.closes && decide (i + 1 = rule.pairs.length)⟩, ?_, ?_, ?_⟩
  · rw [getElem?_steps, hp, Option.map_some]
  · rw [fragments, List.getElem?_map, hp, Option.map_some]
  · rw [hlength, Bool.and_eq_true, decide_eq_true_eq]

/-- A closing step is the last of a rule that can be aligned and closes. -/
theorem plan_of_closing {rule : Rule} {i : ℕ} {step : Step} (hstep : rule.plan.1[i]? = some step)
    (hclosing : step.closing = true) :
    rule.Alignable ∧ rule.closes ∧ rule.plan.1 = rule.steps ∧ i + 1 = rule.steps.length := by
  obtain ⟨halign, hsteps⟩ | ⟨-, ps, hopen⟩ := rule.plan_fst_cases
  · rw [hsteps] at hstep
    have hi : i < rule.fragments.length := by
      rw [← length_steps]
      exact (List.getElem?_eq_some_iff.mp hstep).1
    obtain ⟨step', hstep', -, hcloses⟩ := exists_getElem?_steps hi
    obtain rfl : step = step' := Option.some.inj (hstep.symm.trans hstep')
    obtain ⟨hrule, hlast⟩ := hcloses.mp hclosing
    exact ⟨halign, hrule, hsteps, by rw [hlast, length_steps]⟩
  · rw [hopen, getElem?_openAll] at hstep
    obtain ⟨p, -, rfl⟩ := Option.map_eq_some_iff.mp hstep
    exact absurd hclosing Bool.false_ne_true

theorem onlyLastCloses_plan (rule : Rule) : OnlyLastCloses rule.plan.1 := by
  obtain ⟨-, hsteps⟩ | ⟨-, ps, hopen⟩ := rule.plan_fst_cases
  · rw [hsteps, steps]
    split
    case isTrue => exact onlyLastCloses_closeLast _
    case isFalse => exact onlyLastCloses_openAll _
  · rw [hopen]
    exact onlyLastCloses_openAll ps

end Rule

end RuleTransducer
