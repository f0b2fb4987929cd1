import RuleTransducer.Proofs.Registration

/-! Support. A sequence of fragments is supported for a text if at every code point some rule
takes the step with the fragment there, coming from the fragment before; the rules may differ
from one code point to the next. An edge of a compiled graph knows just as much of the rule
that made it, so the supported sequences are what the accepting paths emit, each on one path. -/

namespace RuleTransducer

open RuleTransducer.Alignment

namespace Rule

/-- Whether a rule emits the fragments of a sequence at a step and at the step before it. -/
def Emits (rule : Rule) (os : List Text) (i : ℕ) : Prop :=
  ∀ j ≤ i, i ≤ j + 1 → rule.fragments[j]? = os[j]?

/-- Whether a rule takes a step over a text, with the fragments of a sequence, and the step
does not close the rule. -/
structure Passes (rule : Rule) (text : Text) (os : List Text) (i : ℕ) : Prop where
  reads : text.toList.take (i + 1) <+: rule.inputText.toList
  emits : rule.Emits os i
  stays : ¬(rule.closes = true ∧ i + 1 = rule.fragments.length)

/-- Whether a rule closes over a text, with the last fragments of a sequence. -/
structure Ends (rule : Rule) (text : Text) (os : List Text) : Prop where
  reads : rule.inputText = text
  closes : rule.closes = true
  emits : rule.Emits os (os.length - 1)

end Rule

/-- Whether rules support a sequence of fragments for a text: one fragment for each code
point, a rule that passes at each but the last, and a rule that ends at the last. -/
structure Supported (rules : List Rule) (text : Text) (os : List Text) : Prop where
  length : os.length = text.length
  passes : ∀ i, i + 1 < text.length → ∃ rule ∈ rules, rule.Passes text os i
  ends : ∃ rule ∈ rules, rule.Ends text os

/-! ### Steps that agree -/

namespace Rule

theorem length_fragments_of_inputText {rule : Rule} {text : Text} (h : rule.inputText = text) :
    rule.fragments.length = text.length := by
  rw [length_fragments, h, Text.length_toList]

/-- A rule emits the fragments at a step if it does at the last step before it and there. -/
theorem emits_iff {rule : Rule} {os : List Text} {i : ℕ} (hi : i < rule.fragments.length)
    (hos : i < os.length) :
    rule.Emits os i ↔
      (rule.fragments.take i).getLast? = (os.take i).getLast? ∧
        rule.fragments[i]? = os[i]? := by
  cases i with
  | zero => simp [Emits]
  | succ i =>
    have hlast {l : List Text} (hl : i + 1 < l.length) : (l.take (i + 1)).getLast? = l[i]? := by
      have hi : i < l.length := by omega
      simp [List.getLast?_take, List.getElem?_eq_getElem hi]
    rw [hlast hi, hlast hos]
    constructor
    · intro h
      exact ⟨h i (by omega) (by omega), h (i + 1) (by omega) (by omega)⟩
    · rintro ⟨hbefore, hthere⟩ j hj hnext
      by_cases hlater : j = i + 1
      · exact hlater ▸ hthere
      · obtain rfl : j = i := by omega
        exact hbefore

/-- Whether a rule takes a step over a text, with the fragments of a sequence, and closes
where the text ends. -/
structure Takes (rule : Rule) (text : Text) (os : List Text) (i : ℕ) : Prop where
  reads : text.toList.take (i + 1) <+: rule.inputText.toList
  emits : rule.Emits os i
  closing : rule.closes = true ∧ i + 1 = rule.fragments.length ↔ i + 1 = text.length

theorem takes_iff_passes {rule : Rule} {text : Text} {os : List Text} {i : ℕ}
    (hi : i + 1 < text.length) : rule.Takes text os i ↔ rule.Passes text os i := by
  have hopen : i + 1 ≠ text.length := by omega
  constructor
  · rintro ⟨hreads, hemits, hclosing⟩
    exact ⟨hreads, hemits, fun hend => hopen (hclosing.mp hend)⟩
  · rintro ⟨hreads, hemits, hstays⟩
    exact ⟨hreads, hemits, iff_of_false hstays hopen⟩

theorem takes_iff_ends {rule : Rule} {text : Text} {os : List Text} (h : os.length = text.length)
    {i : ℕ} (hi : i + 1 = text.length) : rule.Takes text os i ↔ rule.Ends text os := by
  have htake : text.toList.take (i + 1) = text.toList :=
    List.take_of_length_le (by rw [Text.length_toList]; omega)
  have hlast : os.length - 1 = i := by omega
  constructor
  · rintro ⟨hreads, hemits, hclosing⟩
    obtain ⟨hcloses, hlength⟩ := hclosing.mpr hi
    rw [htake] at hreads
    -- a prefix as long as the whole
    have hwhole : text.toList = rule.inputText.toList :=
      hreads.eq_of_length (by rw [← length_fragments, ← hlength, hi, Text.length_toList])
    exact ⟨(Text.toList_inj.mp hwhole).symm, hcloses, hlast ▸ hemits⟩
  · rintro ⟨hreads, hcloses, hemits⟩
    have hwhole : text.toList.take (i + 1) = rule.inputText.toList := by rw [htake, hreads]
    refine ⟨hwhole ▸ List.prefix_refl _, hlast ▸ hemits, iff_of_true ⟨hcloses, ?_⟩ hi⟩
    rw [hi, length_fragments_of_inputText hreads]

theorem pos_length_of_ends {rule : Rule} {text : Text} {os : List Text}
    (h : rule.Ends text os) : 0 < text.length := by
  rw [← length_fragments_of_inputText h.reads, fragments, List.length_map]
  exact List.length_pos_iff.mpr (pairs_ne_nil_of_closes h.closes)

end Rule

/-- Rules support a sequence of fragments if at every code point one of them takes the step. -/
theorem supported_iff {rules : List Rule} {text : Text} {os : List Text}
    (h : os.length = text.length) :
    Supported rules text os ↔
      0 < text.length ∧ ∀ i < text.length, ∃ rule ∈ rules, rule.Takes text os i := by
  constructor
  · rintro ⟨-, hpasses, last, hlast, hends⟩
    refine ⟨Rule.pos_length_of_ends hends, fun i hi => ?_⟩
    by_cases hnext : i + 1 < text.length
    · obtain ⟨rule, hrule, hpass⟩ := hpasses i hnext
      exact ⟨rule, hrule, (Rule.takes_iff_passes hnext).mpr hpass⟩
    · exact ⟨last, hlast, (Rule.takes_iff_ends h (by omega)).mpr hends⟩
  · rintro ⟨hpos, htakes⟩
    refine ⟨h, fun i hi => ?_, ?_⟩
    · obtain ⟨rule, hrule, htake⟩ := htakes i (by omega)
      exact ⟨rule, hrule, (Rule.takes_iff_passes hi).mp htake⟩
    · obtain ⟨rule, hrule, htake⟩ := htakes (text.length - 1) (by omega)
      exact ⟨rule, hrule, (Rule.takes_iff_ends h (by omega)).mp htake⟩

namespace Graph

/-- The steps that emit a sequence of fragments over a text and close at its end. -/
def strand (text : Text) (os : List Text) : List Step := closeLast (text.toList.zip os)

section Strand
variable {text : Text} {os : List Text}

theorem onlyLastCloses_strand : OnlyLastCloses (strand text os) := onlyLastCloses_closeLast _

theorem map_input_strand (h : os.length = text.length) :
    (strand text os).map Step.input = text.toList := by
  rw [strand, map_input_closeLast]
  exact List.map_fst_zip (Nat.le_of_eq (Text.length_toList.trans h.symm))

theorem map_output_strand (h : os.length = text.length) :
    (strand text os).map Step.output = os := by
  rw [strand, map_output_closeLast]
  exact List.map_snd_zip (Nat.le_of_eq (h.trans Text.length_toList.symm))

theorem length_strand (h : os.length = text.length) : (strand text os).length = text.length := by
  rw [← List.length_map Step.output, map_output_strand h, h]

/-- A strand emits the fragments of its sequence and closes at its last step. -/
theorem getElem?_strand (h : os.length = text.length) {i : ℕ} {step : Step}
    (hstep : (strand text os)[i]? = some step) :
    i < text.length ∧ os[i]? = some step.output ∧
      (step.closing = true ↔ i + 1 = text.length) := by
  have hlength : (text.toList.zip os).length = text.length := by
    rw [← length_closeLast]
    exact length_strand h
  refine ⟨length_strand h ▸ (List.getElem?_eq_some_iff.mp hstep).1, ?_, ?_⟩
  · rw [← map_output_strand h, List.getElem?_map, hstep, Option.map_some]
  · rw [strand, getElem?_closeLast, hlength] at hstep
    obtain ⟨p, -, rfl⟩ := Option.map_eq_some_iff.mp hstep
    exact decide_eq_true_iff

/-- The edge of a step of a strand is one of a rule exactly if the rule takes the step. -/
theorem link_strand_mem_chain_iff {rule : Rule} (halign : rule.Alignable)
    (h : os.length = text.length) {i : ℕ} {step : Step} (hstep : (strand text os)[i]? = some step) :
    (link .root "" ((strand text os).take i) step : Edge Text) ∈ chain .root "" rule.plan.1 ↔
      rule.Takes text os i := by
  obtain ⟨hi, hout, hend⟩ := getElem?_strand h hstep
  have htake : (text.toList.take (i + 1)).length = i + 1 := by
    rw [List.length_take, Text.length_toList]
    omega
  rw [link_mem_chain_iff onlyLastCloses_strand rule.onlyLastCloses_plan hstep,
    Rule.plan_of_alignable halign]
  by_cases hrule : i < rule.fragments.length
  · obtain ⟨step', hstep', hout', hend'⟩ := Rule.exists_getElem?_steps hrule
    simp only [hstep', Option.some.injEq, exists_eq_left', List.map_take, map_input_strand h,
      Rule.map_input_steps, ← List.getLast?_map, map_output_strand h, Rule.map_output_steps]
    constructor
    · rintro ⟨hreads, hlast, houtput, hclosing⟩
      refine ⟨?_, (Rule.emits_iff hrule (h.symm ▸ hi)).mpr ⟨hlast.symm, ?_⟩, ?_⟩
      · rw [hreads]
        exact List.take_prefix _ _
      · rw [hout, hout', houtput]
      · rw [← hend, ← hend', hclosing]
    · rintro ⟨hreads, hemits, hclosing⟩
      obtain ⟨hlast, houtput⟩ := (Rule.emits_iff hrule (h.symm ▸ hi)).mp hemits
      rw [hout, hout', Option.some.injEq] at houtput
      rw [List.prefix_iff_eq_take, htake] at hreads
      rw [← hend, ← hend'] at hclosing
      exact ⟨hreads, hlast.symm, houtput.symm, Bool.eq_iff_iff.mpr hclosing.symm⟩
  · -- the rule is over before the step, and does not read as much
    constructor
    · rintro ⟨step', hstep', -⟩
      have hinside := (List.getElem?_eq_some_iff.mp hstep').1
      rw [Rule.length_steps] at hinside
      exact absurd hinside hrule
    · rintro ⟨hreads, -, -⟩
      have hle := hreads.length_le
      rw [htake, ← Rule.length_fragments] at hle
      omega

end Strand

/-! ### Accepting paths of compiled rules -/

section Compiled
variable {rules completed : List Rule} {g : Graph Text} {text : Text}

theorem mem_edges_of_threads (hg : Threads empty g rules completed) {e : Edge Text} :
    e ∈ g.edges ↔ ∃ rule ∈ rules, e ∈ chain .root "" rule.plan.1 := by
  rw [hg.graph]
  exact mem_edges_empty_buildRules

/-- A strand is the only path that emits its fragments over its text. -/
theorem eq_strand_of_accepts (hg : Threads empty g rules completed) {p : List (Edge Text)}
    (hp : g.Accepts g.root text.toList p) : p = chain .root "" (strand text (emitted p)) := by
  have hlayered : ∀ e ∈ g.edges, e.Layered := fun e he => layered_buildRules (hg.graph ▸ he)
  have hchain := eq_chain_of_accepts hlayered hp
  rw [hg.root] at hchain
  exact hchain

/-- What an accepting path emits is supported. -/
theorem supported_emitted (hg : Threads empty g rules rules) {p : List (Edge Text)}
    (hp : g.Accepts g.root text.toList p) : Supported rules text (emitted p) := by
  have h : (emitted p).length = text.length :=
    (length_emitted_of_accepts hp).trans Text.length_toList
  rw [supported_iff h]
  constructor
  · -- the root is not terminal, so a path reads something
    rw [← Text.length_toList]
    cases hinput : text.toList with
    | nil =>
      rw [hinput, hg.root] at hp
      cases p with
      | nil => exact absurd hp Bool.false_ne_true
      | cons e q => exact hp.elim
    | cons c rest => exact Nat.succ_pos _
  · intro i hi
    obtain ⟨step, hstep⟩ : ∃ step, (strand text (emitted p))[i]? = some step :=
      ⟨_, List.getElem?_eq_getElem ((length_strand h).symm ▸ hi)⟩
    have hmem : link .root "" ((strand text (emitted p)).take i) step ∈
        chain .root "" (strand text (emitted p)) := mem_chain_iff.mpr ⟨i, step, hstep, rfl⟩
    rw [← eq_strand_of_accepts hg hp] at hmem
    obtain ⟨rule, hrule, hlink⟩ := (mem_edges_of_threads hg).mp (mem_edges_of_accepts hp hmem)
    exact ⟨rule, hrule, (link_strand_mem_chain_iff (hg.alignable hrule) h hstep).mp hlink⟩

/-- The strand of a supported sequence is an accepting path. -/
theorem accepts_strand (hg : Threads empty g rules rules) {os : List Text}
    (hos : Supported rules text os) :
    g.Accepts g.root text.toList (chain .root "" (strand text os)) := by
  have h := hos.length
  obtain ⟨hpos, htakes⟩ := (supported_iff h).mp hos
  have hps : text.toList.zip os ≠ [] := by
    rw [← List.length_pos_iff, ← length_closeLast]
    exact (length_strand h).symm ▸ hpos
  have hstrand : ∀ e ∈ chain .root "" (strand text os), e ∈ g.edges := by
    intro e he
    obtain ⟨i, step, hstep, rfl⟩ := mem_chain_iff.mp he
    obtain ⟨rule, hrule, htake⟩ := htakes i (getElem?_strand h hstep).1
    exact (mem_edges_of_threads hg).mpr
      ⟨rule, hrule, (link_strand_mem_chain_iff (hg.alignable hrule) h hstep).mpr htake⟩
  have haccepts := accepts_chain hps hstrand
  rw [List.map_fst_zip (Nat.le_of_eq (Text.length_toList.trans h.symm))] at haccepts
  exact hg.root.symm ▸ haccepts

/-- What accepting paths emit is what the rules support. -/
theorem exists_accepts_iff_supported (hg : Threads empty g rules rules) {os : List Text} :
    (∃ p, g.Accepts g.root text.toList p ∧ emitted p = os) ↔ Supported rules text os := by
  constructor
  · rintro ⟨p, hp, rfl⟩
    exact supported_emitted hg hp
  · intro hos
    have hemitted : emitted (chain .root "" (strand text os)) = os := by
      rw [emitted_chain]
      exact map_output_strand hos.length
    exact ⟨_, accepts_strand hg hos, hemitted⟩

end Compiled

/-! ### Outputs -/

/-- The outputs of compiled rules for a text are the joined fragments of the sequences that the
rules support, each sequence once. -/
theorem exists_supported_perm_transduce {declared : List Datum} {rules : List Rule}
    {g : Graph Text} (hcompile : compile? declared = .ok g)
    (hrules : declared.mapM Datum.textRule? = some rules) (text : Text) :
    ∃ sequences : List (List Text), sequences.Nodup ∧
      (∀ os, os ∈ sequences ↔ Supported rules text os) ∧
      (g.transduce text).Perm (sequences.map Text.join) := by
  have hg := threads_of_compile? hcompile hrules
  have hnodup : g.edges.Nodup := by
    rw [hg.graph]
    exact nodup_edges_buildRules List.nodup_nil rules
  refine ⟨(g.paths g.root text.toList).map emitted, ?_, fun os => ?_, ?_⟩
  · refine List.Nodup.map_on (fun p hp q hq heq => ?_) (nodup_paths hnodup _ _)
    rw [eq_strand_of_accepts hg (mem_paths_iff.mp hp), heq,
      ← eq_strand_of_accepts hg (mem_paths_iff.mp hq)]
  · simp only [List.mem_map, mem_paths_iff]
    exact exists_accepts_iff_supported hg
  · rw [transduce_eq_map_paths, List.map_map]
    exact List.Perm.refl _

end Graph

/-- Two rules that emit alike in the middle and differ at both ends. -/
def crossing : List Rule :=
  [⟨[.transform "a" "x", .literal "b", .transform "c" "y"]⟩,
    ⟨[.transform "a" "p", .literal "b", .transform "c" "q"]⟩]

theorem Graph.exists_supported_perm_transduce_crossing :
    ∃ g, compile? (crossing.map fun rule => .list rule.raw) = .ok g ∧
      ∃ sequences : List (List Text), sequences.Nodup ∧
        (∀ os, os ∈ sequences ↔ Supported crossing "abc" os) ∧
        (g.transduce "abc").Perm (sequences.map Text.join) := by
  obtain ⟨g, hg⟩ : ∃ g, compile? (crossing.map fun rule => .list rule.raw) = .ok g := ⟨_, rfl⟩
  exact ⟨g, hg, exists_supported_perm_transduce hg (by decide) "abc"⟩

end RuleTransducer
