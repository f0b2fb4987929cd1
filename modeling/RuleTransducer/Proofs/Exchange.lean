import Mathlib.Data.Nat.Init
import RuleTransducer.Proofs.Support

/-! Exchange. Rules that have read the same and emit the same fragment last meet in a vertex,
and as a vertex does not know what was emitted before that fragment, a path may come along
one of them and leave along the other. So outputs may be pieced together from several rules.
They are not exactly if the rules are closed under exchange: wherever two of them meet, the
beginning of the one with the end of the other is a rule again. -/

namespace RuleTransducer

namespace Rule

/-- Whether a rule meets another behind `k` steps over a text: it has read the same and is
still open, and both emit the same fragment last. -/
def Meets (first last : Rule) (text : Text) (k : ℕ) : Prop :=
  text.toList.take k <+: first.inputText.toList ∧
    ¬(first.closes = true ∧ k = first.fragments.length) ∧
    first.fragments[k - 1]? = last.fragments[k - 1]?

instance (first last : Rule) (text : Text) (k : ℕ) : Decidable (first.Meets last text k) :=
  inferInstanceAs (Decidable (_ ∧ _ ∧ _))

/-- What is emitted along one rule for `k` steps and along another from there. -/
def exchange (first last : Rule) (k : ℕ) : List Text :=
  first.fragments.take k ++ last.fragments.drop k

end Rule

/-- Whether the exchange of two rules where they meet over a text is a rule again. -/
def ExchangeClosed (rules : List Rule) (text : Text) : Prop :=
  ∀ first ∈ rules, ∀ last ∈ rules, last.inputText = text → last.closes = true →
    ∀ k < text.length, 0 < k → first.Meets last text k →
      ∃ rule ∈ rules, rule.inputText = text ∧ rule.closes = true ∧
        rule.fragments = first.exchange last k

instance (rules : List Rule) (text : Text) : Decidable (ExchangeClosed rules text) :=
  inferInstanceAs (Decidable (∀ first ∈ rules, ∀ last ∈ rules, _))

namespace Rule

section Meeting
variable {first last : Rule} {text : Text} {k : ℕ}

theorem le_length_of_meets (h : first.Meets last text k) (hk : k < text.length) :
    k ≤ first.fragments.length := by
  have hle := h.1.length_le
  rw [List.length_take, Text.length_toList, ← length_fragments] at hle
  omega

/-- An exchange goes along the first rule up to where the rules meet. -/
theorem getElem?_exchange_of_lt (hlength : k ≤ first.fragments.length) {j : ℕ} (hj : j < k) :
    (first.exchange last k)[j]? = first.fragments[j]? := by
  rw [exchange, List.getElem?_append_left (by rw [List.length_take]; omega),
    List.getElem?_take_of_lt hj]

/-- An exchange goes along the last rule from the fragment on at which the rules meet. -/
theorem getElem?_exchange_of_le (hlength : k ≤ first.fragments.length)
    (hmeet : first.fragments[k - 1]? = last.fragments[k - 1]?) {j : ℕ} (hj : k ≤ j + 1) :
    (first.exchange last k)[j]? = last.fragments[j]? := by
  by_cases hlast : k ≤ j
  · have htake : (first.fragments.take k).length = k := by
      rw [List.length_take]
      omega
    rw [exchange, List.getElem?_append_right (by omega), htake, List.getElem?_drop]
    congr 1
    omega
  · obtain rfl : j = k - 1 := by omega
    rw [getElem?_exchange_of_lt hlength (by omega), hmeet]

end Meeting

end Rule

/-- The exchange of two rules where they meet is supported. -/
theorem supported_exchange {rules : List Rule} {first last : Rule} {text : Text} {k : ℕ}
    (hfirst : first ∈ rules) (hlast : last ∈ rules) (hreads : last.inputText = text)
    (hcloses : last.closes = true) (hk : k < text.length) (hmeets : first.Meets last text k) :
    Supported rules text (first.exchange last k) := by
  have hlength := Rule.le_length_of_meets hmeets hk
  have hlastLength := Rule.length_fragments_of_inputText hreads
  obtain ⟨hbegin, hopen, hmeet⟩ := hmeets
  have hexchange : (first.exchange last k).length = text.length := by
    rw [Rule.exchange, List.length_append, List.length_take, List.length_drop]
    omega
  have hemits {i : ℕ} (hi : k ≤ i) : last.Emits (first.exchange last k) i := fun j _ hj =>
    (Rule.getElem?_exchange_of_le hlength hmeet (by omega)).symm
  refine ⟨hexchange, fun i hi => ?_, last, hlast, hreads, hcloses, hemits (by omega)⟩
  by_cases hbefore : i < k
  · refine ⟨first, hfirst, ?_, fun j hj _ => ?_, ?_⟩
    · exact (List.take_prefix_take_left (by omega)).trans hbegin
    · exact (Rule.getElem?_exchange_of_lt hlength (by omega)).symm
    · rintro ⟨hclosed, hend⟩
      exact hopen ⟨hclosed, by omega⟩
  · refine ⟨last, hlast, ?_, hemits (by omega), ?_⟩
    · rw [hreads]
      exact List.take_prefix _ _
    · rintro ⟨-, hend⟩
      omega

/-- Whether a rule closes over a text and emits a sequence from a place on. -/
structure Rule.Finishes (rule : Rule) (text : Text) (os : List Text) (k : ℕ) : Prop where
  reads : rule.inputText = text
  closes : rule.closes = true
  agrees : ∀ j, k ≤ j → rule.fragments[j]? = os[j]?

theorem Rule.Ends.finishes {rule : Rule} {text : Text} {os : List Text}
    (h : rule.Ends text os) (hlength : os.length = text.length) :
    rule.Finishes text os (text.length - 2) := by
  refine ⟨h.reads, h.closes, fun j hj => ?_⟩
  have hrule := Rule.length_fragments_of_inputText h.reads
  by_cases hinside : j < text.length
  · exact h.emits j (by omega) (by omega)
  · rw [List.getElem?_eq_none (by omega), List.getElem?_eq_none (by omega)]

/-- A rule that finishes a sequence is exchanged for one that finishes it from a place before:
its end stays, and the beginning is that of the rule that passes there. -/
theorem exists_finishes_of_succ {rules : List Rule} {text : Text} {os : List Text}
    (hclosed : ExchangeClosed rules text) (hos : Supported rules text os) {k : ℕ}
    (hk : k + 2 < text.length) {next : Rule} (hnext : next ∈ rules)
    (h : next.Finishes text os (k + 1)) : ∃ rule ∈ rules, rule.Finishes text os k := by
  obtain ⟨first, hfirst, hbegin, hemits, hopen⟩ := hos.passes (k + 1) hk
  have hmeet : first.fragments[k + 1]? = next.fragments[k + 1]? :=
    (hemits (k + 1) (by omega) (by omega)).trans (h.agrees (k + 1) (by omega)).symm
  have hmeets : first.Meets next text (k + 2) := ⟨hbegin, hopen, hmeet⟩
  have hlength := Rule.le_length_of_meets hmeets hk
  obtain ⟨rule, hrule, hreads, hcloses, hfragments⟩ :=
    hclosed first hfirst next hnext h.reads h.closes (k + 2) hk (by omega) hmeets
  refine ⟨rule, hrule, hreads, hcloses, fun j hj => ?_⟩
  rw [hfragments]
  by_cases hbefore : j < k + 2
  · rw [Rule.getElem?_exchange_of_lt hlength hbefore]
    exact hemits j (by omega) (by omega)
  · rw [Rule.getElem?_exchange_of_le hlength hmeet (by omega)]
    exact h.agrees j (by omega)

/-- Where rules are closed under exchange, what they support is what one of them emits. -/
theorem exists_rule_of_supported {rules : List Rule} {text : Text} {os : List Text}
    (hclosed : ExchangeClosed rules text) (hos : Supported rules text os) :
    ∃ rule ∈ rules, rule.inputText = text ∧ rule.closes = true ∧ rule.fragments = os := by
  have hfinishes : ∀ k ≤ text.length - 2, ∃ rule ∈ rules, rule.Finishes text os k := by
    intro k hk
    induction hk using Nat.decreasingInduction with
    | self =>
      obtain ⟨last, hlast, hends⟩ := hos.ends
      exact ⟨last, hlast, hends.finishes hos.length⟩
    | of_succ k hk ih =>
      obtain ⟨next, hnext, h⟩ := ih
      exact exists_finishes_of_succ hclosed hos (by omega) hnext h
  obtain ⟨rule, hrule, hreads, hcloses, hagrees⟩ := hfinishes 0 (Nat.zero_le _)
  exact ⟨rule, hrule, hreads, hcloses, List.ext_getElem? fun j => hagrees j (Nat.zero_le j)⟩

theorem exchangeClosed_iff {rules : List Rule} {text : Text} :
    ExchangeClosed rules text ↔ ∀ os, Supported rules text os →
      ∃ rule ∈ rules, rule.inputText = text ∧ rule.closes = true ∧ rule.fragments = os := by
  constructor
  · intro hclosed os h
    exact exists_rule_of_supported hclosed h
  · intro h first hfirst last hlast hreads hcloses k hk _ hmeets
    exact h _ (supported_exchange hfirst hlast hreads hcloses hk hmeets)

namespace Graph

/-- An output of compiled rules is never pieced together from several rules exactly if the
rules are closed under exchange over the text; then each output is that of a rule. -/
theorem exchangeClosed_iff_accepts {declared : List Datum} {rules : List Rule} {g : Graph Text}
    (hcompile : compile? declared = .ok g)
    (hrules : declared.mapM Datum.textRule? = some rules) (text : Text) :
    (ExchangeClosed rules text ↔ ∀ p, g.Accepts g.root text.toList p →
      ∃ rule ∈ rules, rule.inputText = text ∧ rule.closes = true ∧ emitted p = rule.fragments) ∧
    (ExchangeClosed rules text → ∀ output ∈ g.transduce text,
      ∃ rule ∈ rules, rule.inputText = text ∧ rule.outputText = output) := by
  have hg := threads_of_compile? hcompile hrules
  have hone : ExchangeClosed rules text ↔ ∀ p, g.Accepts g.root text.toList p →
      ∃ rule ∈ rules, rule.inputText = text ∧ rule.closes = true ∧ emitted p = rule.fragments := by
    rw [exchangeClosed_iff]
    constructor
    · intro h p hp
      obtain ⟨rule, hrule, hreads, hcloses, hfragments⟩ :=
        h _ ((exists_accepts_iff_supported hg).mp ⟨p, hp, rfl⟩)
      exact ⟨rule, hrule, hreads, hcloses, hfragments.symm⟩
    · intro h os hos
      obtain ⟨p, hp, rfl⟩ := (exists_accepts_iff_supported hg).mpr hos
      obtain ⟨rule, hrule, hreads, hcloses, hemitted⟩ := h p hp
      exact ⟨rule, hrule, hreads, hcloses, hemitted.symm⟩
  refine ⟨hone, fun hclosed output houtput => ?_⟩
  rw [transduce_eq_map_paths, List.mem_map] at houtput
  obtain ⟨p, hp, rfl⟩ := houtput
  obtain ⟨rule, hrule, hreads, -, hemitted⟩ := hone.mp hclosed p (mem_paths_iff.mp hp)
  refine ⟨rule, hrule, hreads, ?_⟩
  rw [hemitted, Rule.join_fragments (hg.alignable hrule)]

/-- Crossing rules have outputs that begin along one of them and end along the other. -/
theorem output_of_no_rule_crossing :
    ∃ g, compile? (crossing.map fun rule => .list rule.raw) = .ok g ∧
      ("xbq" : Text) ∈ g.transduce "abc" ∧
      ¬∃ rule ∈ crossing, rule.inputText = "abc" ∧ rule.outputText = "xbq" := by
  refine ⟨_, rfl, ?_, by decide⟩
  rw [transduce, transduceFrom_eq_walk]
  decide

/-- Crossing rules with their exchanges. -/
def crossed : List Rule :=
  crossing ++
    [⟨[.transform "a" "x", .literal "b", .transform "c" "q"]⟩,
      ⟨[.transform "a" "p", .literal "b", .transform "c" "y"]⟩]

theorem exchangeClosed_iff_accepts_crossed :
    ∃ g, compile? (crossed.map fun rule => .list rule.raw) = .ok g ∧
      ExchangeClosed crossed "abc" ∧ ∀ output ∈ g.transduce "abc",
        ∃ rule ∈ crossed, rule.inputText = "abc" ∧ rule.outputText = output := by
  obtain ⟨g, hg⟩ : ∃ g, compile? (crossed.map fun rule => .list rule.raw) = .ok g := ⟨_, rfl⟩
  have hclosed : ExchangeClosed crossed "abc" := by decide
  exact ⟨g, hg, hclosed, (exchangeClosed_iff_accepts hg (by decide) "abc").2 hclosed⟩

end Graph

end RuleTransducer
