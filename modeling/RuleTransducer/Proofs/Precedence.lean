import Mathlib.Data.Prod.Lex
import Mathlib.Order.Bounds.Basic
import RuleTransducer.Proofs.Admission
import RuleTransducer.Proofs.Discovery

/-! Precedence. The edges of compiled rules are in the order of the first rule and step that
makes each, so of two accepting paths the one is found first whose edge at their fork is made
first. A rule for another text may be the one that makes it, and then the path of a later rule
is found before that of an earlier one. -/

namespace RuleTransducer

variable {α : Type}

namespace Graph

/-! ### First insertions -/

section Stamps
variable {ι : Type} [LinearOrder ι] {stamps : List (ι × Edge α)} {last : ι × Edge α}

theorem isLeast_stamps_append {e : Edge α} {t : ι} (h : IsLeast {t | (t, e) ∈ stamps} t)
    (hlast : t < last.1) : IsLeast {t | (t, e) ∈ stamps ++ [last]} t := by
  refine ⟨List.mem_append_left _ h.1, fun t' ht' => ?_⟩
  obtain ht' | ht' := List.mem_append.mp ht'
  · exact h.2 ht'
  · exact hlast.le.trans (congrArg Prod.fst (List.mem_singleton.mp ht')).ge

theorem isLeast_stamps_append_new (hnew : last.2 ∉ stamps.map Prod.snd) :
    IsLeast {t | (t, last.2) ∈ stamps ++ [last]} last.1 := by
  refine ⟨List.mem_append_right _ (List.mem_singleton_self _), fun t ht => ?_⟩
  obtain ht | ht := List.mem_append.mp ht
  · exact absurd (List.mem_map.mpr ⟨_, ht, rfl⟩) hnew
  · exact (congrArg Prod.fst (List.mem_singleton.mp ht)).ge

/-- Inserting edges in the order of their stamps keeps of each edge the one with the least
stamp. -/
theorem exists_firsts [BEq α] [LawfulBEq α] (root : Vertex α)
    (h : stamps.Pairwise fun a b => a.1 < b.1) :
    ∃ firsts : List (ι × Edge α), firsts.Sublist stamps ∧
      ((rooted root).addEdges (stamps.map Prod.snd)).edges = firsts.map Prod.snd ∧
      ∀ first ∈ firsts, IsLeast {t | (t, first.2) ∈ stamps} first.1 := by
  induction stamps using List.reverseRecOn with
  | nil => exact ⟨[], List.Sublist.refl [], rfl, by simp⟩
  | append_singleton stamps last ih =>
    obtain ⟨hstamps, -, hlast⟩ := List.pairwise_append.mp h
    obtain ⟨firsts, hsub, hedges, hleast⟩ := ih hstamps
    have hlater (first : ι × Edge α) (hfirst : first ∈ firsts) :
        IsLeast {t | (t, first.2) ∈ stamps ++ [last]} first.1 :=
      isLeast_stamps_append (hleast first hfirst)
        (hlast first (hsub.subset hfirst) last (List.mem_singleton_self _))
    have hadd : (rooted root).addEdges ((stamps ++ [last]).map Prod.snd) =
        (((rooted root).addEdges (stamps.map Prod.snd)).addEdge last.2).1 := by
      rw [List.map_append, addEdges_append]
      rfl
    rw [hadd, edges_addEdge]
    split
    -- an edge that is held keeps the stamp it has, which is less than the last
    case isTrue =>
      exact ⟨firsts, hsub.trans (List.sublist_append_left _ _), hedges, hlater⟩
    case isFalse hnew =>
      have hfresh : last.2 ∉ stamps.map Prod.snd := fun hold =>
        hnew (List.contains_iff_mem.mpr (mem_edges_addEdges.mpr (.inr hold)))
      refine ⟨firsts ++ [last], hsub.append (List.Sublist.refl _), by simp [hedges], ?_⟩
      intro first hfirst
      obtain hfirst | hfirst := List.mem_append.mp hfirst
      · exact hlater first hfirst
      · obtain rfl := List.mem_singleton.mp hfirst
        exact isLeast_stamps_append_new hfresh

end Stamps

end Graph

/-! ### The place of an edge in the rules -/

/-- The edges that a rule makes, one for each of its steps. -/
def Rule.path (rule : Rule) : List (Edge Text) := Graph.chain .root "" rule.plan.1

/-- Whether the rule and the step at a place among rules make an edge. -/
def MadeAt (rules : List Rule) (e : Edge Text) (place : ℕ ×ₗ ℕ) : Prop :=
  ∃ rule, rules[(ofLex place).1]? = some rule ∧ rule.path[(ofLex place).2]? = some e

/-- Whether the rule and the step at a place are the first of all that make an edge. -/
def FirstMadeAt (rules : List Rule) (e : Edge Text) (place : ℕ ×ₗ ℕ) : Prop :=
  IsLeast {place | MadeAt rules e place} place

/-- The edges that rules make, in order, each with its place. -/
def stamped (rules : List Rule) : List ((ℕ ×ₗ ℕ) × Edge Text) :=
  rules.zipIdx.flatMap fun (rule, i) => rule.path.zipIdx.map fun (e, j) => (toLex (i, j), e)

theorem mem_stamped_iff {rules : List Rule} {place : ℕ ×ₗ ℕ} {e : Edge Text} :
    (place, e) ∈ stamped rules ↔ MadeAt rules e place := by
  simp only [stamped, List.mem_flatMap, List.mem_map, List.mem_zipIdx_iff_getElem?, MadeAt]
  constructor
  · rintro ⟨⟨rule, i⟩, hrule, ⟨_, j⟩, he, heq⟩
    obtain ⟨rfl, rfl⟩ := Prod.mk.inj heq
    exact ⟨rule, hrule, he⟩
  · rintro ⟨rule, hrule, he⟩
    exact ⟨(rule, (ofLex place).1), hrule, (e, (ofLex place).2), he, rfl⟩

theorem pairwise_stamped (rules : List Rule) : (stamped rules).Pairwise fun a b => a.1 < b.1 := by
  rw [stamped, List.pairwise_flatMap]
  constructor
  · rintro ⟨rule, i⟩ -
    rw [List.pairwise_map]
    refine (pairwise_zipIdx rule.path).imp fun {a b} hlt => ?_
    exact Prod.Lex.toLex_lt_toLex.mpr (.inr ⟨rfl, hlt⟩)
  · refine (pairwise_zipIdx rules).imp fun {a b} hlt => ?_
    intro x hx y hy
    obtain ⟨c, -, rfl⟩ := List.mem_map.mp hx
    obtain ⟨d, -, rfl⟩ := List.mem_map.mp hy
    exact Prod.Lex.toLex_lt_toLex.mpr (.inl hlt)

theorem map_snd_stamped (rules : List Rule) :
    (stamped rules).map Prod.snd = rules.flatMap Rule.path := by
  have hpath (rule : Rule) (i : ℕ) :
      (rule.path.zipIdx.map fun (e, j) => (toLex (i, j), e)).map Prod.snd = rule.path := by
    rw [List.map_map]
    exact List.zipIdx_map_fst 0 rule.path
  simp only [stamped, List.map_flatMap, hpath]
  rw [← List.flatMap_map Prod.fst Rule.path, List.zipIdx_map_fst]

namespace Graph

/-- The edges of compiled rules are in the order of the places that make them first. -/
theorem pairwise_edges_buildRules (rules : List Rule) :
    (empty.buildRules rules).edges.Pairwise fun e f =>
      ∃ m n, FirstMadeAt rules e m ∧ FirstMadeAt rules f n ∧ m < n := by
  have hbuild : empty.buildRules rules =
      (rooted .root).addEdges ((stamped rules).map Prod.snd) := by
    rw [map_snd_stamped, buildRules_eq_addEdges]
    rfl
  obtain ⟨firsts, hsub, hedges, hleast⟩ := exists_firsts .root (pairwise_stamped rules)
  rw [hbuild, hedges, List.pairwise_map]
  refine ((pairwise_stamped rules).sublist hsub).imp_of_mem fun {a b} ha hb hlt => ?_
  have hfirst {first : (ℕ ×ₗ ℕ) × Edge Text} (h : first ∈ firsts) :
      FirstMadeAt rules first.2 first.1 := by
    simpa only [FirstMadeAt, mem_stamped_iff] using hleast first h
  exact ⟨a.1, b.1, hfirst ha, hfirst hb, hlt⟩

/-! ### The order of accepting paths -/

/-- Of two accepting paths the one is found first whose edge at their fork is made first. -/
theorem exists_forks_of_accepts {rules : List Rule} {text : Text} {p q : List (Edge Text)}
    (hp : (empty.buildRules rules).Accepts .root text.toList p)
    (hq : (empty.buildRules rules).Accepts .root text.toList q) (hne : p ≠ q) :
    ∃ e f m n, Forks p q e f ∧ FirstMadeAt rules e m ∧ FirstMadeAt rules f n ∧
      ((empty.buildRules rules).FindsBefore text p q ↔ m < n) := by
  have hnodup : (empty.buildRules rules).edges.Nodup := nodup_edges_buildRules List.nodup_nil rules
  have hroot : (empty.buildRules rules).root = .root := (grows_buildRules empty rules).root
  rw [← hroot] at hp hq
  obtain hbefore | hafter := findsBefore_or hp hq hne
  · obtain ⟨e, f, hfork, m, n, hm, hn, hlt⟩ :=
      hbefore.exists_forks hnodup (pairwise_edges_buildRules rules)
    exact ⟨e, f, m, n, hfork, hm, hn, iff_of_true hbefore hlt⟩
  · obtain ⟨f, e, hfork, n, m, hn, hm, hlt⟩ :=
      hafter.exists_forks hnodup (pairwise_edges_buildRules rules)
    exact ⟨e, f, m, n, hfork.swap, hm, hn, iff_of_false (hafter.not_swap hnodup) hlt.asymm⟩

/-- In the graph of compiled rules, of any two accepting paths over a text the one is found
first whose edge at the fork is made at the earlier place of the rules. -/
theorem findsBefore_iff_firstMadeAt {declared : List Datum} {g : Graph Text}
    (hcompile : compile? declared = .ok g) :
    ∃ rules, declared.mapM Datum.textRule? = some rules ∧
      ∀ text p q, g.Accepts g.root text.toList p → g.Accepts g.root text.toList q → p ≠ q →
        ∃ e f m n, Forks p q e f ∧ FirstMadeAt rules e m ∧ FirstMadeAt rules f n ∧
          (g.FindsBefore text p q ↔ m < n) := by
  obtain ⟨rules, hrules, hg⟩ := exists_threads_of_compile? hcompile
  refine ⟨rules, hrules, fun text p q hp hq hne => ?_⟩
  rw [hg.root] at hp hq
  obtain rfl := hg.graph
  exact exists_forks_of_accepts hp hq hne

/-- Two rules for a text behind one for another text, which makes the first edge of the last
rule. -/
def forked : List Rule :=
  [⟨[.transform "a" "y", .literal "c"]⟩, ⟨[.transform "a" "x", .literal "b"]⟩,
    ⟨[.transform "a" "y", .literal "b"]⟩]

theorem findsBefore_iff_firstMadeAt_forked :
    ∃ g, compile? (forked.map fun rule => .list rule.raw) = .ok g ∧
      ∃ e f m n, Forks forked[1].path forked[2].path e f ∧ FirstMadeAt forked e m ∧
        FirstMadeAt forked f n ∧
        (g.FindsBefore "ab" forked[1].path forked[2].path ↔ m < n) := by
  obtain ⟨g, hg⟩ : ∃ g, compile? (forked.map fun rule => .list rule.raw) = .ok g := ⟨_, rfl⟩
  obtain ⟨rules, hrules, h⟩ := findsBefore_iff_firstMadeAt hg
  obtain rfl : rules = forked := Option.some.inj (hrules.symm.trans (by decide))
  cases hg
  refine ⟨_, rfl, h "ab" _ _ ?_ ?_ (by decide)⟩
  · exact mem_paths_iff.mp (by decide)
  · exact mem_paths_iff.mp (by decide)

end Graph

/-! ### The paths of two rules -/

/-- A rule's path emits the fragments of the rule. -/
theorem Rule.emitted_path {rule : Rule} (h : rule.Alignable) :
    Graph.emitted rule.path = rule.fragments := by
  rw [path, Graph.emitted_chain, plan_of_alignable h, ← map_output_steps]
  rfl

theorem Rule.accepts_path {rules : List Rule} {rule : Rule} (hrule : rule ∈ rules)
    (halign : rule.Alignable) (hcloses : rule.closes = true) :
    (Graph.empty.buildRules rules).Accepts .root rule.inputText.toList rule.path :=
  Graph.accepts_chain_plan halign hcloses fun _ he =>
    Graph.mem_edges_empty_buildRules.mpr ⟨rule, hrule, he⟩

theorem Rule.join_emitted_path {rule : Rule} (h : rule.Alignable) :
    Text.join (Graph.emitted rule.path) = rule.outputText := by
  rw [emitted_path h, join_fragments h]

/-- Rules that read the same, close alike and have one path have the same steps. -/
theorem Rule.steps_eq_of_path_eq {first second : Rule} (hfirst : first.Alignable)
    (hsecond : second.Alignable) (hinput : first.inputText = second.inputText)
    (hcloses : first.closes = second.closes) (h : first.path = second.path) :
    first.steps = second.steps := by
  have hfragments : first.fragments = second.fragments := by
    rw [← emitted_path hfirst, ← emitted_path hsecond, h]
  have hpairs (rule : Rule) : rule.pairs = rule.inputText.toList.zip rule.fragments :=
    List.zip_of_prod rule.map_fst_pairs rfl
  rw [steps, steps, hcloses, hpairs first, hpairs second, hinput, hfragments]

/-- The step at which a rule makes an edge is told by what the edge's target has consumed. -/
theorem Rule.length_consumed_of_path {rule : Rule} {e : Edge Text} {k : ℕ}
    (h : rule.path[k]? = some e) : e.target.consumed.length = k + 1 := by
  rw [path, Graph.getElem?_chain] at h
  obtain ⟨step, hstep, rfl⟩ := Option.map_eq_some_iff.mp h
  have hk := (List.getElem?_eq_some_iff.mp hstep).1
  have hlength : (rule.plan.1.take k ++ [step]).length = k + 1 := by
    rw [List.length_append, List.length_take_of_le hk.le]
    rfl
  have hread : (Step.readAll (rule.plan.1.take k ++ [step])).length = k + 1 := by
    rw [Step.readAll, Text.length_ofList, List.length_map, hlength]
  rw [← hread]
  exact congrArg Text.length Text.empty_append

section MadeAt
variable {rules : List Rule} {e f : Edge Text} {place place' : ℕ ×ₗ ℕ}

/-- Wherever rules make an edge, they make it at one and the same step. -/
theorem MadeAt.step_eq (h : MadeAt rules e place) (h' : MadeAt rules e place') :
    (ofLex place).2 = (ofLex place').2 := by
  obtain ⟨rule, -, he⟩ := h
  obtain ⟨rule', -, he'⟩ := h'
  have hlength := Rule.length_consumed_of_path he
  have hlength' := Rule.length_consumed_of_path he'
  omega

theorem MadeAt.edge_eq (he : MadeAt rules e place) (hf : MadeAt rules f place) : e = f := by
  obtain ⟨rule, hrule, he⟩ := he
  obtain ⟨rule', hrule', hf⟩ := hf
  obtain rfl := Option.some.inj (hrule.symm.trans hrule')
  exact Option.some.inj (he.symm.trans hf)

/-- Where no rule before the one that makes `e` makes `f`, the edge `e` is made first. -/
theorem firstMadeAt_lt {m n : ℕ ×ₗ ℕ} {i j k : ℕ} (hne : e ≠ f)
    (he : MadeAt rules e (toLex (i, k))) (hf : MadeAt rules f (toLex (j, k)))
    (hm : FirstMadeAt rules e m) (hn : FirstMadeAt rules f n)
    (hearlier : ∀ earlier ∈ rules.take i, f ∉ earlier.path) : m < n := by
  obtain ⟨rule, hrule, hstep⟩ := hn.1
  have hle : i ≤ (ofLex n).1 := by
    by_contra hlt
    refine hearlier rule ?_ (List.mem_of_getElem? hstep)
    exact List.mem_of_getElem? (List.getElem?_take_of_lt (not_le.mp hlt) ▸ hrule)
  have hk : (ofLex n).2 = k := hn.1.step_eq hf
  -- the rule that makes `e` at this step makes no other edge there
  have hrules : (ofLex n).1 ≠ i := by
    intro hi
    have heq : n = toLex (i, k) := congrArg₂ (fun a b => toLex (a, b)) hi hk
    exact hne (he.edge_eq (heq ▸ hn.1))
  refine lt_of_le_of_lt (hm.2 he) (Prod.Lex.lt_iff.mpr (.inl ?_))
  exact lt_of_le_of_ne hle hrules.symm

end MadeAt

namespace Graph

theorem Forks.exists_getElem? {p q : List (Edge α)} {e f : Edge α} (h : Forks p q e f) :
    ∃ k : ℕ, p[k]? = some e ∧ q[k]? = some f := by
  obtain ⟨-, common, p', q', rfl, rfl⟩ := h
  exact ⟨common.length, by simp, by simp⟩

/-- Of two rules with different steps for one text, the path of the first is found before that
of the second exactly if its edge at their fork is made first. So it is if no rule that stands
before the first rule makes the edge of the second there. -/
theorem findsBefore_path_iff {declared : List Datum} {g : Graph Text}
    (hcompile : compile? declared = .ok g) :
    ∃ rules, declared.mapM Datum.textRule? = some rules ∧
      ∀ (text : Text) (i j : ℕ) (first second : Rule),
        rules[i]? = some first → rules[j]? = some second →
        first.inputText = text → second.inputText = text →
        first.closes = true → second.closes = true → first.steps ≠ second.steps →
        Text.join (emitted first.path) = first.outputText ∧
        Text.join (emitted second.path) = second.outputText ∧
        ∃ e f m n, Forks first.path second.path e f ∧
          FirstMadeAt rules e m ∧ FirstMadeAt rules f n ∧
          (g.FindsBefore text first.path second.path ↔ m < n) ∧
          ((∀ earlier ∈ rules.take i, f ∉ earlier.path) →
            g.FindsBefore text first.path second.path) := by
  obtain ⟨rules, hrules, hg⟩ := exists_threads_of_compile? hcompile
  refine ⟨rules, hrules, ?_⟩
  rintro text i j first second hi hj rfl hinput hfirst hsecond hsteps
  obtain rfl := hg.graph
  have hfirstMem := List.mem_of_getElem? hi
  have hsecondMem := List.mem_of_getElem? hj
  have hfirstAlign := hg.alignable hfirstMem
  have hsecondAlign := hg.alignable hsecondMem
  have hne : first.path ≠ second.path := fun heq =>
    hsteps (Rule.steps_eq_of_path_eq hfirstAlign hsecondAlign hinput.symm
      (hfirst.trans hsecond.symm) heq)
  have hp := Rule.accepts_path hfirstMem hfirstAlign hfirst
  have hq := Rule.accepts_path hsecondMem hsecondAlign hsecond
  rw [hinput] at hq
  obtain ⟨e, f, m, n, hfork, hm, hn, hiff⟩ := exists_forks_of_accepts hp hq hne
  refine ⟨Rule.join_emitted_path hfirstAlign, Rule.join_emitted_path hsecondAlign,
    e, f, m, n, hfork, hm, hn, hiff, fun hearlier => hiff.mpr ?_⟩
  obtain ⟨k, he, hf⟩ := hfork.exists_getElem?
  exact firstMadeAt_lt hfork.1 ⟨first, hi, he⟩ ⟨second, hj, hf⟩ hm hn hearlier

/-- Without the rule for another text, the paths of the two rules are in the order of the
rules. -/
theorem findsBefore_path_iff_unforked :
    ∃ g, compile? (forked.tail.map fun rule => .list rule.raw) = .ok g ∧
      g.FindsBefore "ab" forked[1].path forked[2].path := by
  obtain ⟨g, hg⟩ : ∃ g, compile? (forked.tail.map fun rule => .list rule.raw) = .ok g := ⟨_, rfl⟩
  obtain ⟨rules, hrules, h⟩ := findsBefore_path_iff hg
  obtain rfl : rules = forked.tail := Option.some.inj (hrules.symm.trans (by decide))
  obtain ⟨-, -, e, f, m, n, -, -, -, -, hfirst⟩ :=
    h "ab" 0 1 forked[1] forked[2] rfl rfl (by decide) (by decide) (by decide) (by decide)
      (by decide)
  exact ⟨g, hg, hfirst fun earlier hearlier => absurd hearlier List.not_mem_nil⟩

/-- With it, the path of the later rule is found first, as the rule for another text makes its
first edge. -/
theorem not_findsBefore_forked :
    ∃ g, compile? (forked.map fun rule => .list rule.raw) = .ok g ∧
      (∀ rule ∈ forked.tail, rule.inputText = "ab" ∧ rule.closes = true) ∧
      (forked.map Rule.steps).Nodup ∧ g.transduce "ab" = (["yb", "xb"] : List Text) ∧
      forked[1].outputText = "xb" ∧ forked[2].outputText = "yb" ∧
      ¬g.FindsBefore "ab" forked[1].path forked[2].path := by
  obtain ⟨g, hg⟩ : ∃ g, compile? (forked.map fun rule => .list rule.raw) = .ok g := ⟨_, rfl⟩
  have houtputs : g.transduce "ab" = (["yb", "xb"] : List Text) := by
    cases hg
    rw [transduce, transduceFrom_eq_walk]
    decide
  have hpaths : g.paths g.root ("ab" : Text).toList = [forked[2].path, forked[1].path] := by
    cases hg
    decide
  have hbefore : g.FindsBefore "ab" forked[2].path forked[1].path :=
    ⟨0, 1, Nat.zero_lt_one, finds_of_getElem?_paths (by rw [hpaths]; rfl),
      finds_of_getElem?_paths (by rw [hpaths]; rfl)⟩
  have hnodup : g.edges.Nodup := by
    cases hg
    decide
  exact ⟨g, hg, by decide, by decide, houtputs, by decide, by decide, hbefore.not_swap hnodup⟩

end Graph

end RuleTransducer
