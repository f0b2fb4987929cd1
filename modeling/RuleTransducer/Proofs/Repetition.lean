import RuleTransducer.Proofs.Reordering

/-! Repetition. A rule is threaded along the vertices that its own steps tell, so a rule that is
threaded once more finds each of its edges, however the graph has grown in between, and leaves no
trace. So of compiled rules those that repeat an earlier one can be left out, and the graph is the
same to the order of its vertices and edges. -/

namespace RuleTransducer

/-! ### First occurrences -/

theorem mem_of_mem_eraseDupsBy {β : Type} {r : β → β → Bool} {l : List β} {b : β}
    (h : b ∈ l.eraseDupsBy r) : b ∈ l := by
  have hloop (l kept : List β) : b ∈ List.eraseDupsBy.loop r l kept → b ∈ l ∨ b ∈ kept := by
    induction l generalizing kept with
    | nil => exact fun h => .inr (List.mem_reverse.mp h)
    | cons a l ih =>
      rw [List.eraseDupsBy.loop]
      split
      · exact fun h => (ih kept h).imp_left (List.mem_cons_of_mem a)
      · intro h
        obtain h | h := ih _ h
        · exact .inl (List.mem_cons_of_mem a h)
        · exact (List.mem_cons.mp h).imp (fun hb : b = a => hb ▸ List.mem_cons_self) id
  exact (hloop l [] h).resolve_right List.not_mem_nil

/-- The elements that are kept, each for the first with its part, have the parts that elements
have, each once. -/
theorem filterMap_eraseDupsBy {β γ : Type} [DecidableEq γ] (f : β → Option γ) (l : List β) :
    (l.eraseDupsBy fun a b => f a = f b).filterMap f = (l.filterMap f).eraseDups := by
  have hloop (l kept : List β) :
      (List.eraseDupsBy.loop (fun a b => f a = f b) l kept).filterMap f =
        List.eraseDupsBy.loop (· == ·) (l.filterMap f) (kept.filterMap f) := by
    induction l generalizing kept with
    | nil => exact List.filterMap_reverse
    | cons a l ih =>
      cases ha : f a with
      | none =>
        -- whether or not the element is kept, it has no part
        rw [List.filterMap_cons_none ha, List.eraseDupsBy.loop]
        split
        · exact ih kept
        · rw [ih, List.filterMap_cons_none ha]
      | some part =>
        have hknown : (kept.any fun b => f a = f b) = (kept.filterMap f).any (part == ·) := by
          rw [List.any_filterMap]
          refine congrArg kept.any (funext fun b => ?_)
          rw [ha]
          cases f b <;> simp [beq_eq_decide]
        rw [List.filterMap_cons_some ha, List.eraseDupsBy.loop, List.eraseDupsBy.loop, hknown]
        split
        · exact ih kept
        · rw [ih, List.filterMap_cons_some ha]
  exact hloop l []

namespace Graph

section Threading
variable {α : Type} [BEq α] [LawfulBEq α]

/-- Edges that a graph holds are not inserted again. -/
theorem addEdges_of_forall_mem {g : Graph α} {es : List (Edge α)} (h : ∀ e ∈ es, e ∈ g.edges) :
    g.addEdges es = g := by
  induction es with
  | nil => rfl
  | cons e es ih =>
    obtain ⟨he, hes⟩ := List.forall_mem_cons.mp h
    have hknown : (g.addEdge e).1 = g := by
      rw [addEdge, if_pos (List.contains_iff_mem.mpr he)]
    rw [addEdges_cons, hknown, ih hes]

variable [Fragment α]

theorem build_of_mem (g : Graph α) {rules : List Rule} {rule : Rule} (h : rule ∈ rules) :
    (g.buildRules rules).build rule = g.buildRules rules := by
  rw [build_eq, (grows_buildRules g rules).root]
  apply addEdges_of_forall_mem
  intro e he
  exact mem_edges_buildRules.mpr (.inr ⟨rule, h, he⟩)

/-- Rules that repeat an earlier one change nothing, in any graph. -/
theorem buildRules_eraseDups (g : Graph α) (rules : List Rule) :
    g.buildRules rules.eraseDups = g.buildRules rules := by
  induction rules using List.reverseRecOn with
  | nil => rfl
  | append_singleton rules rule ih =>
    have hlast (rules : List Rule) :
        g.buildRules (rules ++ [rule]) = (g.buildRules rules).build rule :=
      buildRules_append g rules [rule]
    rw [eraseDups_append_singleton, hlast]
    split
    case isTrue h => rw [ih, build_of_mem g (List.contains_iff_mem.mp h)]
    case isFalse => rw [hlast, ih]

end Threading

end Graph

/-- Whether two values declare one and the same rule over texts. -/
def Datum.declaresSame (first second : Datum) : Bool := first.textRule? = second.textRule?

namespace Graph

/-- Valid rules over texts compile, and rules that compile do so to the same graph when every later
repetition of an earlier rule is left out. So the vertices and edges are the same, in the same
order, as are the edges that leave a vertex on an input, and every text is parsed alike. -/
theorem compile?_eraseDupsBy (declared : List Datum) :
    ((∀ rule ∈ declared, rule.materialised.validate.isValid = true ∧ rule.IsTextual) →
      ∃ g, compile? declared = .ok g) ∧
    ∀ g, compile? declared = .ok g →
      compile? (declared.eraseDupsBy Datum.declaresSame) = .ok g := by
  refine ⟨exists_compile?_of_isValid, fun g hcompile => ?_⟩
  obtain ⟨hadmissible, rfl⟩ := compile?_eq_ok_iff_filterMap.mp hcompile
  have hrules : (declared.eraseDupsBy Datum.declaresSame).filterMap Datum.textRule? =
      (declared.filterMap Datum.textRule?).eraseDups := filterMap_eraseDupsBy _ _
  rw [compile?_eq_ok_iff_filterMap, hrules, buildRules_eraseDups]
  exact ⟨fun rule hrule => hadmissible rule (mem_of_mem_eraseDupsBy hrule), rfl⟩

/-- A rule that is declared again as a finished rule and as a pair of lists, behind rules for the
same text and for another one. -/
def restated : List Datum :=
  [.list [.tuple [.text "a", .text "x"], .text "b"], .list [.text "ab"], .list [.text "ac"],
    .rule [.transform (.text "a") (.text "x"), .literal (.text "b")],
    .list [.text "ab"], .list [.list [.text "a", .text "x"], .text "b"]]

theorem compile?_eraseDupsBy_restated :
    restated.eraseDupsBy Datum.declaresSame = restated.take 3 ∧
      ∃ g, compile? restated = .ok g ∧ compile? (restated.take 3) = .ok g := by
  obtain ⟨g, hg⟩ : ∃ g, compile? restated = .ok g := ⟨_, rfl⟩
  have hfirsts : restated.eraseDupsBy Datum.declaresSame = restated.take 3 := rfl
  exact ⟨hfirsts, g, hg, hfirsts ▸ (compile?_eraseDupsBy restated).2 g hg⟩

end Graph

end RuleTransducer
