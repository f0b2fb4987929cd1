import RuleTransducer.Proofs.Registration

/-! Item boundaries. Each code point that a rule reads has its step, whatever item it stands in,
and only the last step of a rule closes. So a rule in which an item is cut in two, a literal is
written as a transform of a text to itself, or an item that neither reads nor writes is put in has
the same plan, and building it does the same in any graph, as long as an item that reads stays the
last one. -/

namespace RuleTransducer

open RuleTransducer.Alignment

/-- Where the first part of a source is as long as that of the destination, the two parts are
aligned on their own. -/
theorem Alignment.pairs_append {s d : List CodePoint} (h : s.length = d.length) {t : List CodePoint}
    (ht : t ≠ []) (e : List CodePoint) : pairs (s ++ t) (d ++ e) = pairs s d ++ pairs t e := by
  induction s generalizing d with
  | nil =>
    obtain rfl := List.length_eq_zero_iff.mp h.symm
    rw [pairs_nil]
    rfl
  | cons c s ih =>
    obtain ⟨x, d, rfl⟩ := List.exists_cons_of_length_eq_add_one h.symm
    have hlength : s.length = d.length := Nat.succ.inj h
    -- no code point of the first part is the last one, so each takes one of the destination
    have hcons {s d : List CodePoint} (hs : s ≠ []) :
        pairs (c :: s) (x :: d) = (c, Text.singleton x) :: pairs s d := by
      obtain ⟨c', s, rfl⟩ := List.exists_cons_of_ne_nil hs
      rw [pairs_cons_cons, List.take_succ_cons, List.take_zero, Text.singleton_eq_ofList]
      rfl
    rw [List.cons_append, List.cons_append, hcons (List.append_ne_nil_of_right_ne_nil s ht),
      ih hlength]
    cases s with
    | nil =>
      obtain rfl := List.length_eq_zero_iff.mp hlength.symm
      rw [pairs_nil, pairs_singleton, Text.singleton_eq_ofList]
      rfl
    | cons c' s => rw [hcons (List.cons_ne_nil c' s), List.cons_append]

namespace Rule

/-! ### Plans of runs of items -/

theorem planItems_of_inserts {item : Item Text} (h : item.Inserts) (rest : List (Item Text)) :
    planItems (item :: rest) = ([], some ⟨item.destination⟩) := by
  cases rest <;> simp [planItems, Item.steps_of_inserts h]

theorem planItems_singleton {item : Item Text} (h : ¬item.Inserts) :
    planItems [item] = (closeLast item.aligned, none) := by
  simp [planItems, Item.steps_of_not_inserts h]

/-- Of an item only its steps are planned. -/
theorem planItems_cons_congr {item item' : Item Text} (h : item.steps = item'.steps)
    (after : List (Item Text)) : planItems (item :: after) = planItems (item' :: after) := by
  cases after <;> simp [planItems, h]

/-- Items that are planned alike are planned alike behind others. -/
theorem planItems_append_congr {items items' : List (Item Text)} (hitems : items ≠ [])
    (hitems' : items' ≠ []) (h : planItems items = planItems items')
    (before : List (Item Text)) :
    planItems (before ++ items) = planItems (before ++ items') := by
  induction before with
  | nil => exact h
  | cons item before ih =>
    rw [List.cons_append, List.cons_append]
    by_cases hitem : item.Inserts
    · rw [planItems_of_inserts hitem, planItems_of_inserts hitem]
    · rw [planItems_cons hitem (List.append_ne_nil_of_right_ne_nil before hitems),
        planItems_cons hitem (List.append_ne_nil_of_right_ne_nil before hitems'), ih]

/-- Two items are planned as one that has the pairs of both, if the second one reads or others
follow. -/
theorem planItems_cut {item first second : Item Text} (hitem : ¬item.Inserts)
    (hfirst : ¬first.Inserts) (hsecond : ¬second.Inserts)
    (haligned : item.aligned = first.aligned ++ second.aligned) {after : List (Item Text)}
    (hlast : after = [] → second.source ≠ "") :
    planItems (first :: second :: after) = planItems (item :: after) := by
  rw [planItems_cons hfirst (List.cons_ne_nil second after)]
  cases after with
  | nil =>
    have hreads : second.aligned ≠ [] := mt Item.aligned_eq_nil_iff.mp (hlast rfl)
    rw [planItems_singleton hsecond, planItems_singleton hitem, haligned, closeLast_append _ hreads]
  | cons next after =>
    have hnext := List.cons_ne_nil next after
    rw [planItems_cons hsecond hnext, planItems_cons hitem hnext, haligned, openAll_append,
      List.append_assoc]

/-- An item that neither reads nor writes has no part in the plan of the items behind it. -/
theorem planItems_blank {item : Item Text} (hsource : item.source = "")
    (hdestination : item.destination = "") (after : List (Item Text)) :
    planItems (item :: after) = planItems after := by
  have hitem : ¬item.Inserts := fun h => h.2 hdestination
  have haligned : item.aligned = [] := Item.aligned_eq_nil_iff.mpr hsource
  cases after with
  | nil =>
    rw [planItems_singleton hitem, haligned]
    rfl
  | cons next after =>
    rw [planItems_cons hitem (List.cons_ne_nil next after), haligned]
    rfl

/-! ### Recut rules -/

/-- One rule is another with an item cut or rewritten, or put in, so that each code point is still
read with the same fragment, and the last one in the last item. -/
inductive Recut : Rule → Rule → Prop
  /-- A literal in two parts. -/
  | cutLiteral (before after : List (Item Text)) (s t : Text) (hlast : after = [] → t ≠ "") :
      Recut ⟨before ++ .literal (s ++ t) :: after⟩ ⟨before ++ .literal s :: .literal t :: after⟩
  /-- A literal as a transform of its text to itself. -/
  | copy (before after : List (Item Text)) (s : Text) :
      Recut ⟨before ++ .literal s :: after⟩ ⟨before ++ .transform s s :: after⟩
  /-- A transform in two parts, of which the first reads as much as it writes. -/
  | cutTransform (before after : List (Item Text)) (s t d e : Text)
      (hlength : s.length = d.length) (hlast : after = [] → t ≠ "") (hrest : t = "" → e = "") :
      Recut ⟨before ++ .transform (s ++ t) (d ++ e) :: after⟩
        ⟨before ++ .transform s d :: .transform t e :: after⟩
  /-- An item that neither reads nor writes, anywhere but behind the last item. -/
  | insert (before after : List (Item Text)) (item : Item Text) (hsource : item.source = "")
      (hdestination : item.destination = "") (hlast : after = [] → before = []) :
      Recut ⟨before ++ after⟩ ⟨before ++ item :: after⟩

theorem Recut.inputText_eq {rule rule' : Rule} (h : rule.Recut rule') :
    rule'.inputText = rule.inputText := by
  cases h with
  | cutLiteral before after s t => simp [inputText, Item.source, Text.append_assoc]
  | copy before after s => simp [inputText, Item.source]
  | cutTransform before after s t d e => simp [inputText, Item.source, Text.append_assoc]
  | insert before after item hsource => simp [inputText, hsource]

theorem Recut.plan_eq {rule rule' : Rule} (h : rule.Recut rule') : rule'.plan = rule.plan := by
  rw [plan, plan]
  cases h with
  | cutLiteral before after s t hlast =>
    have hcopies (s : Text) : ¬(Item.literal s).Inserts := fun h => h.2 h.1
    have haligned (s : Text) :
        (Item.literal s).aligned = s.toList.map fun c => (c, Text.singleton c) := pairs_self _
    apply planItems_append_congr (List.cons_ne_nil _ _) (List.cons_ne_nil _ _)
    apply planItems_cut (hcopies _) (hcopies s) (hcopies t) _ hlast
    rw [haligned, haligned, haligned, Text.toList_append, List.map_append]
  | copy before after s =>
    have hsteps : (Item.transform s s).steps = (Item.literal s).steps := align_self s
    apply planItems_append_congr (List.cons_ne_nil _ _) (List.cons_ne_nil _ _)
    exact planItems_cons_congr hsteps after
  | cutTransform before after s t d e hlength hlast hrest =>
    have hempty (hs : s = "") : d = "" := by
      rw [← Text.length_eq_zero_iff, ← hlength, hs]
      rfl
    have hitem : ¬(Item.transform (s ++ t) (d ++ e)).Inserts := by
      rintro ⟨hsource, hdestination⟩
      obtain ⟨hs, ht⟩ := Text.append_eq_empty_iff.mp hsource
      exact hdestination (Text.append_eq_empty_iff.mpr ⟨hempty hs, hrest ht⟩)
    have hfirst : ¬(Item.transform s d).Inserts := fun h => h.2 (hempty h.1)
    have hsecond : ¬(Item.transform t e).Inserts := fun h => h.2 (hrest h.1)
    apply planItems_append_congr (List.cons_ne_nil _ _) (List.cons_ne_nil _ _)
    apply planItems_cut hitem hfirst hsecond _ hlast
    simp only [Item.aligned, Item.source, Item.destination, Text.toList_append]
    by_cases ht : t = ""
    · rw [ht, hrest ht]
      simp [pairs_nil]
    · rw [← Text.length_toList, ← Text.length_toList] at hlength
      exact pairs_append hlength (mt Text.toList_eq_nil_iff.mp ht) _
  | insert before after item hsource hdestination hlast =>
    cases after with
    | nil =>
      rw [hlast rfl]
      exact planItems_blank hsource hdestination []
    | cons next after =>
      apply planItems_append_congr (List.cons_ne_nil _ _) (List.cons_ne_nil _ _)
      exact planItems_blank hsource hdestination (next :: after)

end Rule

namespace Graph

variable {α : Type} [BEq α] [Fragment α]

/-- A rule that is recut is built just as before, in any graph: the same edges are made in the same
order, as many of them are new, and the same insertion stops the rule, if one does. So it leaves
the same vertices and edges, in the same order, and it is built in full if the rule was. -/
theorem buildDeclared_of_recut (g : Graph α) {declared declared' : Datum} {rule rule' : Rule}
    (hrule : declared.textRule? = some rule) (hrule' : declared'.textRule? = some rule')
    (h : rule.Recut rule') : g.buildDeclared declared' = g.buildDeclared declared := by
  rw [buildDeclared_of_textRule? hrule, buildDeclared_of_textRule? hrule']
  simp only [buildRule, thread, h.plan_eq, h.inputText_eq]

/-- A transform at the end of a rule that writes more than it reads, cut behind its first code
point, in a graph with another root. -/
theorem buildDeclared_of_recut_unevenTransform :
    let g : Graph Text := rooted ⟨"q", "z", .terminal⟩
    g.buildDeclared
        (.list [.text "p", .tuple [.text "a", .text "x"], .tuple [.text "bc", .text "yzw"]]) =
      g.buildDeclared (.list [.text "p", .tuple [.text "abc", .text "xyzw"]]) := by
  intro g
  have hcut : Rule.Recut ⟨[.literal "p", .transform "abc" "xyzw"]⟩
      ⟨[.literal "p", .transform "a" "x", .transform "bc" "yzw"]⟩ :=
    .cutTransform [.literal "p"] [] "a" "bc" "x" "yzw" rfl (by decide) (by decide)
  exact buildDeclared_of_recut g rfl rfl hcut

end Graph

end RuleTransducer
