import Mathlib.Data.List.Forall2
import Mathlib.Data.List.Perm.Basic

/-! Lists read element by element. Rules, items and elements are taken over by traversals in
`Option` and `Except`, which succeed exactly if every element does, and reports number what they
speak of. What holds of every element is carried over to the list here, once for all readers. -/

namespace RuleTransducer

variable {β γ δ ε : Type}

/-! ### Traversals -/

section Option
variable {f : β → Option γ} {l : List β} {parts : List γ}

/-- A traversal succeeds exactly if the first element has a part and the others succeed. -/
theorem mapM_cons_eq_some_iff {a : β} :
    (a :: l).mapM f = some parts ↔
      ∃ first, f a = some first ∧ ∃ rest, l.mapM f = some rest ∧ first :: rest = parts := by
  simp only [List.mapM_cons, Option.bind_eq_bind, Option.bind_eq_some_iff, Option.pure_def,
    Option.some.injEq]

theorem mapM_eq_some_iff_forall₂ :
    l.mapM f = some parts ↔ List.Forall₂ (fun part a => f a = some part) parts l := by
  induction l generalizing parts with
  | nil => cases parts <;> simp
  | cons a l ih =>
    rw [mapM_cons_eq_some_iff, List.forall₂_cons_right_iff]
    simp only [ih]
    constructor
    · rintro ⟨first, hfirst, rest, hrest, rfl⟩
      exact ⟨first, rest, hfirst, hrest, rfl⟩
    · rintro ⟨first, rest, hfirst, hrest, rfl⟩
      exact ⟨first, hfirst, rest, hrest, rfl⟩

/-- A traversal finds a result with a property of every part exactly if every element has a
part with it. -/
theorem exists_mapM_eq_some_iff {P : γ → Prop} :
    (∃ parts, l.mapM f = some parts ∧ ∀ part ∈ parts, P part) ↔
      ∀ a ∈ l, ∃ part, f a = some part ∧ P part := by
  induction l with
  | nil => simp
  | cons a l ih =>
    rw [List.forall_mem_cons, ← ih]
    cases hpart : f a with
    | none => simp [hpart]
    | some part => cases hparts : l.mapM f <;> simp [hpart, hparts]

theorem eq_filterMap_of_mapM (h : l.mapM f = some parts) : parts = l.filterMap f := by
  induction l generalizing parts with
  | nil =>
    cases h
    rfl
  | cons a l ih =>
    obtain ⟨first, hfirst, rest, hrest, rfl⟩ := mapM_cons_eq_some_iff.mp h
    rw [List.filterMap_cons_some hfirst, ← ih hrest]

/-- A list in another order has the same parts in another order. -/
theorem perm_of_mapM {l' : List β} {parts' : List γ} (h : l.Perm l')
    (hparts : l.mapM f = some parts) (hparts' : l'.mapM f = some parts') : parts.Perm parts' := by
  rw [eq_filterMap_of_mapM hparts, eq_filterMap_of_mapM hparts']
  exact h.filterMap f

end Option

/-- A traversal that reports errors succeeds exactly if it does element by element. -/
theorem mapM_eq_ok_iff_forall₂ {f : β → Except ε γ} {l : List β} {parts : List γ} :
    l.mapM f = .ok parts ↔ List.Forall₂ (fun a part => f a = .ok part) l parts := by
  induction l generalizing parts with
  | nil => cases parts <;> simp [pure, Except.pure]
  | cons a l ih =>
    rw [List.mapM_cons]
    cases hfirst : f a with
    | error e => cases parts <;> simp [hfirst, bind, Except.bind]
    | ok first =>
      cases hrest : l.mapM f with
      | error e => cases parts <;> simp [hfirst, hrest, ← ih, bind, Except.bind]
      | ok rest =>
        cases parts <;> simp [hfirst, hrest, ← ih, bind, Except.bind, pure, Except.pure]

/-- Lists that are related element by element have the same image where related elements have. -/
theorem map_eq_map_of_forall₂ {R : β → γ → Prop} {f : β → δ} {f' : γ → δ}
    (hR : ∀ b c, R b c → f b = f' c) {l : List β} {l' : List γ} (h : List.Forall₂ R l l') :
    l.map f = l'.map f' := by
  induction h with
  | nil => rfl
  | cons hfirst _ ih => rw [List.map_cons, List.map_cons, hR _ _ hfirst, ih]

/-! ### Numbered elements -/

/-- Nothing comes of the elements of a list under their indices exactly if each of them has the
property that says so. -/
theorem flatMap_zipIdx_eq_nil_iff {f : β × ℕ → List γ} {P : β → Prop} {l : List β}
    (hf : ∀ p, f p = [] ↔ P p.1) : l.zipIdx.flatMap f = [] ↔ ∀ b ∈ l, P b := by
  rw [List.flatMap_eq_nil_iff]
  simp only [hf]
  conv_rhs => rw [← List.zipIdx_map_fst 0 l]
  exact List.forall_mem_map.symm

theorem pairwise_zipIdx (l : List β) : l.zipIdx.Pairwise fun a b => a.2 < b.2 := by
  rw [← List.pairwise_map (f := Prod.snd), List.zipIdx_map_snd]
  exact List.pairwise_lt_range' 1

end RuleTransducer
