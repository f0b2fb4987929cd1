import Mathlib.Data.List.Induction
import RuleTransducer.Rule.Basic

/-! Laws of alignment. The three cases of an alignment meet in one recursion on the source:
every code point but the last takes one code point of the destination, and the last takes
all that is left. So the inputs of an alignment spell the source and its fragments the
destination, and copying a text is aligning it with itself. -/

namespace RuleTransducer

namespace Alignment

/-! ### Pairs -/

theorem pairs_nil (d : List CodePoint) : pairs [] d = [] := by
  cases d <;> simp [pairs]

theorem pairs_singleton (c : CodePoint) (d : List CodePoint) :
    pairs [c] d = [(c, Text.ofList d)] := by
  match d with
  | [] => rfl
  | [x] => simp [pairs, Text.singleton_eq_ofList]
  | x :: y :: d => simp [pairs]

theorem pairs_cons_cons (c c' : CodePoint) (s d : List CodePoint) :
    pairs (c :: c' :: s) d = (c, Text.ofList (d.take 1)) :: pairs (c' :: s) (d.drop 1) := by
  cases d with
  | nil => simp [pairs]
  | cons x d =>
    simp only [pairs, List.length_cons, Nat.add_lt_add_iff_right, List.take_succ_cons,
      List.drop_succ_cons, List.take_zero, List.drop_zero]
    by_cases hlonger : d.length < s.length + 1
    · rw [if_pos hlonger, if_pos hlonger]
      rfl
    · rw [if_neg hlonger, if_neg hlonger]
      by_cases hshorter : s.length + 1 < d.length
      · rw [if_pos hshorter, if_pos hshorter]
        rfl
      · rw [if_neg hshorter, if_neg hshorter]
        rfl

/-- The inputs of an alignment spell the source. -/
theorem map_fst_pairs (s d : List CodePoint) : (pairs s d).map Prod.fst = s := by
  induction s generalizing d with
  | nil => rw [pairs_nil]; rfl
  | cons c s ih =>
    cases s with
    | nil => rw [pairs_singleton]; rfl
    | cons c' s => rw [pairs_cons_cons, List.map_cons, ih]

/-- The fragments of an alignment spell the destination, if there is a source. -/
theorem join_map_snd_pairs {s : List CodePoint} (hs : s ≠ []) (d : List CodePoint) :
    Text.join ((pairs s d).map Prod.snd) = Text.ofList d := by
  induction s generalizing d with
  | nil => exact absurd rfl hs
  | cons c s ih =>
    cases s with
    | nil => rw [pairs_singleton]; simp
    | cons c' s =>
      rw [pairs_cons_cons, List.map_cons, Text.join_cons, ih (List.cons_ne_nil c' s),
        ← Text.ofList_append, List.take_append_drop]

theorem length_pairs (s d : List CodePoint) : (pairs s d).length = s.length := by
  rw [← List.length_map Prod.fst, map_fst_pairs]

theorem pairs_eq_nil_iff {s d : List CodePoint} : pairs s d = [] ↔ s = [] := by
  rw [← List.length_eq_zero_iff, length_pairs, List.length_eq_zero_iff]

/-- A text aligned with itself gives each code point to itself. -/
theorem pairs_self (s : List CodePoint) : pairs s s = s.map fun c => (c, Text.singleton c) := by
  simp [pairs, List.zip, List.zipWith_map_right, List.zipWith_self]

/-- What the code point at an index of the source emits: one code point of the destination, and at
the last index all that is left. -/
def share (source destination : List CodePoint) (i : ℕ) : List CodePoint :=
  if i + 1 = source.length then destination.drop i else (destination.drop i).take 1

/-- The three cases of an alignment are one formula. -/
theorem getElem?_pairs (s d : List CodePoint) (i : ℕ) :
    (pairs s d)[i]? = s[i]?.map fun c => (c, Text.ofList (share s d i)) := by
  induction s generalizing d i with
  | nil => rw [pairs_nil]; rfl
  | cons c s ih =>
    cases s with
    | nil =>
      rw [pairs_singleton]
      cases i <;> rfl
    | cons c' s =>
      rw [pairs_cons_cons]
      cases i with
      | zero => rfl
      | succ i =>
        have hshare : share (c' :: s) (d.drop 1) i = share (c :: c' :: s) d (i + 1) := by
          simp only [share, List.length_cons, List.drop_drop, Nat.add_right_cancel_iff,
            Nat.add_comm 1 i]
        rw [List.getElem?_cons_succ, List.getElem?_cons_succ, ih, hshare]

/-! ### Steps -/

/-- Turns pairs into steps that close nothing. -/
def openAll (ps : List (CodePoint × Text)) : List Step := ps.map fun p => ⟨p.1, p.2, false⟩

@[simp] theorem openAll_nil : openAll [] = [] := rfl

theorem openAll_append (ps qs : List (CodePoint × Text)) :
    openAll (ps ++ qs) = openAll ps ++ openAll qs := List.map_append

@[simp] theorem map_input_openAll (ps : List (CodePoint × Text)) :
    (openAll ps).map Step.input = ps.map Prod.fst := by
  simp [openAll]

@[simp] theorem map_output_openAll (ps : List (CodePoint × Text)) :
    (openAll ps).map Step.output = ps.map Prod.snd := by
  simp [openAll]

/-- Only the last of a run of closed pairs closes. -/
theorem closeLast_append_singleton (ps : List (CodePoint × Text)) (p : CodePoint × Text) :
    closeLast (ps ++ [p]) = openAll ps ++ [⟨p.1, p.2, true⟩] := by
  induction ps with
  | nil => rfl
  | cons q ps ih =>
    cases ps with
    | nil => rfl
    | cons r ps => simpa [closeLast, openAll] using ih

theorem closeLast_append (ps : List (CodePoint × Text)) {qs : List (CodePoint × Text)}
    (hqs : qs ≠ []) :
    closeLast (ps ++ qs) = openAll ps ++ closeLast qs := by
  cases qs using List.reverseRecOn with
  | nil => exact absurd rfl hqs
  | append_singleton qs q =>
    rw [← List.append_assoc, closeLast_append_singleton, closeLast_append_singleton,
      openAll_append, List.append_assoc]

@[simp] theorem map_opened_closeLast (ps : List (CodePoint × Text)) :
    (closeLast ps).map Step.opened = openAll ps := by
  induction ps using List.reverseRecOn with
  | nil => rfl
  | append_singleton ps p => simp [closeLast_append_singleton, openAll, Step.opened]

@[simp] theorem map_input_closeLast (ps : List (CodePoint × Text)) :
    (closeLast ps).map Step.input = ps.map Prod.fst := by
  induction ps using List.reverseRecOn with
  | nil => rfl
  | append_singleton ps p => simp [closeLast_append_singleton]

@[simp] theorem map_output_closeLast (ps : List (CodePoint × Text)) :
    (closeLast ps).map Step.output = ps.map Prod.snd := by
  induction ps using List.reverseRecOn with
  | nil => rfl
  | append_singleton ps p => simp [closeLast_append_singleton]

theorem length_closeLast (ps : List (CodePoint × Text)) : (closeLast ps).length = ps.length := by
  rw [← List.length_map Step.input, map_input_closeLast, List.length_map]

/-- The steps of a list of which at most the last closes. -/
def OnlyLastCloses (steps : List Step) : Prop := steps.Pairwise fun a _ => a.closing = false

theorem onlyLastCloses_openAll (ps : List (CodePoint × Text)) : OnlyLastCloses (openAll ps) :=
  List.pairwise_map.mpr (List.pairwise_of_forall fun _ _ => rfl)

theorem onlyLastCloses_closeLast (ps : List (CodePoint × Text)) :
    OnlyLastCloses (closeLast ps) := by
  cases ps using List.reverseRecOn with
  | nil => exact List.Pairwise.nil
  | append_singleton ps p =>
    rw [closeLast_append_singleton]
    refine List.pairwise_append.mpr
      ⟨onlyLastCloses_openAll ps, List.pairwise_singleton _ _, fun a ha _ _ => ?_⟩
    obtain ⟨q, _, rfl⟩ := List.mem_map.mp ha
    rfl

/-- The steps before another step are open. -/
theorem OnlyLastCloses.closing_of_mem_take {steps : List Step} (h : OnlyLastCloses steps) {i : ℕ}
    {step earlier : Step} (hstep : steps[i]? = some step) (hearlier : earlier ∈ steps.take i) :
    earlier.closing = false := by
  obtain ⟨rest, hrest⟩ : ∃ rest, steps.drop i = step :: rest := by
    obtain ⟨hi, rfl⟩ := List.getElem?_eq_some_iff.mp hstep
    exact ⟨_, List.drop_eq_getElem_cons hi⟩
  unfold OnlyLastCloses at h
  rw [← List.take_append_drop i steps, hrest] at h
  exact (List.pairwise_append.mp h).2.2 earlier hearlier step List.mem_cons_self

theorem getElem?_openAll (ps : List (CodePoint × Text)) (i : ℕ) :
    (openAll ps)[i]? = ps[i]?.map fun p => ⟨p.1, p.2, false⟩ := List.getElem?_map

theorem getElem?_closeLast (ps : List (CodePoint × Text)) (i : ℕ) :
    (closeLast ps)[i]? = ps[i]?.map fun p => ⟨p.1, p.2, decide (i + 1 = ps.length)⟩ := by
  cases ps using List.reverseRecOn with
  | nil => rfl
  | append_singleton ps p =>
    have hlen : (openAll ps).length = ps.length := List.length_map ..
    rw [closeLast_append_singleton, List.getElem?_append, List.getElem?_append, hlen,
      List.length_append, List.length_singleton]
    split
    case isTrue hi =>
      have hlast : i ≠ ps.length := by omega
      simp [getElem?_openAll, hlast]
    case isFalse hi =>
      by_cases hlast : i = ps.length
      · simp [hlast]
      · have hout : 1 ≤ i - ps.length := by omega
        simp [List.getElem?_eq_none, hout]

end Alignment

namespace Item

open RuleTransducer.Alignment

/-- The pairs of code point and fragment of an item. -/
def aligned (item : Item Text) : List (CodePoint × Text) :=
  pairs item.source.toList item.destination.toList

/-- Whether an item emits without reading. -/
def Inserts (item : Item Text) : Prop := item.source = "" ∧ item.destination ≠ ""

instance (item : Item Text) : Decidable item.Inserts :=
  inferInstanceAs (Decidable (_ ∧ _))

theorem map_fst_aligned (item : Item Text) : item.aligned.map Prod.fst = item.source.toList :=
  map_fst_pairs _ _

theorem aligned_eq_nil_iff {item : Item Text} : item.aligned = [] ↔ item.source = "" := by
  rw [aligned, pairs_eq_nil_iff, Text.toList_eq_nil_iff]

theorem join_map_snd_aligned {item : Item Text} (h : ¬item.Inserts) :
    Text.join (item.aligned.map Prod.snd) = item.destination := by
  by_cases hs : item.source = ""
  · have hd : item.destination = "" := not_not.mp fun hd => h ⟨hs, hd⟩
    rw [aligned_eq_nil_iff.mpr hs, hd]
    rfl
  · rw [aligned, join_map_snd_pairs (mt Text.toList_eq_nil_iff.mp hs), Text.ofList_toList]

theorem steps_of_inserts {item : Item Text} (h : item.Inserts) :
    item.steps = .error ⟨item.destination⟩ := by
  obtain ⟨hs, hd⟩ := h
  cases item with
  | literal text => exact absurd hs hd
  | transform source destination =>
    obtain ⟨c, d, hcd⟩ := List.exists_cons_of_ne_nil (mt Text.toList_eq_nil_iff.mp hd)
    simp only [Item.source, Item.destination] at hs hcd ⊢
    simp [steps, align, hs, hcd]

/-- Literals and transforms alike have the steps of their aligned pairs. -/
theorem steps_of_not_inserts {item : Item Text} (h : ¬item.Inserts) :
    item.steps = .ok (closeLast item.aligned) := by
  cases item with
  | literal text => simp [steps, identity, aligned, source, destination, pairs_self]
  | transform source destination =>
    simp only [Inserts, Item.source, Item.destination] at h
    simp only [steps, align, aligned, Item.source, Item.destination]
    split
    · simp_all [pairs_nil, closeLast]
    · simp_all [← Text.toList_eq_nil_iff]
    · rfl

end Item

namespace Alignment

/-! ### Alignments as a whole -/

/-- An alignment fails exactly on an insertion. -/
theorem align_eq_error_iff {source destination : Text} {e : Insertion} :
    align source destination = .error e ↔
      (source = "" ∧ destination ≠ "") ∧ e = ⟨destination⟩ := by
  by_cases h : (Item.transform source destination).Inserts
  · have herror : align source destination = .error ⟨destination⟩ := Item.steps_of_inserts h
    rw [herror, Except.error.injEq, eq_comm]
    exact (and_iff_right h).symm
  · have hok : align source destination = .ok _ := Item.steps_of_not_inserts h
    rw [hok]
    exact iff_of_false nofun fun hinserts => h hinserts.1

/-- Any other alignment closes the pairs of its texts. -/
theorem align_eq_ok {source destination : Text} {steps : List Step}
    (h : align source destination = .ok steps) :
    ¬(Item.transform source destination).Inserts ∧
      steps = closeLast (Item.transform source destination).aligned := by
  have hno : ¬(Item.transform source destination).Inserts := by
    intro hinserts
    have herror := align_eq_error_iff.mpr ⟨hinserts, rfl⟩
    cases h.symm.trans herror
  have hok : align source destination = .ok _ := Item.steps_of_not_inserts hno
  exact ⟨hno, Except.ok.inj (h.symm.trans hok)⟩

/-- Copying a text is aligning it with itself. -/
theorem align_self (text : Text) : align text text = .ok (identity text) := by
  have hno : ¬(Item.transform text text).Inserts := fun h => h.2 h.1
  have hok : align text text = .ok (closeLast (pairs text.toList text.toList)) :=
    Item.steps_of_not_inserts hno
  rw [hok, pairs_self, identity]

/-- An alignment fails exactly on the empty source with a destination. Otherwise it has one step for
each code point of the source. A step emits one code point of the destination, the last one all that
is left, and only the last one closes; so the steps read the source and emit the destination.
Copying a text is aligning it with itself. -/
theorem align_eq_shares (source destination : Text) :
    (∀ e, align source destination = .error e ↔
      (source = "" ∧ destination ≠ "") ∧ e = ⟨destination⟩) ∧
    (∀ steps : List Step, align source destination = .ok steps →
      steps.length = source.length ∧
      (∀ i : ℕ, steps[i]? = source.toList[i]?.map fun c =>
        Step.mk c (Text.ofList (share source.toList destination.toList i))
          (i + 1 = source.length)) ∧
      Text.ofList (steps.map Step.input) = source ∧
      Text.join (steps.map Step.output) = destination) ∧
    align source source = .ok (identity source) := by
  refine ⟨fun e => align_eq_error_iff, fun steps hsteps => ?_, align_self source⟩
  obtain ⟨hno, rfl⟩ := align_eq_ok hsteps
  have hlength : (Item.transform source destination).aligned.length = source.length :=
    (length_pairs _ _).trans Text.length_toList
  refine ⟨?_, fun i => ?_, ?_, ?_⟩
  · rw [length_closeLast, hlength]
  · rw [getElem?_closeLast, hlength, Item.aligned, getElem?_pairs, Option.map_map]
    rfl
  · rw [map_input_closeLast, Item.map_fst_aligned, Item.source, Text.ofList_toList]
  · rw [map_output_closeLast, Item.join_map_snd_aligned hno, Item.destination]

/-- A source of three code points with a destination of four. -/
theorem align_eq_shares_ying :
    align "ing" "ying" = .ok [⟨'i', "y", false⟩, ⟨'n', "i", false⟩, ⟨'g', "ng", true⟩] ∧
      ∃ steps, align "ing" "ying" = .ok steps ∧ steps[2]? = some ⟨'g', "ng", true⟩ ∧
        Text.join (steps.map Step.output) = "ying" := by
  have hsteps : align "ing" "ying" =
      .ok [⟨'i', "y", false⟩, ⟨'n', "i", false⟩, ⟨'g', "ng", true⟩] := by decide
  obtain ⟨-, hall, -⟩ := align_eq_shares "ing" "ying"
  obtain ⟨-, hshare, -, houtput⟩ := hall _ hsteps
  exact ⟨hsteps, _, hsteps, hshare 2, houtput⟩

end Alignment

end RuleTransducer
