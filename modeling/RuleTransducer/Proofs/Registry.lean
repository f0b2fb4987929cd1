import Mathlib.Data.List.Induction
import Mathlib.Data.List.Nodup
import Mathlib.Data.List.Range
import RuleTransducer.Session

/-! Runs of a registry. A call either adds one session with the next fresh identifier behind
the active ones, or closes one, or leaves the identifiers alone. So after any run the active
identifiers are those of the created sessions that no later call closed, in the order of
creation; and as no identifier is issued twice, a closed one stays unknown. -/

namespace RuleTransducer.Registry

/-! ### Calls and their history -/

/-- A call on a registry. -/
inductive Call
  | create (rules : Datum) (name : Option String)
  | get (id : String)
  | close (id : String)
  | parse (id : String) (text : Text)
  | parseBatch (id : String) (texts : List Text)
  | stats (id : String)
  | list

/-- The session that a call asks for. -/
def Call.asks? : Call → Option String
  | get id | parse id _ | parseBatch id _ | stats id => some id
  | create _ _ | close _ | list => none

/-- The session that a call closes. -/
def Call.closes? : Call → Option String
  | close id => some id
  | _ => none

/-- What a call answers. -/
inductive Reply
  | created (result : Except RuleError Session)
  | session (session? : Option Session)
  | closed (wasActive : Bool)
  | parsed (outcome? : Option (Outcome Text))
  | batch (outcomes? : Option (List (Outcome Text)))
  | stats (stats? : Option Stats)
  | active (ids : List String)

/-- Whether an answer is about a session that was found. -/
def Reply.finds : Reply → Bool
  | session session? => session?.isSome
  | parsed outcome? => outcome?.isSome
  | batch outcomes? => outcomes?.isSome
  | stats stats? => stats?.isSome
  | created _ | closed _ | active _ => false

/-- The registry after a call, and the answer. -/
def perform (fresh : ℕ → String) (r : Registry) : Call → Registry × Reply
  | .create rules name =>
    let (r, result) := r.create rules name fresh
    (r, .created result)
  | .get id => (r, .session (r.find? id))
  | .close id =>
    let (r, wasActive) := r.close id
    (r, .closed wasActive)
  | .parse id text =>
    let (r, outcome?) := r.parse id text
    (r, .parsed outcome?)
  | .parseBatch id texts =>
    let (r, outcomes?) := r.parseBatch id texts
    (r, .batch outcomes?)
  | .stats id => (r, .stats (r.stats? id))
  | .list => (r, .active r.ids)

/-- The registry after a run of calls. -/
def run (fresh : ℕ → String) (r : Registry) (calls : List Call) : Registry :=
  calls.foldl (fun r call => (r.perform fresh call).1) r

/-- The calls of a run, each with its answer. -/
def history (fresh : ℕ → String) (r : Registry) : List Call → List (Call × Reply)
  | [] => []
  | call :: rest => (call, (r.perform fresh call).2) :: (r.perform fresh call).1.history fresh rest

/-- The identifiers of the sessions created in a history, in order. -/
def created (past : List (Call × Reply)) : List String :=
  past.filterMap fun
    | (_, .created (.ok session)) => some session.id
    | _ => none

/-- Whether a history ends a session: behind its creation stands a call that closes it. -/
def Ends (past : List (Call × Reply)) (id : String) : Prop :=
  ∃ before reply later, past = before ++ (.close id, reply) :: later ∧ id ∈ created before

theorem run_append (fresh : ℕ → String) (r : Registry) (calls later : List Call) :
    r.run fresh (calls ++ later) = (r.run fresh calls).run fresh later := List.foldl_append

theorem history_append (fresh : ℕ → String) (r : Registry) (calls later : List Call) :
    r.history fresh (calls ++ later) =
      r.history fresh calls ++ (r.run fresh calls).history fresh later := by
  induction calls generalizing r with
  | nil => rfl
  | cons call calls ih =>
    simp only [List.cons_append, history, ih]
    rfl

theorem created_append (past later : List (Call × Reply)) :
    created (past ++ later) = created past ++ created later := List.filterMap_append

theorem Ends.mem_created {past : List (Call × Reply)} {id : String} (h : Ends past id) :
    id ∈ created past := by
  obtain ⟨before, reply, later, rfl, hid⟩ := h
  rw [created_append]
  exact List.mem_append_left _ hid

theorem ends_append_singleton {past : List (Call × Reply)} {call : Call} {reply : Reply}
    {id : String} :
    Ends (past ++ [(call, reply)]) id ↔
      Ends past id ∨ call.closes? = some id ∧ id ∈ created past := by
  constructor
  · rintro ⟨before, reply', later, hpast, hid⟩
    cases later using List.reverseRecOn with
    | nil =>
      obtain ⟨rfl, hlast⟩ := List.append_inj' hpast rfl
      obtain ⟨rfl, -⟩ := Prod.mk.inj (List.singleton_inj.mp hlast)
      exact .inr ⟨rfl, hid⟩
    | append_singleton later last =>
      rw [← List.cons_append, ← List.append_assoc] at hpast
      obtain ⟨rfl, -⟩ := List.append_inj' hpast rfl
      exact .inl ⟨before, reply', later, rfl, hid⟩
  · rintro (⟨before, reply', later, rfl, hid⟩ | ⟨hcloses, hid⟩)
    · exact ⟨before, reply', later ++ [(call, reply)], by simp, hid⟩
    · cases call with
      | close closed =>
        obtain rfl : closed = id := Option.some.inj hcloses
        exact ⟨past, reply, [], rfl, hid⟩
      | _ => cases hcloses

/-! ### One call -/

section Call
variable (fresh : ℕ → String) (r : Registry)

/-- A creation fails and changes nothing, or it registers what its rules compile to under the
next fresh identifier. -/
theorem create_cases (rules : Datum) (name : Option String) :
    (∃ e, r.create rules name fresh = (r, .error e)) ∨
      ∃ raw graph, rules.rawRules = .ok raw ∧ compile? raw = .ok graph ∧
        r.create rules name fresh =
          (⟨r.issued + 1, r.sessions ++ [⟨fresh (r.issued + 1), name, raw, graph, 0⟩]⟩,
            .ok ⟨fresh (r.issued + 1), name, raw, graph, 0⟩) := by
  unfold create
  cases hraw : rules.rawRules with
  | error e => exact .inl ⟨_, rfl⟩
  | ok raw =>
    cases hgraph : compile? raw with
    | error e => exact .inl ⟨e, by simp only [hgraph]⟩
    | ok graph => exact .inr ⟨raw, graph, rfl, hgraph, by simp only [hgraph]⟩

theorem isSome_find?_iff {id : String} : (r.find? id).isSome = true ↔ id ∈ r.ids := by
  simp [find?, ids]

theorem isSome_find?_eq_decide (id : String) : (r.find? id).isSome = decide (id ∈ r.ids) := by
  rw [Bool.eq_iff_iff, decide_eq_true_iff, isSome_find?_iff]

@[simp] theorem ids_count (id : String) (n : ℕ) : (r.count id n).ids = r.ids := by
  simp only [ids, count, List.map_map]
  apply List.map_congr_left
  intro session _
  simp only [Function.comp_apply]
  split <;> rfl

/-- Counting on a session that is not active changes nothing. -/
theorem count_of_find?_eq_none {r : Registry} {id : String} (h : r.find? id = none) (n : ℕ) :
    r.count id n = r := by
  have hother : ∀ session ∈ r.sessions, session.id ≠ id := by
    simpa [find?] using h
  have hsame := List.map_congr_left (f := fun session => if session.id = id then
    { session with parseCount := session.parseCount + n } else session)
    (g := fun session => session) fun session hsession => if_neg (hother session hsession)
  rw [count, hsame, List.map_id']

theorem parse_eq (id : String) (text : Text) :
    r.parse id text = (r.count id 1, (r.find? id).map fun session => session.graph.parse text) := by
  unfold parse
  cases hfind : r.find? id with
  | none => rw [count_of_find?_eq_none hfind]; rfl
  | some session => rfl

theorem parseBatch_eq (id : String) (texts : List Text) :
    r.parseBatch id texts =
      (r.count id texts.length,
        (r.find? id).map fun session => session.graph.parseBatch texts) := by
  unfold parseBatch
  cases hfind : r.find? id with
  | none => rw [count_of_find?_eq_none hfind]; rfl
  | some session => rfl

theorem ids_close (id : String) : (r.close id).1.ids = r.ids.filter fun other => other ≠ id := by
  simp only [ids, close, List.filter_map]
  rfl

/-- A call that asks for a session finds it exactly if it is active. -/
theorem finds_perform_iff {call : Call} {id : String} (h : call.asks? = some id) :
    (r.perform fresh call).2.finds = true ↔ id ∈ r.ids := by
  rw [← isSome_find?_iff]
  cases call with
  | get other | stats other =>
    obtain rfl : other = id := Option.some.inj h
    simp [perform, Reply.finds, stats?]
  | parse other text =>
    obtain rfl : other = id := Option.some.inj h
    simp [perform, Reply.finds, parse_eq]
  | parseBatch other texts =>
    obtain rfl : other = id := Option.some.inj h
    simp [perform, Reply.finds, parseBatch_eq]
  | _ => cases h

/-- A call takes away the identifier that it closes and adds that of the session it creates. -/
theorem ids_perform (call : Call) :
    (r.perform fresh call).1.ids =
      (r.ids.filter fun id => call.closes? ≠ some id) ++
        created [(call, (r.perform fresh call).2)] := by
  cases call with
  | create rules name =>
    obtain ⟨e, he⟩ | ⟨raw, graph, -, -, hcreate⟩ := create_cases fresh r rules name
    · simp [perform, he, created, Call.closes?]
    · simp [perform, hcreate, created, Call.closes?, ids]
  | close id => simp [perform, created, Call.closes?, ids_close, eq_comm]
  | parse id text => simp [perform, parse_eq, created, Call.closes?]
  | parseBatch id texts => simp [perform, parseBatch_eq, created, Call.closes?]
  | _ => simp [perform, created, Call.closes?]

/-- A call creates nothing, or a session with the next fresh identifier. -/
theorem created_perform_cases (call : Call) :
    (created [(call, (r.perform fresh call).2)] = [] ∧
        (r.perform fresh call).1.issued = r.issued) ∨
      (created [(call, (r.perform fresh call).2)] = [fresh (r.issued + 1)] ∧
        (r.perform fresh call).1.issued = r.issued + 1) := by
  cases call with
  | create rules name =>
    obtain ⟨e, he⟩ | ⟨raw, graph, -, -, hcreate⟩ := create_cases fresh r rules name
    · simp [perform, he, created]
    · simp [perform, hcreate, created]
  | parse id text => simp [perform, parse_eq, created, count]
  | parseBatch id texts => simp [perform, parseBatch_eq, created, count]
  | _ => simp [perform, created, close]

end Call

/-! ### What a history tells of a registry -/

/-- A registry that a history leads to from the empty one. Created are the identifiers issued so
far; active are those of them that the history does not end. -/
structure Fits (fresh : ℕ → String) (r : Registry) (past : List (Call × Reply)) : Prop where
  issued : created past = (List.range r.issued).map fun n => fresh (n + 1)
  sublist : r.ids.Sublist (created past)
  active : ∀ id, id ∈ r.ids ↔ id ∈ created past ∧ ¬Ends past id

section Fits
variable {fresh : ℕ → String} (hfresh : Function.Injective fresh) {r : Registry}
  {past : List (Call × Reply)}
include hfresh

theorem Fits.nodup (h : Fits fresh r past) : (created past).Nodup := by
  rw [h.issued]
  apply List.Nodup.map _ List.nodup_range
  intro m n hmn
  have hsucc := hfresh hmn
  omega

/-- What a call creates was not created before. -/
theorem Fits.not_mem_created (h : Fits fresh r past) {call : Call} {id : String}
    (hid : id ∈ created [(call, (r.perform fresh call).2)]) :
    id ∉ created past := by
  rw [h.issued, List.mem_map]
  rintro ⟨n, hn, rfl⟩
  rw [List.mem_range] at hn
  obtain ⟨hnone, -⟩ | ⟨hnew, -⟩ := created_perform_cases fresh r call
  · rw [hnone] at hid
    exact absurd hid List.not_mem_nil
  · rw [hnew, List.mem_singleton] at hid
    have hsucc := hfresh hid
    omega

/-- A call keeps a registry in agreement with its history. -/
theorem Fits.perform (h : Fits fresh r past) (call : Call) :
    Fits fresh (r.perform fresh call).1 (past ++ [(call, (r.perform fresh call).2)]) := by
  refine ⟨?_, ?_, ?_⟩
  · rw [created_append, h.issued]
    obtain ⟨hnone, hissued⟩ | ⟨hnew, hissued⟩ := created_perform_cases fresh r call
    · rw [hnone, hissued, List.append_nil]
    · rw [hnew, hissued, List.range_succ, List.map_append]
      rfl
  · rw [ids_perform, created_append]
    have hkept := (List.filter_sublist (p := fun id => call.closes? ≠ some id)).trans h.sublist
    exact hkept.append (List.Sublist.refl _)
  · intro id
    rw [ids_perform, created_append, ends_append_singleton, List.mem_append, List.mem_append,
      List.mem_filter, decide_eq_true_iff, h.active]
    have hnew (hid : id ∈ created [(call, (r.perform fresh call).2)]) : id ∉ created past :=
      h.not_mem_created hfresh hid
    constructor
    · rintro (⟨⟨hid, hopen⟩, hcloses⟩ | hid)
      · exact ⟨.inl hid, fun hends => hends.elim hopen fun hclosed => hcloses hclosed.1⟩
      · have hold := hnew hid
        exact ⟨.inr hid, fun hends => hends.elim (fun h => hold h.mem_created) fun h => hold h.2⟩
    · rintro ⟨hid | hid, hopen⟩
      · exact .inl ⟨⟨hid, fun h => hopen (.inl h)⟩, fun h => hopen (.inr ⟨h, hid⟩)⟩
      · exact .inr hid

theorem fits_run (calls : List Call) :
    Fits fresh (empty.run fresh calls) (empty.history fresh calls) := by
  induction calls using List.reverseRecOn with
  | nil =>
    refine ⟨rfl, List.Sublist.refl _, fun id => ?_⟩
    exact iff_of_false List.not_mem_nil fun h => absurd h.1 List.not_mem_nil
  | append_singleton calls call ih =>
    rw [run_append, history_append]
    exact ih.perform hfresh call

end Fits

/-- After any run of calls, where no identifier is issued twice: the active identifiers, which
`list` gives, are those of the sessions created and not closed since, in the order of creation
and each once; a call that asks for a session finds it exactly if it is active; closing tells
whether it was active, and then it is unknown whatever follows; and a creation that fails leaves
the registry as it was. -/
theorem ids_run {fresh : ℕ → String} (hfresh : Function.Injective fresh) (calls : List Call) :
    let r := empty.run fresh calls
    let past := empty.history fresh calls
    (r.perform fresh .list).2 = .active r.ids ∧
    (r.ids.Nodup ∧ r.ids.Sublist (created past) ∧
      ∀ id, id ∈ r.ids ↔ id ∈ created past ∧ ¬Ends past id) ∧
    (∀ call id, call.asks? = some id → ((r.perform fresh call).2.finds = true ↔ id ∈ r.ids)) ∧
    (∀ id, (r.perform fresh (.close id)).2 = .closed (decide (id ∈ r.ids))) ∧
    (∀ id ∈ r.ids, ∀ later, id ∉ ((r.perform fresh (.close id)).1.run fresh later).ids) ∧
    ∀ rules name e, (r.perform fresh (.create rules name)).2 = .created (.error e) →
      (r.perform fresh (.create rules name)).1 = r := by
  intro r past
  have hfits := fits_run hfresh calls
  refine ⟨rfl, ⟨(hfits.nodup hfresh).sublist hfits.sublist, hfits.sublist, hfits.active⟩, ?_, ?_,
    ?_, ?_⟩
  · intro call id hasks
    exact finds_perform_iff fresh r hasks
  · intro id
    exact congrArg Reply.closed (isSome_find?_eq_decide r id)
  · intro id hid later
    have hcreated : id ∈ created past := ((hfits.active id).mp hid).1
    have hrun : (r.perform fresh (.close id)).1.run fresh later =
        empty.run fresh (calls ++ .close id :: later) := by
      rw [run_append]
      rfl
    -- the call to close it stands behind its creation in the history of the longer run
    have hends : Ends (empty.history fresh (calls ++ .close id :: later)) id := by
      rw [history_append]
      exact ⟨past, _, _, rfl, hcreated⟩
    rw [hrun, (fits_run hfresh _).active]
    exact fun hactive => hactive.2 hends
  · intro rules name e herror
    obtain ⟨e', he⟩ | ⟨raw, graph, -, -, hcreate⟩ := create_cases fresh r rules name
    · simp [Registry.perform, he]
    · simp [Registry.perform, hcreate] at herror

theorem idOf_injective : Function.Injective idOf := by
  intro m n h
  have hnumerals : toString m = toString n := (String.append_right_inj "t").mp h
  rw [Nat.toString_eq_ofList_toDigits, Nat.toString_eq_ofList_toDigits, String.ofList_inj]
    at hnumerals
  have hm := Nat.ofDigitChars_ten_toDigits (n := m)
  rw [hnumerals, Nat.ofDigitChars_ten_toDigits] at hm
  exact hm.symm

/-- Two creations with one between them that fails at its second rule, and a closing in the
middle of the order. -/
def crossedCalls : List Call :=
  [.create (.list [.list [.text "a"]]) none,
    .create (.list [.list [.text "a"], .list [.tuple [.text "", .text "b"]]]) none,
    .create (.list [.list [.text "b"], .list []]) (some "second"),
    .close "t1", .create (.list []) none, .parse "t2" "b"]

theorem ids_run_crossedCalls :
    Function.Injective idOf ∧
      "t2" ∈ (empty.run idOf crossedCalls).ids ∧
      ((empty.run idOf crossedCalls).perform idOf (.close "t1")).2 = .closed false ∧
      ∀ later, "t2" ∉
        (((empty.run idOf crossedCalls).perform idOf (.close "t2")).1.run idOf later).ids := by
  obtain ⟨-, ⟨-, -, -⟩, -, hclosed, hforever, -⟩ := ids_run idOf_injective crossedCalls
  have hactive : (empty.run idOf crossedCalls).ids = ["t2", "t3"] := by decide
  have hmem : "t2" ∈ (empty.run idOf crossedCalls).ids := by
    rw [hactive]
    decide
  refine ⟨idOf_injective, hmem, ?_, hforever "t2" hmem⟩
  rw [hclosed, hactive]
  rfl

end RuleTransducer.Registry
