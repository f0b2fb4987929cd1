import RuleTransducer.Proofs.RawForm
import RuleTransducer.Proofs.Registry

/-! Isolation of sessions. A call changes no session but in its count, and there by the number
of inputs that it runs on that session. So whatever calls were made on it and on others, an
active session is the one that its creation registered, with the inputs run on it since then
counted, and every input has the outcome that it has in the graph of the session's rules. -/

namespace RuleTransducer

/-- A session as it is registered for rules under a name: with the rules in raw form and their
graph, and without inputs run. -/
structure Session.IsRegistered (session : Session) (rules : Datum) (name : Option String) :
    Prop where
  name_eq : session.name = name
  rawRules_eq : rules.rawRules = .ok session.rules
  compile?_rules : compile? session.rules = .ok session.graph
  /-- The rules as given compile to the same graph, if they compile. -/
  graph_compile : (compile rules : Admission Text).error? = none →
    (compile rules).graph = session.graph
  /-- They compile if they are over texts. -/
  compiles : (∀ elements, rules.elements? = some elements →
    ∀ declared ∈ elements, declared.IsTextual) → (compile rules : Admission Text).error? = none
  parseCount_eq : session.parseCount = 0

namespace Registry

/-! ### Inputs of calls -/

/-- The number of inputs that a call runs on a session: one for a single input, and for a batch
its length. -/
def Call.inputs (id : String) : Call → ℕ
  | parse other _ => if other = id then 1 else 0
  | parseBatch other texts => if other = id then texts.length else 0
  | _ => 0

/-- The number of inputs that calls run on a session. -/
def inputs (id : String) : List Call → ℕ
  | [] => 0
  | call :: later => call.inputs id + inputs id later

theorem inputs_append (id : String) (calls later : List Call) :
    inputs id (calls ++ later) = inputs id calls + inputs id later := by
  induction calls with
  | nil => exact (Nat.zero_add _).symm
  | cons call calls ih => rw [List.cons_append, inputs, inputs, ih, Nat.add_assoc]

/-! ### One call -/

section Call
variable {fresh : ℕ → String} {r : Registry}

theorem find?_of_mem (h : r.ids.Nodup) {session : Session} (hsession : session ∈ r.sessions) :
    r.find? session.id = some session := by
  have hactive : (r.find? session.id).isSome :=
    (isSome_find?_iff r).mpr (List.mem_map_of_mem hsession)
  obtain ⟨found, hfound⟩ := Option.isSome_iff_exists.mp hactive
  have hmem : found ∈ r.sessions := List.mem_of_find?_eq_some hfound
  have hid : found.id = session.id := by simpa using List.find?_some hfound
  rw [hfound, List.inj_on_of_nodup_map h hmem hsession hid]

theorem mem_sessions_count {id : String} {n : ℕ} {session : Session}
    (h : session ∈ (r.count id n).sessions) :
    ∃ old ∈ r.sessions,
      session = { old with parseCount := old.parseCount + if id = old.id then n else 0 } := by
  obtain ⟨old, hold, rfl⟩ := List.mem_map.mp h
  refine ⟨old, hold, ?_⟩
  by_cases hid : id = old.id
  · simp [hid]
  · simp [hid, Ne.symm hid]

/-- What a creation answers is registered for its rules under its name. -/
theorem isRegistered_of_create {rules : Datum} {name : Option String} {session : Session}
    (h : (r.perform fresh (.create rules name)).2 = .created (.ok session)) :
    session.IsRegistered rules name := by
  obtain ⟨e, he⟩ | ⟨raw, graph, hraw, hgraph, hcreate⟩ := create_cases fresh r rules name
  · simp [perform, he] at h
  · simp only [perform, hcreate, Reply.created.injEq, Except.ok.injEq] at h
    subst h
    obtain ⟨hsame, hcompiles⟩ := compile_of_rawRules hraw hgraph
    exact ⟨rfl, hraw, hgraph, hsame, hcompiles, rfl⟩

/-- A session after a call is the one that the call created, or one from before with the inputs
of the call counted. -/
theorem mem_sessions_perform {call : Call} {session : Session}
    (h : session ∈ (r.perform fresh call).1.sessions) :
    (∃ rules name, call = .create rules name ∧
        (r.perform fresh call).2 = .created (.ok session)) ∨
      ∃ old ∈ r.sessions,
        session = { old with parseCount := old.parseCount + call.inputs old.id } := by
  cases call with
  | create rules name =>
    obtain ⟨e, he⟩ | ⟨raw, graph, -, -, hcreate⟩ := create_cases fresh r rules name
    · simp only [perform, he] at h
      exact .inr ⟨session, h, rfl⟩
    · simp only [perform, hcreate, List.mem_append, List.mem_singleton] at h ⊢
      obtain hold | rfl := h
      · exact .inr ⟨session, hold, rfl⟩
      · exact .inl ⟨rules, name, rfl, rfl⟩
  | close id => exact .inr ⟨session, (List.mem_filter.mp h).1, rfl⟩
  | parse id text =>
    rw [perform, parse_eq] at h
    exact .inr (mem_sessions_count h)
  | parseBatch id texts =>
    rw [perform, parseBatch_eq] at h
    exact .inr (mem_sessions_count h)
  | get id | stats id | list => exact .inr ⟨session, h, rfl⟩

end Call

/-! ### Runs -/

/-- A session after a run is one that a call of the run created, with the inputs counted that
the calls behind it ran on the session. -/
theorem exists_create_of_mem_sessions_run {fresh : ℕ → String} {calls : List Call}
    {session : Session} (h : session ∈ (empty.run fresh calls).sessions) :
    ∃ before rules name later created,
      calls = before ++ .create rules name :: later ∧
      ((empty.run fresh before).perform fresh (.create rules name)).2 = .created (.ok created) ∧
      session = { created with parseCount := inputs created.id later } := by
  induction calls using List.reverseRecOn generalizing session with
  | nil => exact absurd h List.not_mem_nil
  | append_singleton calls call ih =>
    rw [run_append] at h
    obtain ⟨rules, name, rfl, hcreated⟩ | ⟨old, hold, rfl⟩ := mem_sessions_perform h
    · refine ⟨calls, rules, name, [], session, rfl, hcreated, ?_⟩
      rw [inputs, ← (isRegistered_of_create hcreated).parseCount_eq]
    · obtain ⟨before, rules, name, later, created, rfl, hcreated, rfl⟩ := ih hold
      refine ⟨before, rules, name, later ++ [call], created, by simp, hcreated, ?_⟩
      rw [inputs_append]
      rfl

/-- After any run of calls, where no identifier is issued twice, an active session has a call
that created it: there it was registered for the rules and under the name of that call. Since
then nothing of it changed but its count, which is the number of inputs run on it; and
what calls on it answer is what its rules say. -/
theorem isRegistered_of_mem_run {fresh : ℕ → String} (hfresh : Function.Injective fresh)
    {calls : List Call} {session : Session} (h : session ∈ (empty.run fresh calls).sessions) :
    let r := empty.run fresh calls
    ∃ before rules name later created,
      calls = before ++ .create rules name :: later ∧
      ((empty.run fresh before).perform fresh (.create rules name)).2 = .created (.ok created) ∧
      created.IsRegistered rules name ∧
      session = { created with parseCount := inputs session.id later } ∧
      (r.perform fresh (.get session.id)).2 = .session (some session) ∧
      (r.perform fresh (.stats session.id)).2 = .stats (some created.graph.stats) ∧
      (∀ text, (r.perform fresh (.parse session.id text)).2 =
        .parsed (some (created.graph.parse text))) ∧
      ∀ texts, (r.perform fresh (.parseBatch session.id texts)).2 =
        .batch (some (texts.map created.graph.parse)) := by
  intro r
  obtain ⟨before, rules, name, later, created, hcalls, hcreated, hsession⟩ :=
    exists_create_of_mem_sessions_run h
  have hid : session.id = created.id := by rw [hsession]
  have hgraph : session.graph = created.graph := by rw [hsession]
  have hfits := fits_run hfresh calls
  have hfind : r.find? session.id = some session :=
    find?_of_mem ((hfits.nodup hfresh).sublist hfits.sublist) h
  refine ⟨before, rules, name, later, created, hcalls, hcreated, isRegistered_of_create hcreated,
    ?_, ?_, ?_, ?_, ?_⟩
  · rw [hid]
    exact hsession
  · simp only [perform, hfind]
  · simp only [perform, stats?, hfind, Option.map_some, hgraph]
  · intro text
    simp only [perform, parse_eq, hfind, Option.map_some, hgraph]
  · intro texts
    simp only [perform, parseBatch_eq, hfind, Option.map_some, hgraph, Graph.parseBatch]

/-- Two sessions over one text; the inputs of the first are one that it accepts, a batch with one
that it does not, and an empty batch, and the second is closed among them. -/
def sharedCalls : List Call :=
  [.create (.list [.rule [.literal (.text "a")]]) (some "first"),
    .create (.list [.list [.tuple [.text "a", .text "b"]]]) none,
    .parse "t1" "a", .parse "t2" "a", .parseBatch "t1" ["a", "b"], .close "t2",
    .parseBatch "t1" [], .parse "t2" "a"]

theorem isRegistered_of_mem_run_sharedCalls :
    Function.Injective idOf ∧
      ∃ session ∈ (empty.run idOf sharedCalls).sessions, session.id = "t1" ∧
        ∃ before rules name later, sharedCalls = before ++ .create rules name :: later ∧
          inputs "t1" later = 3 ∧ rules.rawRules = .ok session.rules ∧
          ∀ text, ((empty.run idOf sharedCalls).perform idOf (.parse "t1" text)).2 =
            .parsed (some (session.graph.parse text)) := by
  refine ⟨idOf_injective, ?_⟩
  obtain ⟨session, hsession, hid, hcount⟩ : ∃ session ∈ (empty.run idOf sharedCalls).sessions,
      session.id = "t1" ∧ session.parseCount = 3 := by decide
  refine ⟨session, hsession, hid, ?_⟩
  obtain ⟨before, rules, name, later, created, hcalls, -, hregistered, heq, -, -, hparse, -⟩ :=
    isRegistered_of_mem_run idOf_injective hsession
  have hinputs : session.parseCount = inputs session.id later := congrArg Session.parseCount heq
  have hrules : session.rules = created.rules := by rw [heq]
  have hgraph : session.graph = created.graph := by rw [heq]
  refine ⟨before, rules, name, later, hcalls, ?_, ?_, ?_⟩
  · rw [← hid, ← hinputs, hcount]
  · rw [hrules, hregistered.rawRules_eq]
  · intro text
    rw [← hid, hparse, hgraph]

end Registry

end RuleTransducer
