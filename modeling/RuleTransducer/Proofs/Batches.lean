import RuleTransducer.Api.Service
import RuleTransducer.Proofs.Registry

/-! Batches. A request for several inputs and the requests for each of them, one after another,
give the same results and leave the same registry. Counting is all that a run does to a registry,
and counting in steps adds up, so each of the single requests finds the graph that the batch
finds. -/

namespace RuleTransducer

namespace Registry

theorem find?_eq_none_iff {r : Registry} {id : String} : r.find? id = none ↔ id ∉ r.ids := by
  rw [← isSome_find?_iff, Bool.not_eq_true, Option.isSome_eq_false_iff, Option.isNone_iff_eq_none]

theorem exists_find?_of_mem {r : Registry} {id : String} (h : id ∈ r.ids) :
    ∃ session, r.find? id = some session :=
  Option.isSome_iff_exists.mp ((isSome_find?_iff r).mpr h)

variable (r : Registry) (id : String)

@[simp] theorem count_zero : r.count id 0 = r := by
  have hsame : (fun session : Session => if session.id = id then
      { session with parseCount := session.parseCount + 0 } else session) =
        fun session => session := by
    funext session
    split <;> rfl
  rw [count, hsame, List.map_id']

theorem count_count (m n : ℕ) : (r.count id m).count id n = r.count id (m + n) := by
  simp only [count, List.map_map]
  congr 1
  apply List.map_congr_left
  intro session _
  by_cases h : session.id = id <;> simp [h, Nat.add_assoc]

theorem find?_count (n : ℕ) :
    (r.count id n).find? id =
      (r.find? id).map fun session => { session with parseCount := session.parseCount + n } := by
  simp only [find?, count]
  induction r.sessions with
  | nil => rfl
  | cons session sessions ih => by_cases h : session.id = id <;> simp [h, ih]

end Registry

namespace Api

variable {r : Registry} {id : String}

/-! ### Single inputs -/

theorem parse_of_find? {session : Session} (h : r.find? id = some session) (input : String) :
    parse r id ⟨input⟩ = (r.count id 1, .parsed id ⟨input, session.graph.parse input⟩) := by
  unfold parse Registry.parse
  simp only [h]

theorem parse_of_not_mem (h : id ∉ r.ids) (request : ParseRequest) :
    parse r id request = (r, .refused (.unknownTransducer id)) := by
  have hfind := Registry.find?_eq_none_iff.mpr h
  unfold parse Registry.parse
  simp only [hfind]

theorem parseBatch_of_find? {session : Session} (h : r.find? id = some session)
    (inputs : List String) :
    parseBatch r id ⟨inputs⟩ = (r.count id inputs.length,
      .batch id (inputs.map fun input => ⟨input, session.graph.parse input⟩)) := by
  unfold parseBatch Registry.parseBatch
  simp only [h, Graph.parseBatch, List.map_map, List.zipWith_map_right, List.zipWith_self,
    List.length_map]
  rfl

theorem parseBatch_of_not_mem (h : id ∉ r.ids) (request : BatchRequest) :
    parseBatch r id request = (r, .refused (.unknownTransducer id)) := by
  have hfind := Registry.find?_eq_none_iff.mpr h
  unfold parseBatch Registry.parseBatch
  simp only [hfind]

/-! ### Inputs one after another -/

/-- Runs inputs one after another, each by a request of its own. -/
def parseEach (r : Registry) (id : String) : List String → Registry × List Reply
  | [] => (r, [])
  | input :: rest =>
    let (r, reply) := parse r id ⟨input⟩
    let (r, replies) := parseEach r id rest
    (r, reply :: replies)

/-- Every request finds the session that the first one finds, with the inputs so far counted. -/
theorem parseEach_of_find? {session : Session} (h : r.find? id = some session)
    (inputs : List String) :
    parseEach r id inputs = (r.count id inputs.length,
      inputs.map fun input => .parsed id ⟨input, session.graph.parse input⟩) := by
  -- over any registry with the session, since each request leaves one with another count
  induction inputs generalizing r session with
  | nil => rw [parseEach, List.length_nil, Registry.count_zero, List.map_nil]
  | cons input inputs ih =>
    have hcounted : (r.count id 1).find? id =
        some { session with parseCount := session.parseCount + 1 } := by
      rw [Registry.find?_count, h, Option.map_some]
    rw [parseEach, parse_of_find? h]
    dsimp only
    rw [ih hcounted, Registry.count_count, Nat.add_comm, List.length_cons, List.map_cons]

theorem acceptedCount_eq (results : List ResultInfo) :
    Reply.acceptedCount results =
      (results.filter fun result => result.outcome.kind ≠ .failure).length := by
  rw [Reply.acceptedCount, List.countP_eq_length_filter]
  congr 2
  funext result
  cases result.outcome <;> rfl

/-- A batch on an active session gives one result for every input, in order, and these are the
results of single requests for the inputs one after another. Its reply counts those that are no
failures. It leaves the registry that the single requests leave. -/
theorem parseBatch_eq_parseEach {r : Registry} {id : String} (h : id ∈ r.ids)
    (inputs : List String) :
    ∃ results : List ResultInfo,
      (parseBatch r id ⟨inputs⟩).2 = .batch id results ∧
        (parseEach r id inputs).2 = results.map (.parsed id) ∧
        results.map ResultInfo.input = inputs ∧
        (Reply.batch id results).json.field? "accepted_count" =
          some (.nat (results.filter fun result => result.outcome.kind ≠ .failure).length) ∧
        (parseBatch r id ⟨inputs⟩).1 = (parseEach r id inputs).1 ∧
        (parseEach r id inputs).1 = r.count id inputs.length := by
  obtain ⟨session, hsession⟩ := Registry.exists_find?_of_mem h
  rw [parseBatch_of_find? hsession, parseEach_of_find? hsession]
  refine ⟨_, rfl, ?_, ?_, ?_, rfl, rfl⟩
  · rw [List.map_map]
    rfl
  · rw [List.map_map]
    exact List.map_id _
  · rw [← acceptedCount_eq]
    rfl

/-- A session with two rules for one input, behind another one. -/
def sharedRegistry : Registry :=
  ((Registry.empty.create (.list [.list [.text "b"]]) none).1.create
    (.list [.list [.tuple [.text "a", .text "x"]], .list [.text "a"]]) (some "second")).1

/-- A repeated input with two outputs, and one that is not possible between its runs. -/
theorem parseBatch_eq_parseEach_sharedRegistry :
    "t2" ∈ sharedRegistry.ids ∧ ∃ results : List ResultInfo,
      (parseBatch sharedRegistry "t2" ⟨["a", "b", "a"]⟩).2 = .batch "t2" results ∧
        (parseEach sharedRegistry "t2" ["a", "b", "a"]).2 = results.map (.parsed "t2") ∧
        (parseBatch sharedRegistry "t2" ⟨["a", "b", "a"]⟩).1 = sharedRegistry.count "t2" 3 := by
  have hactive : "t2" ∈ sharedRegistry.ids := by decide
  obtain ⟨results, hbatch, heach, -, -, hsame, hcount⟩ :=
    parseBatch_eq_parseEach hactive ["a", "b", "a"]
  exact ⟨hactive, results, hbatch, heach, hsame.trans hcount⟩

end Api

end RuleTransducer
