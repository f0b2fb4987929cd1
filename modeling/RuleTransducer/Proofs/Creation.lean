import RuleTransducer.Proofs.Bodies
import RuleTransducer.Proofs.RawForm
import RuleTransducer.Proofs.Serving
import RuleTransducer.Proofs.Surrogates

/-! Creating a transducer by a request. A body that keeps to the schema holds rules over texts,
and of these validation finds exactly the transforms that write without reading. Rules without
such a transform are textual and valid, so they compile: the two checks behind the schema leave
nothing to the builder. What remains is a body that breaks the schema with a value that is too deep
to be reported, or that has a surrogate in it; it is left without a response. -/

namespace RuleTransducer

namespace Api

/-! ### The rules of a request -/

/-- The transforms of rules that write without reading, in order: the index of the rule, that of
the item in it, and what is written. -/
def insertions (rules : List (List (Item Text))) : List (ℕ × ℕ × Text) :=
  rules.zipIdx.flatMap fun (items, i) =>
    items.zipIdx.flatMap fun (item, j) => if item.Inserts then [(i, j, item.destination)] else []

/-- The error on a transform that writes without reading. -/
def insertionMessage : ℕ × ℕ × Text → String
  | (i, j, destination) =>
    s!"rule {i}: " ++ s!"item {j}: " ++ "transformation with empty source cannot emit " ++
      Text.quoted destination ++ " without consuming input"

/-- The only flaw of an item over texts is that it writes without reading. -/
theorem flaws_checkItem_raw (item : Item Text) :
    (item.map Datum.text).raw.checkItem.flaws =
      if item.Inserts then [.insertion item.destination] else [] := by
  cases item with
  | literal s =>
    by_cases h : s.isEmpty <;>
      simp [Item.map, Item.raw, Datum.checkItem, Datum.checkRaw, Item.Inserts, Item.source,
        Item.destination, h]
  | transform s d =>
    by_cases hs : s = "" <;> by_cases hd : d = "" <;>
      simp [Item.map, Item.raw, Datum.checkItem, Datum.checkRaw, Datum.checkPair, Datum.text?,
        Item.Inserts, Item.source, Item.destination, hs, hd]

theorem validate_rawRequestRule (items : List (Item Text)) :
    (rawRequestRule items).validate =
      Datum.checkItems (items.map fun item => (item.map .text).raw) := rfl

theorem flaws_validate_rawRequestRule (items : List (Item Text)) :
    (rawRequestRule items).validate.flaws = items.zipIdx.flatMap fun (item, j) =>
      if item.Inserts then [.inItem j (.insertion item.destination)] else [] := by
  rw [validate_rawRequestRule, Datum.flaws_checkItems, List.zipIdx_map, List.flatMap_map]
  congr 1
  funext ⟨item, j⟩
  dsimp only [Prod.map]
  rw [flaws_checkItem_raw]
  split <;> rfl

theorem aboutRule_insertion (i j : ℕ) (destination : Text) :
    aboutRule i (RuleFlaw.inItem j (.insertion destination)).message =
      insertionMessage (i, j, destination) := by
  have hitem : (RuleFlaw.inItem j (.insertion destination)).message =
      s!"item {j}: " ++ ("transformation with empty source cannot emit " ++
        Text.quoted destination ++ " without consuming input") := rfl
  rw [hitem, aboutRule]
  simp only [insertionMessage, String.append_assoc]

/-- The errors on the rules of a request are on its transforms that write without reading. -/
theorem errors_validateRules_map_rawRequestRule (rules : List (List (Item Text))) :
    (validateRules (rules.map rawRequestRule)).errors =
      (insertions rules).map insertionMessage := by
  have hrule (items : List (Item Text)) (i : ℕ) :
      ((rawRequestRule items).validate.flaws.map fun flaw => aboutRule i flaw.message) =
        (items.zipIdx.flatMap fun entry =>
          if entry.1.Inserts then [(i, entry.2, entry.1.destination)] else []).map
            insertionMessage := by
    rw [flaws_validate_rawRequestRule, List.map_flatMap, List.map_flatMap]
    refine List.flatMap_congr fun entry _ => ?_
    dsimp only
    split
    · exact congrArg (fun message => [message]) (aboutRule_insertion i entry.2 entry.1.destination)
    · rfl
  rw [insertions, List.map_flatMap, validateRules, List.zipIdx_map, List.flatMap_map]
  exact List.flatMap_congr fun entry _ => hrule entry.1 entry.2

/-! ### The session of a request -/

theorem rawRules_map_rawRequestRule (rules : List (List (Item Text))) :
    (Datum.list (rules.map rawRequestRule)).rawRules = .ok (rules.map rawRequestRule) := by
  have heach : List.Forall₂ (fun rule raw => Datum.rawRule rule = .ok raw)
      (rules.map rawRequestRule) (rules.map rawRequestRule) := by
    refine List.forall₂_same.mpr fun rule hrule => ?_
    obtain ⟨items, -, rfl⟩ := List.mem_map.mp hrule
    rfl
  exact mapM_eq_ok_iff_forall₂.mpr heach

/-- The rule of a request holds no finished items. -/
theorem isTextual_rawRequestRule (items : List (Item Text)) :
    (rawRequestRule items).IsTextual := by
  intro elements helements part hpart
  cases helements
  obtain ⟨item, -, hraw⟩ := List.mem_map.mp hpart
  cases item <;> cases hraw

/-- Rules without a transform that writes without reading compile. -/
theorem exists_compile?_map_rawRequestRule {rules : List (List (Item Text))}
    (h : insertions rules = []) : ∃ graph, compile? (rules.map rawRequestRule) = .ok graph := by
  rw [Graph.exists_compile?_iff]
  intro rule hrule
  have hvalid : rule.validate.isValid = true := by
    refine errors_validateRules_eq_nil_iff.mp ?_ rule hrule
    rw [errors_validateRules_map_rawRequestRule, h, List.map_nil]
  obtain ⟨items, -, rfl⟩ := List.mem_map.mp hrule
  exact (isTextual_rawRequestRule items).isAdmissible hvalid

/-- The session that a request creates next to those of a registry. -/
def newSession (fresh : ℕ → String) (r : Registry) (request : CreateRequest)
    (graph : Graph Text) : Session :=
  ⟨fresh (r.issued + 1), request.name, request.rules.map rawRequestRule, graph, 0⟩

/-- A registry with a new session. -/
def extended (r : Registry) (session : Session) : Registry :=
  ⟨r.issued + 1, r.sessions ++ [session]⟩

/-- The warnings on the rules of a request. -/
def warningsOn (rules : List (List (Item Text))) : List String :=
  (validateRules (rules.map rawRequestRule)).warnings

/-- A request creates its session, or it is refused for the transforms in its rules that write
without reading. -/
theorem create_cases (fresh : ℕ → String) (r : Registry) (request : CreateRequest) :
    (insertions request.rules = [] ∧
        ∃ graph, compile? (request.rules.map rawRequestRule) = .ok graph ∧
          create r request fresh = (extended r (newSession fresh r request graph),
            .ok (.transducer
              (.ofSession (newSession fresh r request graph) (warningsOn request.rules))))) ∨
      (insertions request.rules ≠ [] ∧
        create r request fresh =
          (r, .ok (.refused
            (.invalidRules ((insertions request.rules).map insertionMessage))))) := by
  have herrors := errors_validateRules_map_rawRequestRule request.rules
  by_cases h : insertions request.rules = []
  · left
    -- what passes validation compiles, so the branch for rules that do not is never taken
    obtain ⟨graph, hgraph⟩ := exists_compile?_map_rawRequestRule h
    have hcreate : r.create (.list (request.rules.map rawRequestRule)) request.name fresh =
        (extended r (newSession fresh r request graph),
          .ok (newSession fresh r request graph)) := by
      simp only [Registry.create, rawRules_map_rawRequestRule, hgraph, extended, newSession]
    refine ⟨h, graph, hgraph, ?_⟩
    rw [h, List.map_nil] at herrors
    simp only [create, Findings.isValid, herrors, List.isEmpty_nil, if_true, hcreate, warningsOn,
      Except.map]
  · right
    refine ⟨h, ?_⟩
    simp [create, Findings.isValid, herrors, h]

/-! ### The answer to a document -/

/-- The response to rules with transforms that write without reading. -/
def invalidRules (rules : List (List (Item Text))) : Response :=
  ⟨400, errorJson "Invalid rules" "INVALID_RULE"
    (.object [("errors", .strings ((insertions rules).map insertionMessage))])⟩

theorem isScalar_invalidRules (rules : List (List (Item Text))) :
    (invalidRules rules).body.isScalar = true := by
  simp [invalidRules, errorJson]

theorem TransducerInfo.isScalar_json (info : TransducerInfo) : info.json.isScalar = true := by
  simp [TransducerInfo.json, statsJson]

/-- How a document that asks for a transducer is answered. -/
inductive Creation (fresh : ℕ → String) (r : Registry) (document : Json) :
    Registry × Except Breakdown Response → Prop
  | registered (request : CreateRequest) (graph : Graph Text)
      (hbody : CreateRequest.HasBody document request) (hrules : insertions request.rules = [])
      (hgraph : compile? (request.rules.map rawRequestRule) = .ok graph) :
      Creation fresh r document (extended r (newSession fresh r request graph), .ok ⟨201,
        (TransducerInfo.ofSession (newSession fresh r request graph)
          (warningsOn request.rules)).json⟩)
  | refused (request : CreateRequest) (hbody : CreateRequest.HasBody document request)
      (hrules : insertions request.rules ≠ []) :
      Creation fresh r document (r, .ok (invalidRules request.rules))
  | invalid (errors : List SchemaError)
      (hbody : ∀ request, ¬CreateRequest.HasBody document request)
      (hparts : ∀ part ∈ CreateRequest.faultyParts document, part.IsReportable) :
      Creation fresh r document (r, .ok (invalidBody errors))
  | deep (hbody : ∀ request, ¬CreateRequest.HasBody document request)
      (hdeep : ∃ part ∈ CreateRequest.faultyParts document, valueLevels < part.reported.levels) :
      Creation fresh r document (r, .error .deepValue)
  | surrogate (hbody : ∀ request, ¬CreateRequest.HasBody document request)
      (hshallow : ∀ part ∈ CreateRequest.faultyParts document,
        part.reported.levels ≤ valueLevels)
      (hsurrogate : ∃ part ∈ CreateRequest.faultyParts document,
        part.reported.isScalar = false) :
      Creation fresh r document (r, .error .surrogate)

theorem creation_sent (fresh : ℕ → String) (r : Registry) (document : Json) :
    Creation fresh r document
      (sent (Route.transducers.answer r "POST" (.ok document) fresh)) := by
  let act (request : CreateRequest) : Registry × Except Breakdown Response :=
    ((create r request fresh).1,
      ((create r request fresh).2.map (Reply.response 201)).mapError .uncompiled)
  have hroute : Route.transducers.answer r "POST" (.ok document) fresh =
      withBody r (.ok document) CreateRequest.check act := rfl
  rw [hroute]
  obtain ⟨request, hbody, heq⟩ | ⟨hbody, ⟨hdeep, heq⟩ | ⟨hshallow, errors, heq, hscalar⟩⟩ :=
    CreateRequest.checksBody.withBody_cases r document act
  · rw [heq]
    dsimp only [act]
    obtain ⟨hrules, graph, hgraph, hcreate⟩ | ⟨hrules, hcreate⟩ := create_cases fresh r request
    · let info := TransducerInfo.ofSession (newSession fresh r request graph)
        (warningsOn request.rules)
      have hinfo : (Response.mk 201 info.json).body.isScalar = true := info.isScalar_json
      rw [hcreate]
      exact (sent_ok hinfo _).symm ▸ .registered request graph hbody hrules hgraph
    · rw [hcreate]
      exact (sent_ok (isScalar_invalidRules request.rules) _).symm ▸ .refused request hbody hrules
  · rw [heq, sent_error]
    exact .deep hbody hdeep
  · rw [heq]
    by_cases hparts : ∀ part ∈ CreateRequest.faultyParts document, part.reported.isScalar = true
    · rw [sent_ok (hscalar.mpr hparts)]
      exact .invalid errors hbody fun part hpart => ⟨hshallow part hpart, hparts part hpart⟩
    · rw [sent_ok_of_surrogate (Bool.not_eq_true _ ▸ mt hscalar.mp hparts)]
      exact .surrogate hbody hshallow (by simpa using hparts)

/-- The documents that ask for a transducer arrive under one target. -/
theorem creation_answer (fresh : ℕ → String) (r : Registry) (document : Json) :
    Creation fresh r document (answer r "POST" "/api/v1/transducers" (.ok document) fresh) := by
  have hroute : Route.ofTarget? "/api/v1/transducers" = some .transducers := by decide +kernel
  have hanswer : answer r "POST" "/api/v1/transducers" (.ok document) fresh =
      sent (Route.transducers.answer r "POST" (.ok document) fresh) :=
    (answer_of_route r "POST" (.ok document) fresh hroute).2 (by decide)
  rw [hanswer]
  exact creation_sent fresh r document

section Status
variable {fresh : ℕ → String} {r : Registry} {document : Json}
  {answered : Registry × Except Breakdown Response} (h : Creation fresh r document answered)
include h

theorem Creation.eq_registered {request : CreateRequest}
    (hbody : CreateRequest.HasBody document request) (hrules : insertions request.rules = []) :
    ∃ graph, compile? (request.rules.map rawRequestRule) = .ok graph ∧
      answered = (extended r (newSession fresh r request graph), .ok ⟨201,
        (TransducerInfo.ofSession (newSession fresh r request graph)
          (warningsOn request.rules)).json⟩) := by
  cases h with
  | registered other graph hother hnone hgraph =>
    obtain rfl := CreateRequest.checksBody.unique hbody hother
    exact ⟨graph, hgraph, rfl⟩
  | refused other hother hsome =>
    rw [← CreateRequest.checksBody.unique hbody hother] at hsome
    exact absurd hrules hsome
  | invalid errors hno | deep hno | surrogate hno => exact absurd hbody (hno request)

theorem Creation.eq_refused {request : CreateRequest}
    (hbody : CreateRequest.HasBody document request) (hrules : insertions request.rules ≠ []) :
    answered = (r, .ok (invalidRules request.rules)) := by
  cases h with
  | registered other graph hother hnone =>
    rw [← CreateRequest.checksBody.unique hbody hother] at hnone
    exact absurd hnone hrules
  | refused other hother => rw [CreateRequest.checksBody.unique hbody hother]
  | invalid errors hno | deep hno | surrogate hno => exact absurd hbody (hno request)

theorem Creation.gives_201_iff :
    Gives answered 201 ↔
      ∃ request, CreateRequest.HasBody document request ∧ insertions request.rules = [] := by
  constructor
  · intro hgives
    cases h with
    | registered request graph hbody hrules hgraph => exact ⟨request, hbody, hrules⟩
    | _ => simp [invalidRules, invalidBody] at hgives
  · rintro ⟨request, hbody, hrules⟩
    obtain ⟨graph, -, heq⟩ := h.eq_registered hbody hrules
    rw [heq, gives_ok_iff]

theorem Creation.gives_400_iff :
    Gives answered 400 ↔
      ∃ request, CreateRequest.HasBody document request ∧ insertions request.rules ≠ [] := by
  constructor
  · intro hgives
    cases h with
    | refused request hbody hrules => exact ⟨request, hbody, hrules⟩
    | _ => simp [invalidBody] at hgives
  · rintro ⟨request, hbody, hrules⟩
    rw [h.eq_refused hbody hrules, gives_ok_iff]
    rfl

theorem Creation.gives_422_iff :
    Gives answered 422 ↔ (∀ request, ¬CreateRequest.HasBody document request) ∧
      ∀ part ∈ CreateRequest.faultyParts document, part.IsReportable := by
  cases h with
  | registered request graph hbody hrules hgraph =>
    exact iff_of_false (by simp) fun hno => hno.1 request hbody
  | refused request hbody hrules =>
    exact iff_of_false (by simp [invalidRules]) fun hno => hno.1 request hbody
  | invalid errors hbody hparts => exact iff_of_true (gives_ok_iff.mpr rfl) ⟨hbody, hparts⟩
  | deep hbody hdeep =>
    obtain ⟨part, hpart, hdeep⟩ := hdeep
    exact iff_of_false (by simp) fun hno => absurd (hno.2 part hpart).1 (Nat.not_le.mpr hdeep)
  | surrogate hbody hshallow hsurrogate =>
    obtain ⟨part, hpart, hsurrogate⟩ := hsurrogate
    exact iff_of_false (by simp) fun hno => by simp [(hno.2 part hpart).2] at hsurrogate

theorem Creation.breaks_deep_iff :
    answered.2 = .error .deepValue ↔ (∀ request, ¬CreateRequest.HasBody document request) ∧
      ∃ part ∈ CreateRequest.faultyParts document, valueLevels < part.reported.levels := by
  cases h with
  | registered request graph hbody hrules hgraph =>
    exact iff_of_false nofun fun hno => hno.1 request hbody
  | refused request hbody hrules => exact iff_of_false nofun fun hno => hno.1 request hbody
  | invalid errors hbody hparts =>
    exact iff_of_false nofun fun ⟨_, part, hpart, hdeep⟩ =>
      absurd (hparts part hpart).1 (Nat.not_le.mpr hdeep)
  | deep hbody hdeep => exact iff_of_true rfl ⟨hbody, hdeep⟩
  | surrogate hbody hshallow hsurrogate =>
    exact iff_of_false nofun fun ⟨_, part, hpart, hdeep⟩ =>
      absurd (hshallow part hpart) (Nat.not_le.mpr hdeep)

theorem Creation.breaks_surrogate_iff :
    answered.2 = .error .surrogate ↔ (∀ request, ¬CreateRequest.HasBody document request) ∧
      (∀ part ∈ CreateRequest.faultyParts document, part.reported.levels ≤ valueLevels) ∧
      ∃ part ∈ CreateRequest.faultyParts document, part.reported.isScalar = false := by
  cases h with
  | registered request graph hbody hrules hgraph =>
    exact iff_of_false nofun fun hno => hno.1 request hbody
  | refused request hbody hrules => exact iff_of_false nofun fun hno => hno.1 request hbody
  | invalid errors hbody hparts =>
    refine iff_of_false nofun fun ⟨_, _, part, hpart, hsurrogate⟩ => ?_
    simp [(hparts part hpart).2] at hsurrogate
  | deep hbody hdeep =>
    obtain ⟨part, hpart, hdeep⟩ := hdeep
    exact iff_of_false nofun fun ⟨_, hshallow, _⟩ =>
      absurd (hshallow part hpart) (Nat.not_le.mpr hdeep)
  | surrogate hbody hshallow hsurrogate => exact iff_of_true rfl ⟨hbody, hshallow, hsurrogate⟩

theorem Creation.gives_or_breaks :
    Gives answered 201 ∨ Gives answered 400 ∨ Gives answered 422 ∨
      answered.2 = .error .deepValue ∨ answered.2 = .error .surrogate := by
  cases h with
  | registered => exact .inl (gives_ok_iff.mpr rfl)
  | refused => exact .inr (.inl (gives_ok_iff.mpr rfl))
  | invalid => exact .inr (.inr (.inl (gives_ok_iff.mpr rfl)))
  | deep => exact .inr (.inr (.inr (.inl rfl)))
  | surrogate => exact .inr (.inr (.inr (.inr rfl)))

/-- Only a creation changes the registry. -/
theorem Creation.fst_eq (hfails : ¬Gives answered 201) : answered.1 = r := by
  cases h with
  | registered => exact absurd (gives_ok_iff.mpr rfl) hfails
  | _ => rfl

end Status

/-- The answer to a document that asks for a transducer, after any requests. It is 422 for what is
no body, unless a faulty part is too deep or has a surrogate: then there is no response. It is 400
for a body with transforms that write without reading, with one error on each of them in order.
Every other body gets 201 and one new session for its rules. Only this changes the registry. -/
theorem answer_create {fresh : ℕ → String} (hfresh : Function.Injective fresh)
    (requests : List Request) (document : Json) :
    let r := served fresh .empty requests
    let answered := answer r "POST" "/api/v1/transducers" (.ok document) fresh
    (Gives answered 201 ∨ Gives answered 400 ∨ Gives answered 422 ∨
        answered.2 = .error .deepValue ∨ answered.2 = .error .surrogate) ∧
      (Gives answered 422 ↔ (∀ request, ¬CreateRequest.HasBody document request) ∧
        ∀ part ∈ CreateRequest.faultyParts document, part.IsReportable) ∧
      (answered.2 = .error .deepValue ↔ (∀ request, ¬CreateRequest.HasBody document request) ∧
        ∃ part ∈ CreateRequest.faultyParts document, valueLevels < part.reported.levels) ∧
      (answered.2 = .error .surrogate ↔ (∀ request, ¬CreateRequest.HasBody document request) ∧
        (∀ part ∈ CreateRequest.faultyParts document, part.reported.levels ≤ valueLevels) ∧
        ∃ part ∈ CreateRequest.faultyParts document, part.reported.isScalar = false) ∧
      (Gives answered 400 ↔
        ∃ request, CreateRequest.HasBody document request ∧ insertions request.rules ≠ []) ∧
      (Gives answered 201 ↔
        ∃ request, CreateRequest.HasBody document request ∧ insertions request.rules = []) ∧
      (∀ request, CreateRequest.HasBody document request → insertions request.rules ≠ [] →
        answered = (r, .ok (invalidRules request.rules))) ∧
      (∀ request, CreateRequest.HasBody document request → insertions request.rules = [] →
        ∃ (session : Session) (body : Json), answered = (extended r session, .ok ⟨201, body⟩) ∧
          session.id ∉ r.ids ∧ session.name = request.name ∧
          session.rules = request.rules.map rawRequestRule ∧
          compile? session.rules = .ok session.graph ∧ session.parseCount = 0 ∧
          body.field? "transducer_id" = some (.text session.id) ∧
          body.field? "rule_count" = some (.nat request.rules.length)) ∧
      (¬Gives answered 201 → answered.1 = r) := by
  intro r answered
  have hcreation : Creation fresh r document answered := creation_answer fresh r document
  refine ⟨hcreation.gives_or_breaks, hcreation.gives_422_iff, hcreation.breaks_deep_iff,
    hcreation.breaks_surrogate_iff, hcreation.gives_400_iff, hcreation.gives_201_iff, ?_, ?_,
    hcreation.fst_eq⟩
  · intro request hbody hsome
    exact hcreation.eq_refused hbody hsome
  · intro request hbody hnone
    obtain ⟨graph, hgraph, heq⟩ := hcreation.eq_registered hbody hnone
    have hnew : (newSession fresh r request graph).id ∉ r.ids :=
      fresh_not_mem_ids_served hfresh requests
    refine ⟨newSession fresh r request graph, _, heq, hnew, rfl, rfl, hgraph, rfl, rfl, ?_⟩
    have hcount : (request.rules.map rawRequestRule).length = request.rules.length :=
      List.length_map _
    rw [← hcount]
    rfl

/-- Two rules with three transforms that write without reading. -/
def insertingDocument : Json :=
  .object [("rules", .array [
    .array [.text "a", .array [.text "", .text "x"], .array [.text "", .text "'"]],
    .array [.array [.text "", .text "y"]]])]

/-- A named rule behind an empty one. -/
def namedDocument : Json :=
  .object [("name", .text "second"), ("rules", .array [.array [],
    .array [.array [.text "a", .text ""], .text "b"]])]

/-- A body that is one but for the surrogate in its name. -/
def surrogateDocument : Json :=
  .object [("rules", .array []), ("name", .text .loneSurrogate)]

theorem answer_create_documents :
    (answer .empty "POST" "/api/v1/transducers" (.ok insertingDocument)).2 =
        .ok ⟨400, errorJson "Invalid rules" "INVALID_RULE" (.object [("errors", .strings [
      "rule 0: item 1: transformation with empty source cannot emit 'x' without consuming input",
      "rule 0: item 2: transformation with empty source cannot emit \"'\" without consuming input",
      "rule 1: item 0: transformation with empty source cannot emit 'y' without consuming input"
      ])])⟩ ∧
      Gives (answer .empty "POST" "/api/v1/transducers" (.ok namedDocument)) 201 ∧
      (answer .empty "POST" "/api/v1/transducers" (.ok surrogateDocument)).2 =
        .error .surrogate := by
  have hfresh := Registry.idOf_injective
  obtain ⟨-, -, -, -, -, -, hrefused, -, -⟩ := answer_create hfresh [] insertingDocument
  obtain ⟨-, -, -, -, -, hcreated, -, -, -⟩ := answer_create hfresh [] namedDocument
  obtain ⟨-, -, -, hlost, -, -, -, -, -⟩ := answer_create hfresh [] surrogateDocument
  refine ⟨?_, ?_, hlost.mpr ⟨?_, by decide, by decide⟩⟩
  · have hbody : CreateRequest.HasBody insertingDocument
        ⟨[[.literal "a", .transform "" "x", .transform "" "'"], [.transform "" "y"]], none⟩ :=
      ⟨_, rfl, rfl, .inl rfl⟩
    have hanswered := hrefused _ hbody (by decide)
    exact congrArg Prod.snd hanswered
  · have hbody : CreateRequest.HasBody namedDocument
        ⟨[[], [.transform "a" "", .literal "b"]], some "second"⟩ :=
      ⟨_, rfl, rfl, rfl, by decide⟩
    exact hcreated.mpr ⟨_, hbody, by decide⟩
  · rintro ⟨rules, name⟩ ⟨fields, hfields, -, hname⟩
    cases hfields
    cases name with
    | none => rcases hname with hname | hname <;> cases hname
    | some name =>
      have hwritten := Json.text.inj (Option.some.inj hname.1)
      have hscalar := congrArg Text.isScalar hwritten
      rw [Text.isScalar_ofString] at hscalar
      exact absurd hscalar (by decide)

/-! ### Documents that are left without a response -/

/-- Arrays inside of each other. -/
def nested : ℕ → Json
  | 0 => .array []
  | n + 1 => .array [nested n]

theorem reported_nested (n : ℕ) : (nested n).reported = nested n := by
  induction n with
  | zero => rfl
  | succ n ih => rw [nested, Json.reported_array, List.map_singleton, ih]

theorem levels_nested (n : ℕ) : (nested n).levels = n + 1 := by
  induction n with
  | zero => rfl
  | succ n ih => rw [nested, Json.levels, Json.levelsIn, ih, Json.levelsIn, Nat.max_zero]

theorem not_hasBody_nested (n : ℕ) (request : CreateRequest) :
    ¬CreateRequest.HasBody (nested n) request := by
  rintro ⟨fields, hobject, -⟩
  cases n <;> cases hobject

theorem faultyParts_nested (n : ℕ) : CreateRequest.faultyParts (nested n) = [nested n] := by
  cases n <;> rfl

/-- Arrays of 254 levels are no body, and get no response. -/
theorem breaks_nested :
    (∀ request, ¬CreateRequest.HasBody (nested 253) request) ∧
      (answer .empty "POST" "/api/v1/transducers" (.ok (nested 253))).2 = .error .deepValue ∧
      ¬Gives (answer .empty "POST" "/api/v1/transducers" (.ok (nested 253))) 422 := by
  have hbreaks := (creation_answer Registry.idOf .empty (nested 253)).breaks_deep_iff.mpr
    ⟨not_hasBody_nested 253, nested 253, by simp [faultyParts_nested], by
      rw [reported_nested, levels_nested]
      exact Nat.lt_succ_self 253⟩
  refine ⟨not_hasBody_nested 253, hbreaks, ?_⟩
  rintro ⟨response, hresponse, -⟩
  rw [hbreaks] at hresponse
  cases hresponse

end Api
end RuleTransducer
