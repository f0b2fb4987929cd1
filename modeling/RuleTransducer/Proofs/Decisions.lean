import RuleTransducer.Proofs.Batches
import RuleTransducer.Proofs.Creation
import RuleTransducer.Proofs.Utf8

/-! What decides an answer, and what it changes. On a route that runs inputs the octets of the body
come first: octets that cannot be read, then a document that breaks the schema, and only then the
question whether the transducer is active. Each of these answers leaves the registry as it is. What
changes it is a creation, the closing of an active session, or a run on one, and of a run only the
count of inputs on its session remains. -/

namespace RuleTransducer.Api

/-! ### Reading a body -/

/-- Whether octets are read as a document: they are a text in the encoding that they tell, and the
text is the document. -/
def Reads (octets : List UInt8) (document : Json) : Prop :=
  ∃ text, Text.ofOctets? octets = some text ∧
    Json.documentWithin bodyNesting text = .ok document

/-- Whether the octets of a body cannot be read: they are no text in the encoding that they tell, or
the reading gives up on the text. It does so at an integer of too many digits and at an array or
object inside of too many others. -/
def Unreadable (octets : List UInt8) : Prop :=
  octets ≠ [] ∧ (Text.ofOctets? octets = none ∨
    ∃ text e, Text.ofOctets? octets = some text ∧
      Json.documentWithin bodyNesting text = .error e ∧ e.fault.isSurrender = true)

theorem not_reads_nil (document : Json) : ¬Reads [] document := by
  have hnil : Json.documentWithin bodyNesting [] = .error ⟨.expectingValue, 0⟩ := rfl
  rintro ⟨text, htext, hread⟩
  obtain rfl : [] = text := Option.some.inj htext
  rw [hnil] at hread
  cases hread

theorem BodyFault.isScalar_response (fault : BodyFault) :
    fault.response.body.isScalar = true := by
  cases fault with
  | absent | malformed e => exact isScalar_invalidBody _
  | unreadable => simp [response, detail]

/-- A body is unreadable, it is read as a document, or it has a fault that is reported. -/
theorem readBody_cases (octets : List UInt8) :
    (Unreadable octets ∧ readBody octets = .error .unreadable) ∨
      (∃ document, Reads octets document ∧ readBody octets = .ok document) ∨
      (¬Unreadable octets ∧ (∀ document, ¬Reads octets document) ∧
        ∃ fault, readBody octets = .error fault ∧ fault.response.status = 422) := by
  cases octets with
  | nil => exact .inr (.inr ⟨fun h => h.1 rfl, not_reads_nil, .absent, rfl, rfl⟩)
  | cons octet octets =>
    unfold readBody Unreadable Reads
    cases htext : Text.ofOctets? (octet :: octets) with
    | none => exact .inl ⟨⟨List.cons_ne_nil _ _, .inl rfl⟩, rfl⟩
    | some text =>
      cases hread : Json.documentWithin bodyNesting text with
      | ok document => exact .inr (.inl ⟨document, ⟨text, rfl, hread⟩, by simp [hread]⟩)
      | error e =>
        cases hsurrender : e.fault.isSurrender with
        | true =>
          exact .inl ⟨⟨List.cons_ne_nil _ _, .inr ⟨text, e, rfl, hread, hsurrender⟩⟩,
            by simp [hread, hsurrender]⟩
        | false =>
          refine .inr (.inr ⟨?_, ?_, .malformed e, by simp [hread, hsurrender], rfl⟩)
          · rintro ⟨-, hnone | ⟨text', e', htext', hread', hsurrender'⟩⟩
            · cases hnone
            · cases htext'
              obtain rfl := Except.error.inj (hread.symm.trans hread')
              rw [hsurrender] at hsurrender'
              cases hsurrender'
          · rintro document ⟨text', htext', hread'⟩
            cases htext'
            rw [hread] at hread'
            cases hread'

section Reading
variable {octets : List UInt8} {document document' : Json}

/-- A body in UTF-8 is read as the document of its text. -/
theorem reads_encode {text : List Char}
    (hdetect : Text.Encoding.detect (Text.Utf8.encode text) = (.utf8, Text.Utf8.encode text))
    (h : Json.documentWithin bodyNesting (text.map .char) = .ok document) :
    Reads (Text.Utf8.encode text) document := ⟨_, Text.ofOctets?_encode hdetect, h⟩

theorem Reads.readBody_eq (h : Reads octets document) : readBody octets = .ok document := by
  cases octets with
  | nil => exact absurd h (not_reads_nil document)
  | cons octet octets =>
    obtain ⟨text, htext, hread⟩ := h
    simp [readBody, htext, hread]

theorem Reads.unique (h : Reads octets document) (h' : Reads octets document') :
    document = document' := Except.ok.inj (h.readBody_eq.symm.trans h'.readBody_eq)

theorem Unreadable.not_reads (h : Unreadable octets) (document : Json) :
    ¬Reads octets document := by
  rintro ⟨text, htext, hread⟩
  obtain ⟨-, hnone | ⟨text', e, htext', hread', -⟩⟩ := h
  · rw [htext] at hnone
    cases hnone
  · obtain rfl := Option.some.inj (htext.symm.trans htext')
    rw [hread] at hread'
    cases hread'

end Reading

/-! ### Bodies with inputs -/

namespace Route

/-- The transducer that a route runs inputs on. -/
def runsOn? : Route → Option String
  | parse id | parseBatch id => some id
  | _ => none

/-- Whether a document is a body that asks a route to run inputs. -/
def Asks (document : Json) (inputs : List String) : Route → Prop
  | parse _ => ∃ request, ParseRequest.HasBody document request ∧ [request.input] = inputs
  | parseBatch _ => ∃ request, BatchRequest.HasBody document request ∧ request.inputs = inputs
  | _ => False

/-- The parts of a document that keep it from being a body with inputs for a route. -/
def faultyParts (document : Json) : Route → List Json
  | parse _ => ParseRequest.faultyParts document
  | parseBatch _ => BatchRequest.faultyParts document
  | _ => []

/-- Whether a body asks a route to run some inputs. -/
def Takes (route : Route) (octets : List UInt8) : Prop :=
  ∃ document inputs, Reads octets document ∧ route.Asks document inputs

/-- Whether the faulty parts of a body can be reported. -/
def Reports (route : Route) (octets : List UInt8) : Prop :=
  ∀ document, Reads octets document → ∀ part ∈ route.faultyParts document, part.IsReportable

/-- Whether no output on the inputs of a body has a surrogate. -/
def WritesScalars (r : Registry) (route : Route) (octets : List UInt8) : Prop :=
  ∀ id session document inputs, route.runsOn? = some id → r.find? id = some session →
    Reads octets document → route.Asks document inputs → session.graph.IsScalarOn inputs

end Route

theorem Unreadable.not_takes {route : Route} {octets : List UInt8} (h : Unreadable octets) :
    ¬route.Takes octets := fun ⟨document, _, hread, _⟩ => h.not_reads document hread

/-- How a route that runs inputs answers a body. -/
inductive Run (r : Registry) (route : Route) (id : String) (octets : List UInt8) :
    Registry × Except Breakdown Response → Prop
  | unreadable (response : Response) (hunreadable : Unreadable octets)
      (hstatus : response.status = 400) : Run r route id octets (r, .ok response)
  | invalid (response : Response) (hreadable : ¬Unreadable octets) (hno : ¬route.Takes octets)
      (hstatus : response.status = 422) : Run r route id octets (r, .ok response)
  | lost (breakdown : Breakdown) (hreadable : ¬Unreadable octets) (hno : ¬route.Takes octets)
      (hreports : ¬route.Reports octets) : Run r route id octets (r, .error breakdown)
  | unknown (response : Response) (htakes : route.Takes octets) (hid : id ∉ r.ids)
      (hstatus : response.status = 404) : Run r route id octets (r, .ok response)
  | done (document : Json) (inputs : List String) (response : Response)
      (hread : Reads octets document) (hasks : route.Asks document inputs) (hid : id ∈ r.ids)
      (hstatus : response.status = 200) :
      Run r route id octets (r.count id inputs.length, .ok response)
  | cut (document : Json) (inputs : List String) (session : Session)
      (hread : Reads octets document) (hasks : route.Asks document inputs)
      (hsession : r.find? id = some session) (hwrites : ¬session.graph.IsScalarOn inputs) :
      Run r route id octets (r.count id inputs.length, .error .surrogate)

/-- A route answers so if its check describes its bodies, and if what it does with one depends on
whether the transducer is active. -/
theorem run_withBody {α : Type} {check : List Place → List (Text × Datum) → Checked α}
    {HasBody : Json → α → Prop} {faulty : Json → List Json} (h : ChecksBody check HasBody faulty)
    {r : Registry} {route : Route} {id : String} {inputs : α → List String}
    (hasks : ∀ document texts,
      route.Asks document texts ↔ ∃ request, HasBody document request ∧ inputs request = texts)
    (hfaulty : ∀ document, route.faultyParts document = faulty document)
    {act : α → Registry × Except Breakdown Response}
    (hunknown : id ∉ r.ids → ∀ request, ∃ response, act request = (r, .ok response) ∧
      response.status = 404 ∧ response.body.isScalar = true)
    (hdone : ∀ session, r.find? id = some session → ∀ request, ∃ response,
      act request = (r.count id (inputs request).length, .ok response) ∧ response.status = 200 ∧
        (response.body.isScalar = true ↔ session.graph.IsScalarOn (inputs request)))
    (octets : List UInt8) :
    Run r route id octets (sent (withBody r (readBody octets) check act)) := by
  obtain ⟨hunreadable, hbody⟩ | ⟨document, hread, hbody⟩ | ⟨hreadable, hno, fault, hbody, h422⟩ :=
    readBody_cases octets
  · rw [hbody]
    exact (sent_ok (BodyFault.isScalar_response .unreadable) r).symm ▸ .unreadable _ hunreadable rfl
  · have hreadable : ¬Unreadable octets := fun hunreadable => hunreadable.not_reads document hread
    have hno (hnone : ∀ request, ¬HasBody document request) : ¬route.Takes octets := by
      rintro ⟨document', texts, hread', hasked⟩
      obtain rfl := hread'.unique hread
      obtain ⟨request, hrequest, -⟩ := (hasks document' texts).mp hasked
      exact hnone request hrequest
    have hreported (hreports : route.Reports octets) :
        ∀ part ∈ faulty document, part.IsReportable := by
      rw [← hfaulty]
      exact hreports document hread
    rw [hbody]
    obtain ⟨request, hrequest, heq⟩ | ⟨hnone, ⟨⟨part, hpart, hdeep⟩, heq⟩ |
        ⟨-, errors, heq, hscalar⟩⟩ := h.withBody_cases r document act
    · have hasked := (hasks document _).mpr ⟨request, hrequest, rfl⟩
      rw [heq]
      -- only a body that keeps to the schema leads to the question whether the id is active
      by_cases hid : id ∈ r.ids
      · obtain ⟨session, hsession⟩ := Registry.exists_find?_of_mem hid
        obtain ⟨response, hact, hstatus, hsent⟩ := hdone session hsession request
        rw [hact]
        by_cases hwrites : session.graph.IsScalarOn (inputs request)
        · rw [sent_ok (hsent.mpr hwrites)]
          exact .done document _ response hread hasked hid hstatus
        · rw [sent_ok_of_surrogate (Bool.not_eq_true _ ▸ mt hsent.mp hwrites)]
          exact .cut document _ session hread hasked hsession hwrites
      · obtain ⟨response, hact, hstatus, hsent⟩ := hunknown hid request
        rw [hact, sent_ok hsent]
        exact .unknown response ⟨document, _, hread, hasked⟩ hid hstatus
    · rw [heq, sent_error]
      refine .lost _ hreadable (hno hnone) fun hreports => Nat.not_le.mpr hdeep ?_
      exact (hreported hreports part hpart).1
    · rw [heq]
      by_cases hparts : ∀ part ∈ faulty document, part.reported.isScalar = true
      · rw [sent_ok (hscalar.mpr hparts)]
        exact .invalid _ hreadable (hno hnone) rfl
      · rw [sent_ok_of_surrogate (Bool.not_eq_true _ ▸ mt hscalar.mp hparts)]
        refine .lost _ hreadable (hno hnone) fun hreports => hparts fun part hpart => ?_
        exact (hreported hreports part hpart).2
  · have hrefused : ¬route.Takes octets := fun ⟨document, _, hread, _⟩ => hno document hread
    rw [hbody]
    exact (sent_ok fault.isScalar_response r).symm ▸ .invalid _ hreadable hrefused h422

/-! ### Replies to a run -/

theorem isScalar_unknownTransducer (id : String) :
    (Refusal.unknownTransducer id).json.isScalar = true := by
  simp [Refusal.json, errorJson]

theorem isScalar_parsed_iff (id input : String) (g : Graph Text) :
    (Reply.parsed id ⟨input, g.parse input⟩).json.isScalar = true ↔ g.IsScalarOn [input] := by
  simp [Reply.json, Graph.parse, ResultInfo.isScalar_json, Graph.IsScalarOn]

theorem isScalar_batch_iff (id : String) (inputs : List String) (g : Graph Text) :
    (Reply.batch id (inputs.map fun input => ⟨input, g.parse input⟩)).json.isScalar = true ↔
      g.IsScalarOn inputs := by
  simp [Reply.json, Graph.parse, ResultInfo.isScalar_json, Graph.IsScalarOn]

/-- A route that runs inputs answers in one of these ways. -/
theorem run_route {route : Route} {id : String} (h : route.runsOn? = some id) (r : Registry)
    (octets : List UInt8) (fresh : ℕ → String) :
    Run r route id octets (sent (route.answer r "POST" (readBody octets) fresh)) := by
  cases route with
  | parse other =>
    obtain rfl : other = id := Option.some.inj h
    apply run_withBody ParseRequest.checksBody (fun _ _ => Iff.rfl) fun _ => rfl
    · intro hid request
      exact ⟨_, congrArg (fun done => (done.1, Except.ok (done.2.response 200)))
        (parse_of_not_mem hid request), rfl, isScalar_unknownTransducer other⟩
    · intro session hsession request
      exact ⟨_, congrArg (fun done => (done.1, Except.ok (done.2.response 200)))
        (parse_of_find? hsession request.input), rfl, isScalar_parsed_iff other _ _⟩
  | parseBatch other =>
    obtain rfl : other = id := Option.some.inj h
    apply run_withBody BatchRequest.checksBody (fun _ _ => Iff.rfl) fun _ => rfl
    · intro hid request
      exact ⟨_, congrArg (fun done => (done.1, Except.ok (done.2.response 200)))
        (parseBatch_of_not_mem hid request), rfl, isScalar_unknownTransducer other⟩
    · intro session hsession request
      exact ⟨_, congrArg (fun done => (done.1, Except.ok (done.2.response 200)))
        (parseBatch_of_find? hsession request.inputs), rfl, isScalar_batch_iff other _ _⟩
  | _ => cases h

section Status
variable {r : Registry} {route : Route} {id : String} {octets : List UInt8}
  {answered : Registry × Except Breakdown Response} (h : Run r route id octets answered)
include h

theorem Run.gives_400_iff : Gives answered 400 ↔ Unreadable octets := by
  cases h with
  | unreadable response hunreadable hstatus =>
    exact iff_of_true (gives_ok_iff.mpr hstatus) hunreadable
  | invalid response hreadable hno hstatus => exact iff_of_false (by simp [hstatus]) hreadable
  | lost breakdown hreadable => exact iff_of_false (by simp) hreadable
  | unknown response htakes hid hstatus =>
    exact iff_of_false (by simp [hstatus]) fun hunreadable => hunreadable.not_takes htakes
  | done document inputs response hread hasks hid hstatus =>
    exact iff_of_false (by simp [hstatus]) fun hunreadable => hunreadable.not_reads document hread
  | cut document inputs session hread =>
    exact iff_of_false (by simp) fun hunreadable => hunreadable.not_reads document hread

theorem Run.gives_422_iff (hreports : route.Reports octets) :
    Gives answered 422 ↔ ¬Unreadable octets ∧ ¬route.Takes octets := by
  cases h with
  | unreadable response hunreadable hstatus =>
    exact iff_of_false (by simp [hstatus]) fun hno => hno.1 hunreadable
  | invalid response hreadable hno hstatus =>
    exact iff_of_true (gives_ok_iff.mpr hstatus) ⟨hreadable, hno⟩
  | lost breakdown hreadable hno hlost => exact absurd hreports hlost
  | unknown response htakes hid hstatus =>
    exact iff_of_false (by simp [hstatus]) fun hno => hno.2 htakes
  | done document inputs response hread hasks hid hstatus =>
    exact iff_of_false (by simp [hstatus]) fun hno => hno.2 ⟨document, inputs, hread, hasks⟩
  | cut document inputs session hread hasks =>
    exact iff_of_false (by simp) fun hno => hno.2 ⟨document, inputs, hread, hasks⟩

theorem Run.gives_404_iff : Gives answered 404 ↔ route.Takes octets ∧ id ∉ r.ids := by
  cases h with
  | unreadable response hunreadable hstatus =>
    exact iff_of_false (by simp [hstatus]) fun hunknown => hunreadable.not_takes hunknown.1
  | invalid response hreadable hno hstatus =>
    exact iff_of_false (by simp [hstatus]) fun hunknown => hno hunknown.1
  | lost breakdown hreadable hno => exact iff_of_false (by simp) fun hunknown => hno hunknown.1
  | unknown response htakes hid hstatus =>
    exact iff_of_true (gives_ok_iff.mpr hstatus) ⟨htakes, hid⟩
  | done document inputs response hread hasks hid hstatus =>
    exact iff_of_false (by simp [hstatus]) fun hunknown => hunknown.2 hid
  | cut document inputs session hread hasks hsession =>
    refine iff_of_false (by simp) fun hunknown => ?_
    rw [Registry.find?_eq_none_iff.mpr hunknown.2] at hsession
    cases hsession

theorem Run.gives_200_iff (hruns : route.runsOn? = some id)
    (hwrites : route.WritesScalars r octets) :
    Gives answered 200 ↔ route.Takes octets ∧ id ∈ r.ids := by
  cases h with
  | unreadable response hunreadable hstatus =>
    exact iff_of_false (by simp [hstatus]) fun hdone => hunreadable.not_takes hdone.1
  | invalid response hreadable hno hstatus =>
    exact iff_of_false (by simp [hstatus]) fun hdone => hno hdone.1
  | lost breakdown hreadable hno => exact iff_of_false (by simp) fun hdone => hno hdone.1
  | unknown response htakes hid hstatus =>
    exact iff_of_false (by simp [hstatus]) fun hdone => hid hdone.2
  | done document inputs response hread hasks hid hstatus =>
    exact iff_of_true (gives_ok_iff.mpr hstatus) ⟨⟨document, inputs, hread, hasks⟩, hid⟩
  | cut document inputs session hread hasks hsession hcut =>
    exact absurd (hwrites id session document inputs hruns hsession hread hasks) hcut

/-- A run counts its inputs. -/
theorem Run.fst_eq_count (hdone : Gives answered 200) :
    ∃ document inputs, Reads octets document ∧ route.Asks document inputs ∧
      answered.1 = r.count id inputs.length := by
  cases h with
  | done document inputs response hread hasks => exact ⟨document, inputs, hread, hasks, rfl⟩
  | unreadable response _ hstatus | invalid response _ _ hstatus | unknown response _ _ hstatus =>
    simp [hstatus] at hdone
  | lost | cut => simp at hdone

/-- Only a run that succeeds changes the registry, where no output has a surrogate. -/
theorem Run.fst_eq (hruns : route.runsOn? = some id) (hwrites : route.WritesScalars r octets)
    (hfails : ¬Gives answered 200) : answered.1 = r := by
  cases h with
  | done document inputs response hread hasks hid hstatus =>
    exact absurd (gives_ok_iff.mpr hstatus) hfails
  | cut document inputs session hread hasks hsession hcut =>
    exact absurd (hwrites id session document inputs hruns hsession hread hasks) hcut
  | _ => rfl

/-- A run with a response of an error changes nothing. -/
theorem Run.fst_eq_of_error {response : Response} (hresponse : answered.2 = .ok response)
    (herror : 400 ≤ response.status) : answered.1 = r := by
  cases h with
  | done document inputs response' hread hasks hid hstatus =>
    obtain rfl := Except.ok.inj hresponse
    omega
  | cut => cases hresponse
  | _ => rfl

end Status

/-! ### What a request changes -/

section Change
variable (r : Registry) (body : Except BodyFault Json) (fresh : ℕ → String)

/-- A transducer and its size are found where it is active. -/
theorem exists_answer_get {route : Route} {id : String}
    (h : route = .transducer id ∨ route = .stats id) :
    ∃ response, sent (route.answer r "GET" body fresh) = (r, .ok response) ∧
      response.status = if id ∈ r.ids then 200 else 404 := by
  by_cases hid : id ∈ r.ids
  · obtain ⟨session, hsession⟩ := Registry.exists_find?_of_mem hid
    rw [if_pos hid]
    rcases h with rfl | rfl
    · have hget : get r id = .transducer (.ofSession session []) := by rw [get, hsession]
      have hanswer : (Route.transducer id).answer r "GET" body fresh =
          (r, .ok ((Reply.transducer (.ofSession session [])).response 200)) := by
        rw [← hget]
        rfl
      rw [hanswer]
      exact ⟨_, sent_ok (TransducerInfo.isScalar_json _) r, rfl⟩
    · have hstats : stats r id = .stats session.graph.stats := by
        rw [stats, Registry.stats?, hsession]
        rfl
      have hanswer : (Route.stats id).answer r "GET" body fresh =
          (r, .ok ((Reply.stats session.graph.stats).response 200)) := by
        rw [← hstats]
        rfl
      have hscalar : (statsJson session.graph.stats).isScalar = true := by simp [statsJson]
      rw [hanswer]
      exact ⟨_, sent_ok hscalar r, rfl⟩
  · have hnone := Registry.find?_eq_none_iff.mpr hid
    have hanswer : route.answer r "GET" body fresh =
        (r, .ok ((Reply.refused (.unknownTransducer id)).response 200)) := by
      rcases h with rfl | rfl
      · have hget : get r id = .refused (.unknownTransducer id) := by rw [get, hnone]
        rw [← hget]
        rfl
      · have hstats : stats r id = .refused (.unknownTransducer id) := by
          rw [stats, Registry.stats?, hnone]
          rfl
        rw [← hstats]
        rfl
    rw [if_neg hid, hanswer]
    exact ⟨_, sent_ok (isScalar_unknownTransducer id) r, rfl⟩

theorem answer_delete (id : String) :
    sent ((Route.transducer id).answer r "DELETE" body fresh) =
      ({ r with sessions := r.sessions.filter fun session => session.id ≠ id },
        .ok ⟨200, closedJson id (decide (id ∈ r.ids))⟩) := by
  have hanswer : (Route.transducer id).answer r "DELETE" body fresh =
      ({ r with sessions := r.sessions.filter fun session => session.id ≠ id },
        .ok ⟨200, closedJson id (decide (id ∈ r.ids))⟩) := by
    rw [← Registry.isSome_find?_eq_decide]
    rfl
  rw [hanswer]
  exact sent_ok (by simp [closedJson]) _

theorem answer_post_transducers :
    (∃ fault, sent (Route.transducers.answer r "POST" body fresh) =
        (r, .ok (BodyFault.response fault))) ∨
      ∃ document, Creation fresh r document
        (sent (Route.transducers.answer r "POST" body fresh)) := by
  cases body with
  | error fault => exact .inl ⟨fault, sent_ok fault.isScalar_response r⟩
  | ok document => exact .inr ⟨document, creation_sent fresh r document⟩

/-- Closing a transducer that is not active takes no session away. -/
theorem fst_answer_delete_of_not_mem {id : String} (hid : id ∉ r.ids) :
    (sent ((Route.transducer id).answer r "DELETE" body fresh)).1 = r := by
  have hkept (session : Session) (hsession : session ∈ r.sessions) : session.id ≠ id :=
    fun heq => hid (heq ▸ List.mem_map_of_mem hsession)
  rw [answer_delete, List.filter_eq_self.mpr fun session hsession =>
    decide_eq_true (hkept session hsession)]

/-- A route changes the registry by one method at most. -/
theorem method_of_changes {route : Route} {method : String}
    (h : (route.answer r method body fresh).1 ≠ r) :
    (route = .transducers ∧ method = "POST") ∨
      (∃ id, route = .transducer id ∧ method = "DELETE") ∨
      ∃ id, route.runsOn? = some id ∧ method = "POST" := by
  cases route with
  | root | health | stats id => exact absurd rfl h
  | transducers =>
    refine .inl ⟨rfl, ?_⟩
    by_contra hpost
    refine h ?_
    simp only [Route.answer, hpost, if_false]
    split <;> rfl
  | transducer id =>
    refine .inr (.inl ⟨id, rfl, ?_⟩)
    by_contra hdelete
    refine h ?_
    simp only [Route.answer, hdelete, if_false]
    split <;> rfl
  | parse id | parseBatch id =>
    refine .inr (.inr ⟨id, rfl, ?_⟩)
    by_contra hpost
    refine h ?_
    simp only [Route.answer, hpost, if_false]

end Change

section Answered
variable (r : Registry) (octets : List UInt8) (fresh : ℕ → String)

/-- The registry changes when a transducer is created, an active one is closed, or inputs are run
on one. -/
theorem changes_route {route : Route} {method : String}
    (h : (route.answer r method (readBody octets) fresh).1 ≠ r) :
    (route = .transducers ∧ method = "POST" ∧
        Gives (sent (route.answer r method (readBody octets) fresh)) 201) ∨
      (∃ id, route = .transducer id ∧ method = "DELETE" ∧ id ∈ r.ids) ∨
      ∃ id, route.runsOn? = some id ∧ method = "POST" ∧ (route.WritesScalars r octets →
        Gives (sent (route.answer r method (readBody octets) fresh)) 200) := by
  rcases method_of_changes r _ fresh h with ⟨rfl, rfl⟩ | ⟨id, rfl, rfl⟩ | ⟨id, hruns, rfl⟩
  · refine .inl ⟨rfl, rfl, ?_⟩
    rcases answer_post_transducers r (readBody octets) fresh with ⟨fault, heq⟩ |
      ⟨document, hcreation⟩
    · exact absurd (congrArg Prod.fst heq) h
    · by_contra hfails
      exact h (hcreation.fst_eq hfails)
  · refine .inr (.inl ⟨id, rfl, rfl, ?_⟩)
    by_contra hid
    exact h (fst_answer_delete_of_not_mem r (readBody octets) fresh hid)
  · refine .inr (.inr ⟨id, hruns, rfl, fun hwrites => ?_⟩)
    by_contra hfails
    exact h ((run_route hruns r octets fresh).fst_eq hruns hwrites hfails)

theorem exists_extended_of_gives_201 {body : Except BodyFault Json}
    (hcreated : Gives (sent (Route.transducers.answer r "POST" body fresh)) 201) :
    ∃ session : Session, session.id = fresh (r.issued + 1) ∧
      (sent (Route.transducers.answer r "POST" body fresh)).1 = extended r session := by
  rcases answer_post_transducers r body fresh with ⟨fault, heq⟩ | ⟨document, hcreation⟩
  · rw [heq, gives_ok_iff] at hcreated
    cases fault <;> cases hcreated
  · obtain ⟨request, hbody, hrules⟩ := hcreation.gives_201_iff.mp hcreated
    obtain ⟨graph, -, heq⟩ := hcreation.eq_registered hbody hrules
    exact ⟨newSession fresh r request graph, rfl, congrArg Prod.fst heq⟩

end Answered

/-! ### Any request -/

/-- What decides the status on a route that runs inputs: whether the body can be read, then whether
it keeps to the schema, then whether the transducer is active. What a run leaves is its inputs
counted on its session. -/
structure DecidesRun (r : Registry) (route : Route) (id : String) (octets : List UInt8)
    (answered : Registry × Except Breakdown Response) : Prop where
  unreadable : Gives answered 400 ↔ Unreadable octets
  invalid : route.Reports octets →
    (Gives answered 422 ↔ ¬Unreadable octets ∧ ¬route.Takes octets)
  unknown : Gives answered 404 ↔ route.Takes octets ∧ id ∉ r.ids
  done : route.WritesScalars r octets → (Gives answered 200 ↔ route.Takes octets ∧ id ∈ r.ids)
  counts : Gives answered 200 → ∃ document inputs, Reads octets document ∧
    route.Asks document inputs ∧ answered.1 = { r with
      sessions := r.sessions.map fun session => if session.id = id then
        { session with parseCount := session.parseCount + inputs.length } else session }

/-- What a request on a route changes: a creation adds a session, and closing takes one away.
Nothing else does, but for the runs. -/
structure Frames (r : Registry) (route : Route) (method : String) (octets : List UInt8)
    (answered : Registry × Except Breakdown Response) : Prop where
  creates : route = .transducers → method = "POST" → Gives answered 201 →
    ∃ session : Session, session.id ∉ r.ids ∧ answered.1 = extended r session
  closes (id : String) : route = .transducer id → method = "DELETE" → answered =
    ({ r with sessions := r.sessions.filter fun session => session.id ≠ id },
      .ok ⟨200, closedJson id (decide (id ∈ r.ids))⟩)
  changes : answered.1 ≠ r →
    (route = .transducers ∧ method = "POST" ∧ Gives answered 201) ∨
      (∃ id, route = .transducer id ∧ method = "DELETE" ∧ id ∈ r.ids) ∨
      ∃ id, route.runsOn? = some id ∧ method = "POST" ∧
        (route.WritesScalars r octets → Gives answered 200)
  errors (response : Response) : answered.2 = .ok response → 400 ≤ response.status →
    answered.1 = r

theorem decidesRun_route {route : Route} {id : String} (h : route.runsOn? = some id) (r : Registry)
    (octets : List UInt8) (fresh : ℕ → String) :
    DecidesRun r route id octets (sent (route.answer r "POST" (readBody octets) fresh)) where
  unreadable := (run_route h r octets fresh).gives_400_iff
  invalid := (run_route h r octets fresh).gives_422_iff
  unknown := (run_route h r octets fresh).gives_404_iff
  done := (run_route h r octets fresh).gives_200_iff h
  counts := (run_route h r octets fresh).fst_eq_count

theorem answer_of_sentMethod {target : String} {route : Route}
    (hroute : Route.ofTarget? target = some route) {method name : String}
    (hmethod : sentMethod method = name) (hname : name ≠ "HEAD") (r : Registry)
    (body : Except BodyFault Json) (fresh : ℕ → String) :
    answer r method target body fresh = sent (route.answer r name body fresh) := by
  subst hmethod
  exact (answer_of_route r method body fresh hroute).2 hname

/-- A response of an error leaves the registry as it is. -/
theorem fst_answer_of_error {target : String} {route : Route}
    (hroute : Route.ofTarget? target = some route) (r : Registry) (method : String)
    (octets : List UInt8) (fresh : ℕ → String) {response : Response}
    (hresponse : (answer r method target (readBody octets) fresh).2 = .ok response)
    (herror : 400 ≤ response.status) :
    (answer r method target (readBody octets) fresh).1 = r := by
  by_contra hchanged
  rw [(answer_of_route r method (readBody octets) fresh hroute).1] at hchanged
  rcases method_of_changes r _ fresh hchanged with ⟨rfl, hpost⟩ | ⟨id, rfl, hdelete⟩ |
    ⟨id, hruns, hpost⟩
  · rw [answer_of_sentMethod hroute hpost (by decide)] at hresponse
    rw [hpost] at hchanged
    rcases answer_post_transducers r (readBody octets) fresh with ⟨fault, heq⟩ |
      ⟨document, hcreation⟩
    · exact hchanged (congrArg Prod.fst heq)
    · refine hchanged (hcreation.fst_eq ?_)
      rintro ⟨created, hcreated, hstatus⟩
      obtain rfl := Except.ok.inj (hresponse.symm.trans hcreated)
      omega
  · rw [answer_of_sentMethod hroute hdelete (by decide), answer_delete] at hresponse
    rw [← Except.ok.inj hresponse] at herror
    simp at herror
  · rw [answer_of_sentMethod hroute hpost (by decide)] at hresponse
    rw [hpost] at hchanged
    exact hchanged ((run_route hruns r octets fresh).fst_eq_of_error hresponse herror)

section Served
variable {fresh : ℕ → String} (hfresh : Function.Injective fresh) (requests : List Request)
include hfresh

theorem frames_answer {target : String} {route : Route}
    (hroute : Route.ofTarget? target = some route) (method : String) (octets : List UInt8) :
    Frames (served fresh .empty requests) route (sentMethod method) octets
      (answer (served fresh .empty requests) method target (readBody octets) fresh) := by
  constructor
  case creates =>
    rintro rfl hpost hcreated
    rw [answer_of_sentMethod hroute hpost (by decide)] at hcreated ⊢
    obtain ⟨session, hid, heq⟩ := exists_extended_of_gives_201 _ fresh hcreated
    refine ⟨session, ?_, heq⟩
    rw [hid]
    exact fresh_not_mem_ids_served hfresh requests
  case closes =>
    rintro id rfl hdelete
    rw [answer_of_sentMethod hroute hdelete (by decide)]
    exact answer_delete _ _ fresh id
  case changes =>
    intro hchanged
    rw [(answer_of_route _ method (readBody octets) fresh hroute).1] at hchanged
    rcases changes_route _ octets fresh hchanged with
      ⟨htransducers, hpost, hcreated⟩ | hclosed | ⟨id, hruns, hpost, hdone⟩
    · rw [hpost] at hcreated
      rw [answer_of_sentMethod hroute hpost (by decide)]
      exact .inl ⟨htransducers, hpost, hcreated⟩
    · exact .inr (.inl hclosed)
    · rw [hpost] at hdone
      rw [answer_of_sentMethod hroute hpost (by decide)]
      exact .inr (.inr ⟨id, hruns, hpost, hdone⟩)
  case errors =>
    exact fun response => fst_answer_of_error hroute _ method octets fresh

/-- The answer to a request on a route, after any requests and for any distinct fresh identifiers.
On the routes that run inputs the body decides before the transducer is looked up; a transducer and
its size are found exactly where it is active; only a creation, the closing of an active transducer
and a run change the registry, and no response of an error does. -/
theorem answer_decides (method : String) (octets : List UInt8) {target : String} {route : Route}
    (hroute : Route.ofTarget? target = some route) :
    let r := served fresh .empty requests
    let answered := answer r method target (readBody octets) fresh
    r.ids.Nodup ∧
      (∀ id, route.runsOn? = some id → sentMethod method = "POST" →
        DecidesRun r route id octets answered) ∧
      (∀ id, route = .transducer id ∨ route = .stats id → sentMethod method = "GET" →
        (Gives answered 404 ↔ id ∉ r.ids) ∧ (Gives answered 200 ↔ id ∈ r.ids)) ∧
      Frames r route (sentMethod method) octets answered := by
  intro r answered
  refine ⟨nodup_ids_served hfresh requests, ?_, ?_, frames_answer hfresh requests hroute _ octets⟩
  · intro id hruns hpost
    have hanswered : answered = sent (route.answer r "POST" (readBody octets) fresh) :=
      answer_of_sentMethod hroute hpost (by decide) r (readBody octets) fresh
    rw [hanswered]
    exact decidesRun_route hruns r octets fresh
  · intro id hread hget
    have hanswered : answered = sent (route.answer r "GET" (readBody octets) fresh) :=
      answer_of_sentMethod hroute hget (by decide) r (readBody octets) fresh
    obtain ⟨response, heq, hstatus⟩ := exists_answer_get r (readBody octets) fresh hread
    rw [hanswered, heq, gives_ok_iff, gives_ok_iff, hstatus]
    split <;> simp_all

end Served

/-- Asks for a transducer of one rule. -/
def creatingRequest : Request :=
  ⟨"POST", "/api/v1/transducers", .ok (.object [("rules", .array [.array [.text "a"]])])⟩

/-- The octets of a body that asks to run two inputs. -/
def batchOctets : List UInt8 := Text.Utf8.encode "\x7b\"inputs\":[\"a\",\"b\"]\x7d".toList

theorem reads_batchOctets : Reads batchOctets (.object [("inputs", .strings ["a", "b"])]) := by
  rw [batchOctets]
  simp only [String.reduceToList]
  exact reads_encode rfl rfl

theorem answer_decides_batchOctets :
    Route.ofTarget? "/api/v1/transducers/t1/parse_batch" = some (.parseBatch "t1") ∧
      Gives (answer .empty "POST" "/api/v1/transducers/t1/parse_batch" (readBody batchOctets))
        404 ∧
      Gives (answer (served Registry.idOf .empty [creatingRequest]) "POST"
        "/api/v1/transducers/t1/parse_batch" (readBody batchOctets)) 200 := by
  have hroute : Route.ofTarget? "/api/v1/transducers/t1/parse_batch" = some (.parseBatch "t1") := by
    decide +kernel
  have hbody : BatchRequest.HasBody (.object [("inputs", .strings ["a", "b"])]) ⟨["a", "b"]⟩ :=
    ⟨_, rfl, rfl, by decide, by decide⟩
  have htakes : (Route.parseBatch "t1").Takes batchOctets :=
    ⟨_, _, reads_batchOctets, _, hbody, rfl⟩
  obtain ⟨-, hempty, -⟩ :=
    answer_decides Registry.idOf_injective [] "POST" batchOctets hroute
  obtain ⟨-, hcreated, -⟩ :=
    answer_decides Registry.idOf_injective [creatingRequest] "POST" batchOctets hroute
  have hactive : "t1" ∈ (served Registry.idOf .empty [creatingRequest]).ids := by decide +kernel
  have hscalar : ∀ session ∈ (served Registry.idOf .empty [creatingRequest]).sessions,
      session.graph.IsScalarOn ["a", "b"] := by decide +kernel
  refine ⟨hroute, ?_, ?_⟩
  · exact (hempty "t1" rfl (by decide)).unknown.mpr ⟨htakes, List.not_mem_nil⟩
  · refine ((hcreated "t1" rfl (by decide)).done ?_).mpr ⟨htakes, hactive⟩
    intro id session document inputs hruns hsession hread hasks
    obtain rfl := hread.unique reads_batchOctets
    obtain ⟨request, hrequest, rfl⟩ := hasks
    obtain rfl := BatchRequest.checksBody.unique hrequest hbody
    exact hscalar session (List.mem_of_find?_eq_some hsession)

/-! ### Bodies that cannot be read -/

/-- The octets of empty brackets in UTF-16, with half a unit behind them. -/
def halvedOctets : List UInt8 := [0x00, 0x5B, 0x00, 0x5D, 0x00]

/-- Octets that are no text get none of the statuses that a body gets which can be read. -/
theorem gives_400_halvedOctets :
    Unreadable halvedOctets ∧
      Gives (answer .empty "POST" "/api/v1/transducers/t1/parse" (readBody halvedOctets)) 400 ∧
      ∀ status ∈ [422, 404, 200],
        ¬Gives (answer .empty "POST" "/api/v1/transducers/t1/parse" (readBody halvedOctets))
          status := by
  have hroute : Route.ofTarget? "/api/v1/transducers/t1/parse" = some (.parse "t1") := by
    decide +kernel
  have hunreadable : Unreadable halvedOctets := ⟨List.cons_ne_nil _ _, .inl rfl⟩
  have hpost : sentMethod "POST" = "POST" := by decide
  have hrun : Run .empty (.parse "t1") "t1" halvedOctets
      (answer .empty "POST" "/api/v1/transducers/t1/parse" (readBody halvedOctets)) := by
    rw [answer_of_sentMethod hroute hpost (by decide)]
    exact run_route rfl .empty _ Registry.idOf
  have hgives := hrun.gives_400_iff.mpr hunreadable
  refine ⟨hunreadable, hgives, fun status hstatus hother => ?_⟩
  obtain rfl := hgives.unique hother
  simp at hstatus

end RuleTransducer.Api
