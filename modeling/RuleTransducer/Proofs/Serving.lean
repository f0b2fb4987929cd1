import RuleTransducer.Api.Http
import RuleTransducer.Proofs.Registry

/-! Requests as calls. Whatever arrives, answering it leaves the registry as it is or makes one call
on it. So the registry that requests lead to is one that calls lead to, and what holds after every
run of calls holds for it: if the fresh identifiers are distinct, so are those in it, and the next
one to be issued is new. -/

namespace RuleTransducer.Api

/-- A request as it arrives. -/
structure Request where
  method : String
  target : String
  body : Except BodyFault Json

/-- The registry after requests. -/
def served (fresh : ℕ → String) (r : Registry) (requests : List Request) : Registry :=
  requests.foldl (fun r request => (answer r request.method request.target request.body fresh).1) r

/-- Whether an answer is a response with a status. -/
def Gives (answered : Registry × Except Breakdown Response) (status : ℕ) : Prop :=
  ∃ response, answered.2 = .ok response ∧ response.status = status

@[simp] theorem gives_ok_iff {r : Registry} {response : Response} {status : ℕ} :
    Gives (r, .ok response) status ↔ response.status = status := by simp [Gives]

@[simp] theorem not_gives_error (r : Registry) (breakdown : Breakdown) (status : ℕ) :
    ¬Gives (r, .error breakdown) status := by simp [Gives]

theorem Gives.unique {answered : Registry × Except Breakdown Response} {status other : ℕ}
    (h : Gives answered status) (hother : Gives answered other) : status = other := by
  obtain ⟨response, hresponse, rfl⟩ := h
  obtain ⟨response', hresponse', rfl⟩ := hother
  rw [hresponse, Except.ok.injEq] at hresponse'
  rw [hresponse']

/-! ### Responses that are sent -/

theorem sent_ok {response : Response} (h : response.body.isScalar = true) (r : Registry) :
    sent (r, .ok response) = (r, .ok response) := by
  simp [sent, Except.bind, Response.sent, h]

theorem sent_ok_of_surrogate {response : Response} (h : response.body.isScalar = false)
    (r : Registry) : sent (r, .ok response) = (r, .error .surrogate) := by
  simp [sent, Except.bind, Response.sent, h]

theorem sent_error (r : Registry) (breakdown : Breakdown) :
    sent (r, .error breakdown) = (r, .error breakdown) := rfl

section Route
variable {target : String} (r : Registry) (method : String) (body : Except BodyFault Json)
  (fresh : ℕ → String)

/-- The registry after a request on a route is the one that the route's answer leaves. -/
theorem answer_of_route {route : Route} (h : Route.ofTarget? target = some route) :
    (answer r method target body fresh).1 = (route.answer r (sentMethod method) body fresh).1 ∧
      (sentMethod method ≠ "HEAD" → answer r method target body fresh =
        sent (route.answer r (sentMethod method) body fresh)) := by
  unfold answer
  rw [h]
  refine ⟨rfl, fun hhead => ?_⟩
  simp [hhead]

theorem answer_of_no_route (h : Route.ofTarget? target = none) :
    (answer r method target body fresh).1 = r := by
  unfold answer
  rw [h]
  rfl

end Route

/-! ### One request -/

/-- Whether a registry is another one, perhaps with a call made on it. -/
def Follows (fresh : ℕ → String) (r r' : Registry) : Prop :=
  r' = r ∨ ∃ call, r' = (r.perform fresh call).1

theorem Follows.refl (fresh : ℕ → String) (r : Registry) : Follows fresh r r := .inl rfl

theorem Follows.perform (fresh : ℕ → String) (r : Registry) (call : Registry.Call) :
    Follows fresh r (r.perform fresh call).1 := .inr ⟨call, rfl⟩

section Request
variable {α : Type} (fresh : ℕ → String) (r : Registry)

/-- The registry after a body is that after what is done on the request in it, if it has one. -/
theorem follows_withBody (body : Except BodyFault Json)
    (check : List Place → List (Text × Datum) → Checked α)
    {act : α → Registry × Except Breakdown Response}
    (h : ∀ request, Follows fresh r (act request).1) :
    Follows fresh r (withBody r body check act).1 := by
  unfold withBody
  split
  · exact .refl fresh r
  · split
    · exact .refl fresh r
    · exact h _

theorem follows_create (request : CreateRequest) :
    Follows fresh r (create r request fresh).1 := by
  unfold create
  dsimp only
  split
  · exact .perform fresh r (.create (.list (request.rules.map rawRequestRule)) request.name)
  · exact .refl fresh r

theorem parse_fst (id : String) (request : ParseRequest) :
    (parse r id request).1 = r.count id 1 := by
  unfold parse
  rw [Registry.parse_eq]
  cases r.find? id <;> rfl

theorem parseBatch_fst (id : String) (request : BatchRequest) :
    (parseBatch r id request).1 = r.count id request.inputs.length := by
  unfold parseBatch
  rw [Registry.parseBatch_eq, List.length_map]
  cases r.find? id <;> rfl

theorem follows_parse (id : String) (request : ParseRequest) :
    Follows fresh r (parse r id request).1 := by
  have hcall := Follows.perform fresh r (.parse id request.input)
  rwa [Registry.perform, Registry.parse_eq, ← parse_fst r id request] at hcall

theorem follows_parseBatch (id : String) (request : BatchRequest) :
    Follows fresh r (parseBatch r id request).1 := by
  have hcall := Follows.perform fresh r (.parseBatch id (request.inputs.map Text.ofString))
  rwa [Registry.perform, Registry.parseBatch_eq, List.length_map,
    ← parseBatch_fst r id request] at hcall

/-- A request on a route leaves the registry as it is or makes one call on it. -/
theorem follows_route (route : Route) (method : String) (body : Except BodyFault Json) :
    Follows fresh r (route.answer r method body fresh).1 := by
  cases route with
  | root | health | stats id => exact .refl fresh r
  | transducers =>
    simp only [Route.answer]
    split
    · exact .refl fresh r
    · split
      · refine follows_withBody fresh r body _ fun request => ?_
        exact follows_create fresh r request
      · exact .refl fresh r
  | transducer id =>
    simp only [Route.answer]
    split
    · exact .refl fresh r
    · split
      · exact .perform fresh r (.close id)
      · exact .refl fresh r
  | parse id =>
    simp only [Route.answer]
    split
    · refine follows_withBody fresh r body _ fun request => ?_
      exact follows_parse fresh r id request
    · exact .refl fresh r
  | parseBatch id =>
    simp only [Route.answer]
    split
    · refine follows_withBody fresh r body _ fun request => ?_
      exact follows_parseBatch fresh r id request
    · exact .refl fresh r

theorem follows_answer (request : Request) :
    Follows fresh r (answer r request.method request.target request.body fresh).1 := by
  cases hroute : Route.ofTarget? request.target with
  | none =>
    rw [answer_of_no_route r request.method request.body fresh hroute]
    exact .refl fresh r
  | some route =>
    rw [(answer_of_route r request.method request.body fresh hroute).1]
    exact follows_route fresh r route _ _

end Request

/-! ### Runs -/

section Runs
variable {fresh : ℕ → String}

theorem served_append (r : Registry) (requests later : List Request) :
    served fresh r (requests ++ later) = served fresh (served fresh r requests) later :=
  List.foldl_append

/-- The registry that requests lead to is one that calls lead to. -/
theorem exists_calls_served (fresh : ℕ → String) (requests : List Request) :
    ∃ calls, served fresh .empty requests = Registry.empty.run fresh calls := by
  induction requests using List.reverseRecOn with
  | nil => exact ⟨[], rfl⟩
  | append_singleton requests request ih =>
    obtain ⟨calls, hcalls⟩ := ih
    rw [served_append]
    obtain hsame | ⟨call, hcall⟩ := follows_answer fresh (served fresh .empty requests) request
    · exact ⟨calls, hsame.trans hcalls⟩
    · refine ⟨calls ++ [call], ?_⟩
      rw [Registry.run_append, ← hcalls]
      exact hcall

variable (hfresh : Function.Injective fresh)
include hfresh

theorem nodup_ids_served (requests : List Request) : (served fresh .empty requests).ids.Nodup := by
  obtain ⟨calls, hcalls⟩ := exists_calls_served fresh requests
  have hfits := Registry.fits_run hfresh calls
  rw [hcalls]
  exact (hfits.nodup hfresh).sublist hfits.sublist

/-- The identifier of the next session is new. -/
theorem fresh_not_mem_ids_served (requests : List Request) :
    fresh ((served fresh .empty requests).issued + 1) ∉ (served fresh .empty requests).ids := by
  obtain ⟨calls, hcalls⟩ := exists_calls_served fresh requests
  have hfits := Registry.fits_run hfresh calls
  rw [← hcalls] at hfits
  intro hmem
  have hcreated := hfits.sublist.subset hmem
  rw [hfits.issued, List.mem_map] at hcreated
  obtain ⟨n, hn, heq⟩ := hcreated
  rw [List.mem_range] at hn
  have hsucc := hfresh heq
  omega

end Runs

end RuleTransducer.Api
