import Mathlib.Data.List.Forall2
import AdsHub.Core.Config
import AdsHub.Events.System
import AdsHub.Lib.Python

/-!
# AdsHub.Gateway — missions through the vault

`POST /v1/autonomy/missions/run` gives the team a model that is served by the hub itself:
the client of the model sends each completion to `POST /v1/model-gateway/chat/completions`
under the lease of the mission, and the gateway forwards it to the vault. The gateway is
open to anybody else too.

Any number of missions and other clients are served at a time. A completion that is
forwarded waits for the vault, and in the meantime every other client goes on, so the
forwarding and the answer are two steps (`brokerStep`). The SDK and the vault are outside
the program: a runner is a tree of hook calls and completions that goes on with the
answers it gets (`RunnerProgram`), and the vault answers by all the calls it has got.

`leases_confined`: a lease goes to the vault, in the header of the calls of the client that
holds it, and nowhere else. No answer and no published state depends on it but through
what the vault answers.
-/

namespace AdsHub

open Python

/-! ## The gateway -/

/-- `client.post(gateway, json=body, headers=...)`. -/
structure VaultCall where
  url : String
  headers : List (String × String)
  body : Json

/-- What comes of a call: an exception of the client or of `response.json()`, or a status
with the content, if there is any. -/
inductive VaultReply where
  | failed
  | answered (status : ℕ) (content : Option Json)

/-- What an endpoint answers; `raised` is an exception that it lets through. -/
inductive HttpAnswer where
  | response (status : ℕ) (content : Json)
  | raised

/-- `HTTPException` as the framework answers it. -/
def HttpAnswer.exception (status : ℕ) (detail : Json) : HttpAnswer :=
  .response status (.obj [("detail", detail)])

/-- `vault_gateway_url`, or the message of the error. -/
def vaultGatewayUrl (env : Env) : Except String String :=
  let value := Text.strip (getenv env "ADS_VAULT_MODEL_GATEWAY_URL" "")
  if value = "" then .error "ADS_VAULT_MODEL_GATEWAY_URL is not configured" else .ok value

/-- The call that the gateway makes. -/
def vaultCall (gateway lease : String) (body : Json) : VaultCall where
  url := gateway
  headers := [("x-ads-vault-lease", lease), ("accept", "application/json"),
    ("content-type", "application/json")]
  body := body

/-- The lease of a request, by its header `x-ads-vault-lease`. -/
def leaseOf (header : Option String) : String := Text.strip (header.getD "")

/-- `vault_model_gateway` up to its call: the call, or the answer if none is made. A body
that is no JSON is `none`. -/
def gatewayCall (env : Env) (header : Option String) (body : Option Json) :
    Except HttpAnswer VaultCall :=
  if leaseOf header = "" then .error (.exception 401 (.str "missing vault model lease"))
  else
    match body with
    | none => .error .raised
    | some body =>
      match get body "stream" .null with
      | .error _ => .error .raised
      | .ok stream =>
        if isTruthy stream then
          .error (.exception 400 (.str "vault model gateway accepts non-stream requests only"))
        else
          match vaultGatewayUrl env with
          | .error message =>
            .error (.exception 503 (.obj
              [("reason", .str "vault_model_gateway_not_configured"), ("message", .str message)]))
          | .ok gateway => .ok (vaultCall gateway (leaseOf header) body)

/-- `vault_model_gateway` behind its call. -/
def gatewayAnswer : VaultReply → HttpAnswer
  | .failed => .raised
  | .answered status content => .response status (content.getD .null)

/-! ## The endpoint of the missions -/

/-- `MissionModelRouteIn`. -/
structure MissionModelRouteIn where
  provider : String
  model : String
  leaseToken : String
  provider_length : 1 ≤ provider.length ∧ provider.length ≤ 80 := by decide
  model_length : 1 ≤ model.length ∧ model.length ≤ 200 := by decide
  lease_length : 16 ≤ leaseToken.length ∧ leaseToken.length ≤ 256 := by decide

/-- `MissionRunIn`. -/
structure MissionRunIn where
  objective : String
  missionId : Option String := none
  taskType : String := "ads_operation"
  priority : String := "normal"
  maxTurns : ℕ := 20
  modelRoute : Option MissionModelRouteIn := none
  objective_length : 3 ≤ objective.length ∧ objective.length ≤ 12000 := by decide
  mission_length : ∀ id ∈ missionId, id.length ≤ 120 := by decide
  type_length : 1 ≤ taskType.length ∧ taskType.length ≤ 120 := by decide
  priority_length : 1 ≤ priority.length ∧ priority.length ≤ 40 := by decide
  turns_range : 1 ≤ maxTurns ∧ maxTurns ≤ 100 := by decide

/-- The `MissionRequest`; `fresh` is the id that is made up if none is given. -/
def MissionRunIn.request (data : MissionRunIn) (fresh : String) : MissionRequest where
  missionId := (truthy data.missionId).getD fresh
  objective := data.objective
  taskType := data.taskType
  priority := data.priority
  maxTurns := data.maxTurns

/-- What the runner of the SDK does: it ends, calls a hook, or has the model complete a body
and goes on with the answer. -/
inductive RunnerProgram where
  | ended (outcome : Outcome)
  | hook (call : HookCall) (next : RunnerProgram)
  | complete (body : Option Json) (next : HttpAnswer → RunnerProgram)

/-- `Runner.run(chief, objective, max_turns=...)` for a chief with the given model. -/
abbrev ModelRunner := String → Agent → String → ℕ → RunnerProgram

/-- `{**result, 'model_route': ...}`. -/
def missionContent (result : MissionResult) (route : MissionModelRouteIn) : Json :=
  .obj [("mission_id", .str result.missionId), ("status", .str result.status),
    ("last_agent_id", .str result.lastAgentId),
    ("agents_touched", .arr (result.agentsTouched.map .str)),
    ("final_output", result.finalOutput),
    ("model_route", .obj [("provider", .str route.provider), ("model", .str route.model),
      ("source", .str "model-router+vault-broker"), ("secret_transferred", .bool false)])]

/-- `run_mission`, by the hook calls of its runner and the way this ends: the answer, and
everything that was published. -/
def runMission (posts : List AgentPost) (data : MissionRunIn) (fresh : String)
    (hooks : List HookCall) (outcome : Outcome) : HttpAnswer × List Payload :=
  match data.modelRoute with
  | none =>
    (.exception 503 (.obj [("reason", .str "model_route_required"),
      ("message", .str "Mission must be routed through Model Router + Vault")]), [])
  | some route =>
    match buildTeam posts with
    | none => (.raised, [])
    | some team =>
      let (result, published) :=
        executeMission (data.request fresh) team (fun _ _ _ => (hooks, outcome))
      match result with
      | .ok result => (.response 200 (missionContent result route), published)
      | .error _ => (.raised, published)

/-! ## All clients together -/

/-- A client of the gateway: a mission, or a request of somebody else. -/
inductive GatewayClient where
  | mission (data : MissionRunIn) (fresh : String)
  | direct (header : Option String) (body : Option Json)

/-- The header of the client's completions; that of a mission is a default header of its
model's client. -/
def GatewayClient.header : GatewayClient → Option String
  | .mission data _ => data.modelRoute.map MissionModelRouteIn.leaseToken
  | .direct header _ => header

/-- How far a client is: the hooks that were called, the answers it got, what it goes on
with, and the call whose answer it waits for. -/
structure Progress where
  hooks : List HookCall := []
  answers : List HttpAnswer := []
  program : RunnerProgram
  waiting : Option ℕ := none

/-- A client before its first step. Without a route or a team there is nothing to run. -/
def GatewayClient.start (posts : List AgentPost) (runner : ModelRunner) :
    GatewayClient → Progress
  | .mission data _ =>
    match data.modelRoute, buildTeam posts with
    | some route, some team =>
      { program := runner route.model team.chief data.objective data.maxTurns }
    | _, _ => { program := .ended .raised }
  | .direct _ body => { program := .complete body (fun _ => .ended .raised) }

/-- The calls that the vault has got, with the clients they are for. -/
structure Broker (ι : Type) where
  calls : List (ι × VaultCall) := []
  progress : ι → Progress

/-- A step of a client, the vault's answer to it, or its cancellation. -/
inductive BrokerStep (ι : Type) where
  | move (i : ι)
  | reply (i : ι)
  | cancel (i : ι)

section

variable {ι : Type} [DecidableEq ι] (env : Env) (vault : List VaultCall → ℕ → VaultReply)
  (clients : ι → GatewayClient)

/-- The client goes on. -/
def Broker.update (s : Broker ι) (i : ι) (p : Progress) : Broker ι :=
  { s with progress := Function.update s.progress i p }

/-- One step: nothing happens to a client that has ended, and to one that waits only the
answer. -/
def brokerStep (s : Broker ι) : BrokerStep ι → Broker ι
  | .move i =>
    -- a hook call is made at once; a request is refused here or goes out to the vault
    match (s.progress i).waiting, (s.progress i).program with
    | none, .hook call next =>
      s.update i { s.progress i with hooks := (s.progress i).hooks ++ [call], program := next }
    | none, .complete body next =>
      match gatewayCall env (clients i).header body with
      | .error answer =>
        s.update i
          { s.progress i with answers := (s.progress i).answers ++ [answer], program := next answer }
      | .ok call =>
        { calls := s.calls ++ [(i, call)]
          progress := Function.update s.progress i
            { s.progress i with waiting := some s.calls.length } }
    | _, _ => s
  | .reply i =>
    -- the answer to the call that this client waits for
    match (s.progress i).waiting, (s.progress i).program with
    | some k, .complete _ next =>
      let answer := gatewayAnswer (vault (s.calls.map Prod.snd) k)
      s.update i
        { s.progress i with
          answers := (s.progress i).answers ++ [answer]
          program := next answer
          waiting := none }
    | _, _ => s
  | .cancel i =>
    match (s.progress i).program with
    | .ended _ => s
    | _ => s.update i { s.progress i with program := .ended .cancelled, waiting := none }

/-- The clients before their first step. -/
def Broker.start (posts : List AgentPost) (runner : ModelRunner) (clients : ι → GatewayClient) :
    Broker ι :=
  { progress := fun i => (clients i).start posts runner }

end

/-- What can be seen of a client: the answer, once there is one, and what is published. -/
def GatewayClient.visible (posts : List AgentPost) (client : GatewayClient) (p : Progress) :
    Option HttpAnswer × List Payload :=
  match client with
  | .mission data fresh =>
    match p.program with
    | .ended outcome =>
      let (answer, published) := runMission posts data fresh p.hooks outcome
      (some answer, published)
    | _ =>
      match buildTeam posts with
      | none => (none, [])
      | some team =>
        (none, (afterCalls (data.request fresh) (agentIdByName team) p.hooks).published)
  | .direct _ _ => (p.answers.head?, [])

/-! ## What is forwarded -/

/-- What the gateway forwards carries the lease of its request, and asks for no stream. -/
theorem gatewayCall_ok {env : Env} {header : Option String} {body : Option Json} {call : VaultCall}
    (h : gatewayCall env header body = .ok call) :
    leaseOf header ≠ "" ∧ ∃ gateway content stream, vaultGatewayUrl env = .ok gateway ∧
      body = some content ∧ get content "stream" .null = .ok stream ∧ isTruthy stream = false ∧
      call = vaultCall gateway (leaseOf header) content := by
  -- every branch but the last is an error
  unfold gatewayCall at h
  split at h
  · cases h
  · next hlease =>
    refine ⟨hlease, ?_⟩
    cases body with
    | none => cases h
    | some content =>
      dsimp only at h
      split at h
      · cases h
      · next stream hstream =>
        split at h
        · cases h
        · next hfalse =>
          split at h
          · cases h
          · next gateway hgateway =>
            cases h
            exact ⟨gateway, content, stream, hgateway, rfl, hstream, Bool.eq_false_iff.2 hfalse, rfl⟩

section

variable {ι : Type} [DecidableEq ι] {env : Env} {vault : List VaultCall → ℕ → VaultReply}
  {clients : ι → GatewayClient}

/-- Every call is made for its client with the client's lease, and a client waits for an
answer to a call of its own. -/
structure Forwarded (env : Env) (clients : ι → GatewayClient) (s : Broker ι) : Prop where
  own : ∀ c ∈ s.calls, ∃ body, gatewayCall env (clients c.1).header body = .ok c.2
  waiting : ∀ i k, (s.progress i).waiting = some k → ∃ call, s.calls[k]? = some (i, call)

theorem Forwarded.update {s : Broker ι} (h : Forwarded env clients s) (i : ι) {p : Progress}
    (hp : ∀ k, p.waiting = some k → (s.progress i).waiting = some k) :
    Forwarded env clients (s.update i p) := by
  refine ⟨h.own, ?_⟩
  intro j k hk
  by_cases hj : j = i
  · subst hj
    refine h.waiting j k (hp k ?_)
    simpa [Broker.update] using hk
  · refine h.waiting j k ?_
    simpa [Broker.update, hj] using hk

theorem Forwarded.step {s : Broker ι} (h : Forwarded env clients s) (l : BrokerStep ι) :
    Forwarded env clients (brokerStep env vault clients s l) := by
  cases l with
  | move i =>
    rw [brokerStep]
    split
    · exact h.update i (fun k hk => hk)
    · next hwaiting hprogram =>
      split
      · exact h.update i (fun k hk => hk)
      · -- the new call is the last, and its client waits for exactly that place
        next call hcall =>
        refine ⟨?_, ?_⟩
        · rw [List.forall_mem_append, List.forall_mem_singleton]
          exact ⟨h.own, _, hcall⟩
        · intro j k hk
          dsimp only at hk ⊢
          by_cases hj : j = i
          · subst hj
            rw [Function.update_self, Option.some.injEq] at hk
            subst hk
            exact ⟨call, List.getElem?_concat_length⟩
          · rw [Function.update_of_ne hj] at hk
            -- the calls of the others keep their places
            obtain ⟨call', hcall'⟩ := h.waiting j k hk
            refine ⟨call', ?_⟩
            rw [List.getElem?_append_left (List.getElem?_eq_some_iff.1 hcall').1]
            exact hcall'
    · exact h
  | reply i =>
    rw [brokerStep]
    split
    · refine h.update i ?_
      intro k hk
      cases hk
    · exact h
  | cancel i =>
    rw [brokerStep]
    split
    · exact h
    · refine h.update i ?_
      intro k hk
      cases hk

theorem Forwarded.run (posts : List AgentPost) (runner : ModelRunner) (steps : List (BrokerStep ι)) :
    Forwarded env clients
      (Runs.run (brokerStep env vault clients) (.start posts runner clients) steps) := by
  have hinit : Forwarded env clients (Broker.start posts runner clients) := by
    refine ⟨fun c hc => absurd hc List.not_mem_nil, ?_⟩
    intro i k hk
    have hnone : ((clients i).start posts runner).waiting = none := by
      unfold GatewayClient.start
      split
      · split <;> rfl
      · rfl
    exact absurd (hnone.symm.trans hk) (by simp)
  have hstep : ∀ s l, Forwarded env clients s → True →
      Forwarded env clients (brokerStep env vault clients s l) :=
    fun _ l hs _ => hs.step l
  exact Runs.run_invariant hstep hinit (fun _ _ => trivial) (List.prefix_refl steps)

end

/-! ## Other leases -/

/-- The calls differ in the lease only. -/
def LeaseAlike (R : String → String → Prop) (c c' : VaultCall) : Prop :=
  ∃ gateway lease lease' body, R lease lease' ∧
    c = vaultCall gateway lease body ∧ c' = vaultCall gateway lease' body

/-- The relation tells no lease from a lease. -/
structure Relets (R : String → String → Prop) : Prop where
  blank : R "" ""
  given : ∀ lease lease', R lease lease' → (lease = "" ↔ lease' = "")

/-- The route under another lease. -/
def MissionModelRouteIn.relet (route : MissionModelRouteIn) (token : String)
    (h : 16 ≤ token.length ∧ token.length ≤ 256) : MissionModelRouteIn :=
  { route with leaseToken := token, lease_length := h }

def MissionRunIn.relet (data : MissionRunIn) (token : String)
    (h : 16 ≤ token.length ∧ token.length ≤ 256) : MissionRunIn :=
  { data with modelRoute := data.modelRoute.map (fun route => route.relet token h) }

/-- The same client with a related lease. -/
inductive Reletted (R : String → String → Prop) : GatewayClient → GatewayClient → Prop where
  | mission (data : MissionRunIn) (fresh : String) {token : String}
      (h : 16 ≤ token.length ∧ token.length ≤ 256)
      (hR : ∀ route ∈ data.modelRoute, R (Text.strip route.leaseToken) (Text.strip token)) :
      Reletted R (.mission data fresh) (.mission (data.relet token h) fresh)
  | direct {header header' : Option String} (hR : R (leaseOf header) (leaseOf header'))
      (body : Option Json) : Reletted R (.direct header body) (.direct header' body)

namespace Reletted

variable {R : String → String → Prop} {client client' : GatewayClient}

theorem leaseOf_header (hR : Relets R) (h : Reletted R client client') :
    R (leaseOf client.header) (leaseOf client'.header) := by
  cases h with
  | mission data fresh htoken hroute =>
    cases hdata : data.modelRoute with
    | none =>
      simp only [GatewayClient.header, MissionRunIn.relet, hdata, Option.map_none]
      exact hR.blank
    | some route =>
      simp only [GatewayClient.header, MissionRunIn.relet, hdata, Option.map_some]
      exact hroute route hdata
  | direct h body => exact h

/-- The runner is not given the lease. -/
theorem start (posts : List AgentPost) (runner : ModelRunner) (h : Reletted R client client') :
    client'.start posts runner = client.start posts runner := by
  cases h with
  | mission data fresh htoken hroute =>
    cases hdata : data.modelRoute with
    | none => simp only [GatewayClient.start, MissionRunIn.relet, hdata, Option.map_none]
    | some route =>
      simp only [GatewayClient.start, MissionRunIn.relet, hdata, Option.map_some]
      cases buildTeam posts with
      | none => rfl
      | some team => rfl
  | direct h body => rfl

/-- Nor does the answer show it. -/
theorem visible (posts : List AgentPost) (h : Reletted R client client') (p : Progress) :
    client'.visible posts p = client.visible posts p := by
  cases h with
  | direct h body => rfl
  | @mission data fresh token htoken hroute =>
    have hrequest : (data.relet token htoken).request fresh = data.request fresh := rfl
    have hrun : ∀ outcome, runMission posts (data.relet token htoken) fresh p.hooks outcome =
        runMission posts data fresh p.hooks outcome := by
      intro outcome
      unfold runMission
      rw [hrequest]
      cases hdata : data.modelRoute with
      | none => simp only [MissionRunIn.relet, hdata, Option.map_none]
      | some route =>
        simp only [MissionRunIn.relet, hdata, Option.map_some]
        rfl
    unfold GatewayClient.visible
    dsimp only
    rw [hrequest]
    split
    · next outcome hended => rw [hrun outcome]
    · rfl

end Reletted

/-- Under related leases the gateway answers alike, or forwards alike. -/
theorem gatewayCall_alike {R : String → String → Prop} (hR : Relets R) (env : Env)
    {header header' : Option String} (h : R (leaseOf header) (leaseOf header'))
    (body : Option Json) :
    (∃ answer, gatewayCall env header body = .error answer ∧
      gatewayCall env header' body = .error answer) ∨
    ∃ call call', gatewayCall env header body = .ok call ∧
      gatewayCall env header' body = .ok call' ∧ LeaseAlike R call call' := by
  -- only the first check looks at the lease, and only whether it is empty
  have hblank := hR.given _ _ h
  unfold gatewayCall
  by_cases hlease : leaseOf header = ""
  · rw [if_pos hlease, if_pos (hblank.1 hlease)]
    exact Or.inl ⟨_, rfl, rfl⟩
  · rw [if_neg hlease, if_neg (fun h' => hlease (hblank.2 h'))]
    cases body with
    | none => exact Or.inl ⟨_, rfl, rfl⟩
    | some content =>
      dsimp only
      cases get content "stream" .null with
      | error e => exact Or.inl ⟨_, rfl, rfl⟩
      | ok stream =>
        dsimp only
        by_cases hstream : isTruthy stream = true
        · rw [if_pos hstream, if_pos hstream]
          exact Or.inl ⟨_, rfl, rfl⟩
        · rw [if_neg hstream, if_neg hstream]
          cases vaultGatewayUrl env with
          | error message => exact Or.inl ⟨_, rfl, rfl⟩
          | ok gateway => exact Or.inr ⟨_, _, rfl, rfl, gateway, _, _, content, h, rfl, rfl⟩

section

variable {ι : Type} [DecidableEq ι]

/-- The calls so far are for the same clients, and differ in the leases only. -/
def CallsAlike (R : String → String → Prop) (calls calls' : List (ι × VaultCall)) : Prop :=
  List.Forall₂ (fun c c' => c'.1 = c.1 ∧ LeaseAlike R c.2 c'.2) calls calls'

/-- The vault answers alike to calls that are alike. -/
def AnswersAlike (R : String → String → Prop) (vault vault' : List VaultCall → ℕ → VaultReply) :
    Prop :=
  ∀ calls calls', List.Forall₂ (LeaseAlike R) calls calls' → ∀ k, vault' calls' k = vault calls k

structure BrokersAlike (R : String → String → Prop) (s s' : Broker ι) : Prop where
  calls : CallsAlike R s.calls s'.calls
  progress : s'.progress = s.progress

variable {R : String → String → Prop} {env : Env} {vault vault' : List VaultCall → ℕ → VaultReply}
  {clients clients' : ι → GatewayClient} {s s' : Broker ι}

theorem BrokersAlike.update (h : BrokersAlike R s s') (i : ι) (p : Progress) :
    BrokersAlike R (s.update i p) (s'.update i p) := by
  refine ⟨h.calls, ?_⟩
  simp only [Broker.update, h.progress]

theorem BrokersAlike.step (hR : Relets R) (hclients : ∀ i, Reletted R (clients i) (clients' i))
    (hvault : AnswersAlike R vault vault') (h : BrokersAlike R s s') (l : BrokerStep ι) :
    BrokersAlike R (brokerStep env vault clients s l) (brokerStep env vault' clients' s' l) := by
  cases l with
  | move i =>
    rw [brokerStep, brokerStep, h.progress]
    split
    · exact h.update i _
    · next body next hwaiting hprogram =>
      rcases gatewayCall_alike hR env ((hclients i).leaseOf_header hR) body with
        ⟨answer, heq, heq'⟩ | ⟨call, call', heq, heq', halike⟩
      · rw [heq, heq']
        exact h.update i _
      · rw [heq, heq']
        -- the calls so far are as many, so both clients wait for the same place
        have hlength : s'.calls.length = s.calls.length := h.calls.length_eq.symm
        have hlast : CallsAlike R [(i, call)] [(i, call')] :=
          List.forall₂_cons.2 ⟨⟨rfl, halike⟩, List.Forall₂.nil⟩
        refine ⟨List.rel_append h.calls hlast, ?_⟩
        dsimp only
        rw [hlength]
    · exact h
  | reply i =>
    rw [brokerStep, brokerStep, h.progress]
    split
    · next k body next hwaiting hprogram =>
      -- the vault sees calls that are alike, and answers alike
      have hcalls : List.Forall₂ (LeaseAlike R) (s.calls.map Prod.snd) (s'.calls.map Prod.snd) := by
        rw [List.forall₂_map_left_iff, List.forall₂_map_right_iff]
        exact h.calls.imp (fun _ _ hc => hc.2)
      rw [hvault _ _ hcalls k]
      exact h.update i _
    · exact h
  | cancel i =>
    rw [brokerStep, brokerStep, h.progress]
    split
    · exact h
    · exact h.update i _

/-- In every interleaving of missions and other clients: every call to the vault carries
the lease of the client it is made for, goes to the configured gateway and asks for no
stream, and a client waits for the answer to a call of its own. And where the leases are
exchanged for others that the vault answers alike, all answers and all published states
are the same, and the calls differ in the leases only. -/
theorem leases_confined (hR : Relets R) (hclients : ∀ i, Reletted R (clients i) (clients' i))
    (hvault : AnswersAlike R vault vault') (env : Env) (posts : List AgentPost)
    (runner : ModelRunner) (steps : List (BrokerStep ι)) :
    let s := Runs.run (brokerStep env vault clients) (.start posts runner clients) steps
    let s' := Runs.run (brokerStep env vault' clients') (.start posts runner clients') steps
    (∀ c ∈ s.calls, leaseOf (clients c.1).header ≠ "" ∧ ∃ gateway content stream,
      vaultGatewayUrl env = .ok gateway ∧ get content "stream" .null = .ok stream ∧
      isTruthy stream = false ∧
      c.2 = vaultCall gateway (leaseOf (clients c.1).header) content) ∧
    (∀ i k, (s.progress i).waiting = some k → ∃ call, s.calls[k]? = some (i, call)) ∧
    (∀ i, (clients' i).visible posts (s'.progress i) = (clients i).visible posts (s.progress i)) ∧
    CallsAlike R s.calls s'.calls := by
  intro s s'
  -- the first two parts are an invariant of one run, the others relate two
  have hforwarded : Forwarded env clients s := Forwarded.run posts runner steps
  have hstart : BrokersAlike R (Broker.start posts runner clients)
      (Broker.start posts runner clients') := by
    refine ⟨List.Forall₂.nil, ?_⟩
    funext i
    exact (hclients i).start posts runner
  have halike : BrokersAlike R s s' :=
    Runs.run_related (fun _ _ l h => h.step hR hclients hvault l) hstart steps
  refine ⟨?_, hforwarded.waiting, ?_, halike.calls⟩
  · intro c hc
    obtain ⟨body, hcall⟩ := hforwarded.own c hc
    obtain ⟨hlease, gateway, content, stream, hgateway, -, hstream, hfalse, heq⟩ :=
      gatewayCall_ok hcall
    exact ⟨hlease, gateway, content, stream, hgateway, hstream, hfalse, heq⟩
  · intro i
    rw [halike.progress]
    exact (hclients i).visible posts _

end

/-! ## A mission and a stranger -/

/-- The chief asks the model once and returns what it says. -/
def askOnce : ModelRunner := fun model chief objective _ =>
  .hook (.onAgentStart chief) (.complete
    (some (.obj [("model", .str model), ("messages", .arr [.str objective])]))
    (fun
      | .response _ content => .ended (.returned content chief)
      | .raised => .ended .raised))

def missionUnder (token : String) (h : 16 ≤ token.length ∧ token.length ≤ 256) : MissionRunIn where
  objective := "write"
  modelRoute := some
    { provider := "glm", model := "glm-agent", leaseToken := token, lease_length := h }

/-- A mission, and a stranger without a lease. -/
def missionAndStranger (token : String) (h : 16 ≤ token.length ∧ token.length ≤ 256) :
    Bool → GatewayClient
  | true => .mission (missionUnder token h) "mission-1"
  | false => .direct none (some (.obj []))

def gatewayEnv : Env := fun name =>
  if name = "ADS_VAULT_MODEL_GATEWAY_URL" then some "https://vault.internal" else none

/-- A vault that always says the same. -/
def steadyVault : List VaultCall → ℕ → VaultReply := fun _ _ => .answered 200 (some (.str "done"))

def exchangeSteps : List (BrokerStep Bool) := [.move true, .move true, .move false, .reply true]

/-- The leases of the run, one exchanged for the other. -/
def Exchanged (lease lease' : String) : Prop :=
  lease = lease' ∨ lease = "lease-of-january" ∧ lease' = "lease-of-february"

/-- The mission is answered, and the stranger turned away, under either lease. -/
theorem leases_confined_exchange :
    (∀ i, (missionAndStranger "lease-of-february" (by decide) i).visible fullRegistry
        ((Runs.run (brokerStep gatewayEnv steadyVault
          (missionAndStranger "lease-of-february" (by decide)))
          (.start fullRegistry askOnce (missionAndStranger "lease-of-february" (by decide)))
          exchangeSteps).progress i) =
      (missionAndStranger "lease-of-january" (by decide) i).visible fullRegistry
        ((Runs.run (brokerStep gatewayEnv steadyVault
          (missionAndStranger "lease-of-january" (by decide)))
          (.start fullRegistry askOnce (missionAndStranger "lease-of-january" (by decide)))
          exchangeSteps).progress i)) ∧
    (Runs.run (brokerStep gatewayEnv steadyVault
      (missionAndStranger "lease-of-january" (by decide)))
      (.start fullRegistry askOnce (missionAndStranger "lease-of-january" (by decide)))
      exchangeSteps).calls.length = 1 := by
  have hR : Relets Exchanged := by
    refine ⟨Or.inl rfl, ?_⟩
    rintro lease lease' (rfl | ⟨rfl, rfl⟩)
    · exact Iff.rfl
    · decide
  have hclients : ∀ i, Reletted Exchanged (missionAndStranger "lease-of-january" (by decide) i)
      (missionAndStranger "lease-of-february" (by decide) i) := by
    intro i
    cases i with
    | true =>
      refine Reletted.mission (missionUnder "lease-of-january" (by decide)) "mission-1" _ ?_
      intro route hroute
      cases hroute
      exact Or.inr ⟨by decide +kernel, by decide +kernel⟩
    | false => exact Reletted.direct (Or.inl rfl) _
  have hvault : AnswersAlike Exchanged steadyVault steadyVault := fun _ _ _ _ => rfl
  refine ⟨(leases_confined hR hclients hvault gatewayEnv fullRegistry askOnce
    exchangeSteps).2.2.1, ?_⟩
  decide +kernel

end AdsHub
