import Jasonrpc.Integration.Hyper
import Jasonrpc.System.Forward

/-!
# An HTTP gateway

A gateway in front of a server: it answers HTTP requests by forwarding them to the server, over
multiplexed connections that all its callers share.  Every caller has ids of its own, so the gateway
gives each request an id from its own counter, and restores the caller's id in the reply.

The forwarded requests are started on the transports of the `System`, under the ids of the gateway; a
connection that has died is replaced by a new one, and a request goes to any of them.
-/

namespace Jasonrpc

open ByteString Machine Incremental
open Server (entriesOf)

variable {B : Backend} {C σ : Type}

/-! ## The gateway -/

namespace Gateway

/-- The token of the callers. -/
def token : String := "s3cret-token"

/-- The request has a matching bearer token. -/
def authed (headers : HeaderMap) : Bool :=
  match headers.lookup "authorization" with
  | some value =>
    (ascii "Bearer ").isPrefixOf value && value.drop (ascii "Bearer ").length == ascii token
  | none => false

/-- The answer to a caller without the token. -/
def unauthorized : HttpResponse :=
  { status := 401, headers := ∅, body := ascii "unauthorized" }

/-- The answer to a notification. -/
def noContent : HttpResponse := { status := 204, headers := ∅, body := [] }

/-- How a forwarded call is answered, when its round trip has ended: the caller's id is restored. -/
def proxyReply (origId : Id) : Outcome → Response B
  | .reply reply =>
    match fromSlice Response.deserialize reply with
    | .ok resp => resp.setId origId
    | .error _ => .ofError origId .internalError
  | _ => .ofError origId .internalError

end Gateway

/-- A point at which a forwarded request awaits, or its answer, with the connection that it used. -/
inductive ProxyPoint where
  /-- It awaits a connection that is alive. -/
  | connecting
  | forwarded (k : ℕ)
  | done (via : Option ℕ) (resp : HttpResponse)

/-- An authorized request that the gateway forwards: a call gets an id of the gateway. -/
structure Proxied (B : Backend) where
  headers : HeaderMap
  authed : Gateway.authed headers
  req : Request B
  gwId : Option Id
  gwId_eq : gwId.isSome = req.id.isSome
  point : ProxyPoint := .connecting

namespace Proxied

/-- The request as it is forwarded. -/
def forwarded (p : Proxied B) : Request B :=
  match p.gwId with
  | some id => p.req.setId id
  | none => p.req

/-- The message that is forwarded. -/
def message (p : Proxied B) : Bytes := B.get p.forwarded.serialize

/-- A call waits for its reply, a notification does not. -/
def operation (p : Proxied B) : Operation :=
  match p.gwId with
  | some _ => .roundTrip
  | none => .sendNotification

/-- The answer to the caller, when the forwarding has ended. -/
def answer (p : Proxied B) (outcome : Outcome) : HttpResponse :=
  match p.req.id with
  | some origId => Http.jsonResponse 200 (B.get (Gateway.proxyReply origId outcome).serialize)
  | none => Gateway.noContent

theorem id_forwarded (p : Proxied B) : p.forwarded.id = p.gwId := by
  rw [forwarded]
  cases hid : p.gwId with
  | some id => rfl
  | none =>
    have hnone := p.gwId_eq
    rw [hid] at hnone
    exact Option.not_isSome_iff_eq_none.1 (by rw [← hnone]; decide)

theorem id_call (law : B.Lawful) (p : Proxied B) :
    ({ operation := p.operation, message := p.message : Call }).id B = p.gwId := by
  have hforwarded := p.id_forwarded
  rw [operation, message, Call.id]
  cases hid : p.gwId with
  | some id =>
    rw [hid] at hforwarded
    exact parseId_request law hforwarded
  | none => rfl

/-- The connection that the request has gone to. -/
def via (p : Proxied B) : Option ℕ :=
  match p.point with
  | .connecting => none
  | .forwarded k => some k
  | .done via _ => via

end Proxied

/-- An HTTP request at the gateway. -/
inductive GatewayRequest (B : Backend) where
  /-- Answered without being forwarded. -/
  | answered (resp : HttpResponse)
  | proxied (p : Proxied B)

/-- The gateway with its callers, and the server with the connections to it. -/
structure Gateway (B : Backend) (C σ : Type) where
  system : System B C σ
  nextId : Int64 := 1
  /-- The number of ids given out so far. -/
  issued : ℕ := 0
  /-- The connections that the gateway has dialled. -/
  own : List ℕ := []
  requests : ℕ → Option (GatewayRequest B) := fun _ => none

/-- An atomic action of the gateway, of its connections or of the server. -/
inductive GatewayAction (B : Backend) where
  /-- A request arrives; its body is `none` if it could not be read. -/
  | accept (n : ℕ) (headers : HeaderMap) (body : Option Bytes)
  | dial (k : ℕ) (readTimeout : Option Duration) (maxFrameSize : ℕ)
  /-- A request is started on a connection. -/
  | forward (n k : ℕ)
  /-- There is no connection for a request. -/
  | unavailable (n : ℕ) (e : MultiplexError)
  /-- The forwarding of a request has ended, and the caller is answered. -/
  | respond (n : ℕ)
  | system (a : SystemAction B)

namespace Gateway

def new (w : World B C σ) : Gateway B C σ := { system := .new w }

def setRequest (s : Gateway B C σ) (n : ℕ) (r : GatewayRequest B) : Gateway B C σ :=
  { s with requests := Function.update s.requests n (some r) }

/-- A request that arrives is checked, read and parsed, and a call gets its id. -/
def accept (s : Gateway B C σ) (n : ℕ) (headers : HeaderMap) (body : Option Bytes) :
    Gateway B C σ :=
  if hauthed : authed headers then
    match body with
    | none => s.setRequest n (.answered (Http.jsonResponse 200 (Http.parseErrorBody B)))
    | some body =>
      match fromSlice Request.deserialize body with
      | .error _ =>
        s.setRequest n (.answered (Http.jsonResponse 200 (errorBody (B := B) .invalidRequest)))
      | .ok req =>
        match hid : req.id with
        | none => s.setRequest n (.proxied ⟨headers, hauthed, req, none, by rw [hid], .connecting⟩)
        | some _ =>
          { s with nextId := s.nextId + 1, issued := s.issued + 1 }.setRequest n
            (.proxied ⟨headers, hauthed, req, some (.number s.nextId), by rw [hid]; rfl, .connecting⟩)
  else s.setRequest n (.answered unauthorized)

/-- A request is started on the transport of a connection. -/
def forward (f : Framing) (s : Gateway B C σ) (n k : ℕ) (p : Proxied B) (peer : Peer) :
    Option (Gateway B C σ) :=
  (peer.client.transport.step B f (.start n p.operation p.message)).map fun transport =>
    { s with
      -- the client keeps a record of the ids of its calls
      system := s.system.setPeer k { peer with
        client :=
          { transport
            ids := ⟨1 + UInt64.ofNat s.issued⟩
            idOf := Function.update peer.client.idOf n p.gwId
            issued := s.issued } }
      requests := Function.update s.requests n (some (.proxied { p with point := .forwarded k })) }

variable [Inhabited C] (router : Router B C σ) (f : Framing)

/-- One atomic action. -/
def step (s : Gateway B C σ) : GatewayAction B → Option (Gateway B C σ)
  | .accept n headers body =>
    if (s.requests n).isNone then some (s.accept n headers body) else none
  | .dial k readTimeout maxFrameSize =>
    (s.system.step router f (.dial k readTimeout maxFrameSize)).map fun system =>
      { s with system, own := k :: s.own }
  | .forward n k =>
    match s.requests n, s.system.peers k with
    | some (.proxied p), some peer =>
      match p.point with
      | .connecting => if k ∈ s.own then s.forward f n k p peer else none
      | _ => none
    | _, _ => none
  | .unavailable n e =>
    match s.requests n with
    | some (.proxied p) =>
      match p.point with
      | .connecting =>
        some (s.setRequest n (.proxied { p with point := .done none (p.answer (.error e)) }))
      | _ => none
    | _ => none
  | .respond n =>
    match s.requests n with
    | some (.proxied p) =>
      match p.point with
      | .forwarded k =>
        (s.system.peers k).bind fun peer =>
          (peer.client.transport.calls n).bind fun call =>
            match call.phase with
            | .done outcome =>
              some (s.setRequest n (.proxied { p with point := .done (some k) (p.answer outcome) }))
            | _ => none
      | _ => none
    | _ => none
  | .system a =>
    -- on its own connections the gateway alone starts calls
    if ∀ k ∈ a.startsOn, k ∉ s.own then
      (s.system.step router f a).map fun system => { s with system }
    else none

/-- The messages and the replies that are encoded fit, and no call is abandoned in the middle of its
frame. -/
def Allowed (fits : Bytes → Prop) (s : Gateway B C σ) : GatewayAction B → Prop
  | .forward n _ =>
    match s.requests n with
    | some (.proxied p) => fits p.message
    | _ => True
  | .system a => s.system.Allowed router fits a
  | _ => True

instance {fits : Bytes → Prop} [DecidablePred fits] (s : Gateway B C σ) (a : GatewayAction B) :
    Decidable (s.Allowed router fits a) := by
  unfold Allowed
  split
  · split <;> infer_instance
  · infer_instance
  · infer_instance

/-- What an action does. -/
inductive Step (s : Gateway B C σ) : GatewayAction B → Gateway B C σ → Prop where
  | answered {n : ℕ} {headers : HeaderMap} {body : Option Bytes} {resp : HttpResponse}
    (fresh : s.requests n = none) :
    Step s (.accept n headers body) (s.setRequest n (.answered resp))
  | notified {n : ℕ} {headers : HeaderMap} {body : Option Bytes} {p : Proxied B}
    (fresh : s.requests n = none) (gwId_eq : p.gwId = none) (point_eq : p.point = .connecting) :
    Step s (.accept n headers body) (s.setRequest n (.proxied p))
  | called {n : ℕ} {headers : HeaderMap} {body : Option Bytes} {p : Proxied B}
    (fresh : s.requests n = none) (gwId_eq : p.gwId = some (.number s.nextId))
    (point_eq : p.point = .connecting) :
    Step s (.accept n headers body)
      ({ s with nextId := s.nextId + 1, issued := s.issued + 1 }.setRequest n (.proxied p))
  | dial {k : ℕ} {readTimeout : Option Duration} {maxFrameSize : ℕ} {system : System B C σ}
    (stepped : s.system.step router f (.dial k readTimeout maxFrameSize) = some system) :
    Step s (.dial k readTimeout maxFrameSize) { s with system, own := k :: s.own }
  | forward {n k : ℕ} {p : Proxied B} {peer : Peer} {transport : MultiplexTransport}
    (request_eq : s.requests n = some (.proxied p)) (point_eq : p.point = .connecting)
    (own : k ∈ s.own) (peer_eq : s.system.peers k = some peer)
    (started : peer.client.transport.step B f (.start n p.operation p.message) = some transport) :
    Step s (.forward n k)
      { s with
        system := s.system.setPeer k { peer with
          client :=
            { transport
              ids := ⟨1 + UInt64.ofNat s.issued⟩
              idOf := Function.update peer.client.idOf n p.gwId
              issued := s.issued } }
        requests := Function.update s.requests n (some (.proxied { p with point := .forwarded k })) }
  | unavailable {n : ℕ} {e : MultiplexError} {p : Proxied B}
    (request_eq : s.requests n = some (.proxied p)) (point_eq : p.point = .connecting) :
    Step s (.unavailable n e)
      (s.setRequest n (.proxied { p with point := .done none (p.answer (.error e)) }))
  | respond {n k : ℕ} {p : Proxied B} {peer : Peer} {call : Call} {outcome : Outcome}
    (request_eq : s.requests n = some (.proxied p)) (point_eq : p.point = .forwarded k)
    (peer_eq : s.system.peers k = some peer) (call_eq : peer.client.transport.calls n = some call)
    (phase_eq : call.phase = .done outcome) :
    Step s (.respond n)
      (s.setRequest n (.proxied { p with point := .done (some k) (p.answer outcome) }))
  | system {a : SystemAction B} {system : System B C σ} (foreign : ∀ k ∈ a.startsOn, k ∉ s.own)
    (stepped : s.system.step router f a = some system) : Step s (.system a) { s with system }

variable {router f} {s s' : Gateway B C σ} {a : GatewayAction B} {fits : Bytes → Prop}
  {w : World B C σ}

omit [Inhabited C] in
theorem accept_cases (n : ℕ) (headers : HeaderMap) (body : Option Bytes) :
    (∃ resp, s.accept n headers body = s.setRequest n (.answered resp)) ∨
      ∃ p : Proxied B, p.point = .connecting ∧
        (p.gwId = none ∧ s.accept n headers body = s.setRequest n (.proxied p) ∨
          p.gwId = some (.number s.nextId) ∧ s.accept n headers body =
            { s with nextId := s.nextId + 1, issued := s.issued + 1 }.setRequest n (.proxied p)) := by
  rw [accept]
  by_cases hauthed : authed headers
  · rw [dif_pos hauthed]
    cases body with
    | none => exact .inl ⟨_, rfl⟩
    | some body =>
      dsimp only
      cases fromSlice (B := B) Request.deserialize body with
      | error e => exact .inl ⟨_, rfl⟩
      | ok req =>
        dsimp only
        split
        · exact .inr ⟨_, rfl, .inl ⟨rfl, rfl⟩⟩
        · exact .inr ⟨_, rfl, .inr ⟨rfl, rfl⟩⟩
  · rw [dif_neg hauthed]
    exact .inl ⟨_, rfl⟩

theorem Step.of_step (h : s.step router f a = some s') : Step router f s a s' := by
  cases a with
  | accept n headers body =>
    rw [step, Option.ite_none_right_eq_some] at h
    obtain ⟨hfresh, h⟩ := h
    obtain rfl := Option.some.inj h
    have hfresh := Option.isNone_iff_eq_none.1 hfresh
    rcases s.accept_cases n headers body with
      ⟨resp, haccept⟩ | ⟨p, hpoint, ⟨hid, haccept⟩ | ⟨hid, haccept⟩⟩
    · rw [haccept]
      exact .answered hfresh
    · rw [haccept]
      exact .notified hfresh hid hpoint
    · rw [haccept]
      exact .called hfresh hid hpoint
  | dial k readTimeout maxFrameSize =>
    obtain ⟨system, hstep, rfl⟩ := Option.map_eq_some_iff.1 h
    exact .dial hstep
  | forward n k =>
    rw [step] at h
    split at h
    · rename_i p peer hrequest hpeer
      split at h
      · rename_i hpoint
        rw [Option.ite_none_right_eq_some] at h
        obtain ⟨hown, h⟩ := h
        obtain ⟨transport, hstart, rfl⟩ := Option.map_eq_some_iff.1 h
        exact .forward hrequest hpoint hown hpeer hstart
      · cases h
    · cases h
  | unavailable n e =>
    rw [step] at h
    split at h
    · rename_i p hrequest
      split at h
      · rename_i hpoint
        obtain rfl := Option.some.inj h
        exact .unavailable hrequest hpoint
      · cases h
    · cases h
  | respond n =>
    rw [step] at h
    split at h
    · rename_i p hrequest
      split at h
      · rename_i k hpoint
        obtain ⟨peer, hpeer, h⟩ := Option.bind_eq_some_iff.1 h
        obtain ⟨call, hcall, h⟩ := Option.bind_eq_some_iff.1 h
        split at h
        · rename_i outcome hphase
          obtain rfl := Option.some.inj h
          exact .respond hrequest hpoint hpeer hcall hphase
        · cases h
      · cases h
    · cases h
  | system a =>
    rw [step, Option.ite_none_right_eq_some] at h
    obtain ⟨hforeign, h⟩ := h
    obtain ⟨system, hstep, rfl⟩ := Option.map_eq_some_iff.1 h
    exact .system hforeign hstep

/-! ## The requests and the calls on the connections -/

/-- What holds in every state. -/
structure Sound (router : Router B C σ) (f : Framing) (fits : Bytes → Prop) (w : World B C σ)
    (s : Gateway B C σ) : Prop where
  system : s.system.Sound router f fits w
  next_eq : s.nextId = (1 + UInt64.ofNat s.issued).toInt64
  dialled {k : ℕ} : k ∈ s.own →
    ∃ peer, s.system.peers k = some peer ∧ peer.client.issued ≤ s.issued
  given {n : ℕ} {p : Proxied B} {id : Id} : s.requests n = some (.proxied p) → p.gwId = some id →
    ∃ m < s.issued, id = IdGen.nth m
  unique {n n' : ℕ} {p p' : Proxied B} {id : Id} : s.issued ≤ 2 ^ 64 →
    s.requests n = some (.proxied p) → s.requests n' = some (.proxied p') →
      p.gwId = some id → p'.gwId = some id → n = n'
  own {n k : ℕ} {p : Proxied B} : s.requests n = some (.proxied p) → p.via = some k → k ∈ s.own
  calls {k c : ℕ} {peer : Peer} {call : Call} : k ∈ s.own → s.system.peers k = some peer →
    peer.client.transport.calls c = some call → ∃ p, s.requests c = some (.proxied p) ∧
      p.via = some k ∧ call.message = p.message ∧ peer.client.idOf c = p.gwId
  replied {n k : ℕ} {p : Proxied B} {resp : HttpResponse} : s.requests n = some (.proxied p) →
    p.point = .done (some k) resp → ∃ peer call outcome, s.system.peers k = some peer ∧
      peer.client.transport.calls n = some call ∧ call.phase = .done outcome ∧
        resp = p.answer outcome
  failed {n : ℕ} {p : Proxied B} {resp : HttpResponse} : s.requests n = some (.proxied p) →
    p.point = .done none resp → ∃ e, resp = p.answer (.error e)

namespace Sound

theorem new (router : Router B C σ) (f : Framing) (fits : Bytes → Prop) (w : World B C σ) :
    Sound router f fits w (new w) where
  system := .new router f fits w
  next_eq := rfl
  dialled h := by cases h
  given h := by cases h
  unique _ h := by cases h
  own h := by cases h
  calls h := by cases h
  replied h := by cases h
  failed h := by cases h

variable {n k : ℕ} {p : Proxied B}

/-- A request is answered at once. -/
theorem answered (h : Sound router f fits w s) (hfresh : s.requests n = none) (resp : HttpResponse) :
    Sound router f fits w (s.setRequest n (.answered resp)) := by
  have hold {n' : ℕ} {p : Proxied B}
      (hrequest : (s.setRequest n (.answered resp)).requests n' = some (.proxied p)) :
      s.requests n' = some (.proxied p) := by
    rcases Table.of_update hrequest with ⟨-, heq⟩ | ⟨-, hrequest⟩
    · cases heq
    · exact hrequest
  constructor
  · exact h.system
  · exact h.next_eq
  · exact h.dialled
  · exact fun hrequest => h.given (hold hrequest)
  · exact fun hfew hn hn' => h.unique hfew (hold hn) (hold hn')
  · exact fun hrequest => h.own (hold hrequest)
  · intro k c peer call hown hpeer hcall
    obtain ⟨p, hrequest, hp⟩ := h.calls hown hpeer hcall
    have hne : c ≠ n := fun heq => by cases (heq ▸ hrequest).symm.trans hfresh
    exact ⟨p, (Function.update_of_ne hne ..).trans hrequest, hp⟩
  · exact fun hrequest => h.replied (hold hrequest)
  · exact fun hrequest => h.failed (hold hrequest)

/-- A request is to be forwarded, and a call has got the next id. -/
theorem proxied (h : Sound router f fits w s) {nextId : Int64} {issued : ℕ}
    (hfresh : s.requests n = none) (hpoint : p.point = .connecting) (hissued : s.issued ≤ issued)
    (hnext : nextId = (1 + UInt64.ofNat issued).toInt64)
    (hid : ∀ id, p.gwId = some id → id = IdGen.nth s.issued ∧ s.issued < issued) :
    Sound router f fits w ({ s with nextId, issued }.setRequest n (.proxied p)) := by
  have hcases {n' : ℕ} {p' : Proxied B}
      (hrequest : ({ s with nextId, issued }.setRequest n (.proxied p)).requests n' =
        some (.proxied p')) : n' = n ∧ p' = p ∨ s.requests n' = some (.proxied p') := by
    rcases Table.of_update hrequest with ⟨hn, heq⟩ | ⟨-, hrequest⟩
    · exact .inl ⟨hn, GatewayRequest.proxied.inj heq⟩
    · exact .inr hrequest
  -- an older id is not the new one
  have hnew {n' : ℕ} {p' : Proxied B} {id : Id} (hfew : issued ≤ 2 ^ 64) (hp : p.gwId = some id)
      (hrequest : s.requests n' = some (.proxied p')) : p'.gwId ≠ some id := by
    intro hp'
    obtain ⟨m, hm, hnth⟩ := h.given hrequest hp'
    obtain ⟨hid, hlt⟩ := hid id hp
    have heq := IdGen.nth_injective (by omega) (by omega) (hnth.symm.trans hid)
    omega
  have hvia : p.via = none := by rw [Proxied.via, hpoint]
  constructor
  · exact h.system
  · exact hnext
  · intro k hown
    obtain ⟨peer, hpeer, hle⟩ := h.dialled hown
    exact ⟨peer, hpeer, hle.trans hissued⟩
  · intro n' p' id hrequest hp'
    rcases hcases hrequest with ⟨rfl, rfl⟩ | hrequest
    · obtain ⟨hid, hlt⟩ := hid id hp'
      exact ⟨_, hlt, hid⟩
    · obtain ⟨m, hm, hnth⟩ := h.given hrequest hp'
      exact ⟨m, hm.trans_le hissued, hnth⟩
  · intro n₁ n₂ p₁ p₂ id hfew hn₁ hn₂ hp₁ hp₂
    rcases hcases hn₁ with ⟨rfl, rfl⟩ | hold₁ <;> rcases hcases hn₂ with ⟨rfl, rfl⟩ | hold₂
    · rfl
    · exact absurd hp₂ (hnew hfew hp₁ hold₂)
    · exact absurd hp₁ (hnew hfew hp₂ hold₁)
    · exact h.unique (hissued.trans hfew) hold₁ hold₂ hp₁ hp₂
  · intro n' k p' hrequest hp'
    rcases hcases hrequest with ⟨rfl, rfl⟩ | hrequest
    · cases hvia.symm.trans hp'
    · exact h.own hrequest hp'
  · intro k c peer call hown hpeer hcall
    obtain ⟨p', hrequest, hp'⟩ := h.calls hown hpeer hcall
    have hne : c ≠ n := fun heq => by cases (heq ▸ hrequest).symm.trans hfresh
    exact ⟨p', (Function.update_of_ne hne ..).trans hrequest, hp'⟩
  · intro n' k p' resp hrequest hdone
    rcases hcases hrequest with ⟨rfl, rfl⟩ | hrequest
    · cases hpoint.symm.trans hdone
    · exact h.replied hrequest hdone
  · intro n' p' resp hrequest hdone
    rcases hcases hrequest with ⟨rfl, rfl⟩ | hrequest
    · cases hpoint.symm.trans hdone
    · exact h.failed hrequest hdone

/-- A forwarded request is answered. -/
theorem done (h : Sound router f fits w s) {via : Option ℕ} {resp : HttpResponse}
    (hrequest : s.requests n = some (.proxied p)) (hvia : p.via = via)
    (hreplied : ∀ k, via = some k → ∃ peer call outcome, s.system.peers k = some peer ∧
      peer.client.transport.calls n = some call ∧ call.phase = .done outcome ∧ resp = p.answer outcome)
    (hfailed : via = none → ∃ e, resp = p.answer (.error e)) :
    Sound router f fits w (s.setRequest n (.proxied { p with point := .done via resp })) := by
  have hold {n' : ℕ} {p' : Proxied B}
      (hrequest' : (s.setRequest n (.proxied { p with point := .done via resp })).requests n' =
        some (.proxied p')) : n' = n ∧ p' = { p with point := .done via resp } ∨
          n' ≠ n ∧ s.requests n' = some (.proxied p') := by
    rcases Table.of_update hrequest' with ⟨hn, heq⟩ | ⟨hn, hrequest'⟩
    · exact .inl ⟨hn, GatewayRequest.proxied.inj heq⟩
    · exact .inr ⟨hn, hrequest'⟩
  -- a request keeps its id
  have hgiven {n' : ℕ} {p' : Proxied B} {id : Id}
      (hrequest' : (s.setRequest n (.proxied { p with point := .done via resp })).requests n' =
        some (.proxied p')) (hid : p'.gwId = some id) :
      ∃ p₀, s.requests n' = some (.proxied p₀) ∧ p₀.gwId = some id := by
    rcases hold hrequest' with ⟨rfl, rfl⟩ | ⟨-, hrequest'⟩
    · exact ⟨p, hrequest, hid⟩
    · exact ⟨p', hrequest', hid⟩
  constructor
  · exact h.system
  · exact h.next_eq
  · exact h.dialled
  · intro n' p' id hrequest' hid
    obtain ⟨p₀, hp₀, hid⟩ := hgiven hrequest' hid
    exact h.given hp₀ hid
  · intro n₁ n₂ p₁ p₂ id hfew hn₁ hn₂ hp₁ hp₂
    obtain ⟨p₁', hn₁, hp₁⟩ := hgiven hn₁ hp₁
    obtain ⟨p₂', hn₂, hp₂⟩ := hgiven hn₂ hp₂
    exact h.unique hfew hn₁ hn₂ hp₁ hp₂
  · intro n' k p' hrequest' hp'
    rcases hold hrequest' with ⟨rfl, rfl⟩ | ⟨-, hrequest'⟩
    · exact h.own hrequest (hvia.trans hp')
    · exact h.own hrequest' hp'
  · intro k c peer call hown hpeer hcall
    obtain ⟨p', hrequest', hviaOf, hp'⟩ := h.calls hown hpeer hcall
    by_cases hn : c = n
    · subst hn
      obtain rfl := GatewayRequest.proxied.inj (Option.some.inj (hrequest.symm.trans hrequest'))
      exact ⟨_, Function.update_self .., hvia.symm.trans hviaOf, hp'⟩
    · exact ⟨p', (Function.update_of_ne hn ..).trans hrequest', hviaOf, hp'⟩
  · intro n' k p' resp' hrequest' hdone
    rcases hold hrequest' with ⟨rfl, rfl⟩ | ⟨-, hrequest'⟩
    · obtain ⟨rfl, rfl⟩ := ProxyPoint.done.inj hdone
      exact hreplied k rfl
    · exact h.replied hrequest' hdone
  · intro n' p' resp' hrequest' hdone
    rcases hold hrequest' with ⟨rfl, rfl⟩ | ⟨-, hrequest'⟩
    · obtain ⟨rfl, rfl⟩ := ProxyPoint.done.inj hdone
      exact hfailed rfl
    · exact h.failed hrequest' hdone

/-- A request goes to a connection. -/
theorem forward (h : Sound router f fits w s) (law : B.Lawful) {peer : Peer} {t : MultiplexTransport}
    (hrequest : s.requests n = some (.proxied p)) (hpoint : p.point = .connecting) (hown : k ∈ s.own)
    (hpeer : s.system.peers k = some peer) (hfits : fits p.message)
    (hstart : peer.client.transport.step B f (.start n p.operation p.message) = some t) :
    Sound router f fits w { s with
      system := s.system.setPeer k { peer with
        client :=
          { transport := t
            ids := ⟨1 + UInt64.ofNat s.issued⟩
            idOf := Function.update peer.client.idOf n p.gwId
            issued := s.issued } }
      requests := Function.update s.requests n
        (some (.proxied { p with point := .forwarded k })) } := by
  have hvia : p.via = none := by rw [Proxied.via, hpoint]
  have hissued : peer.client.issued ≤ s.issued := by
    obtain ⟨peer', hpeer', hle⟩ := h.dialled hown
    obtain rfl := Option.some.inj (hpeer'.symm.trans hpeer)
    exact hle
  have hsound := h.system.peer hpeer
  have hnumbered : Client.Numbered B
      { transport := t
        ids := ⟨1 + UInt64.ofNat s.issued⟩
        idOf := Function.update peer.client.idOf n p.gwId
        issued := s.issued } := by
    apply hsound.client.numbered.forward hstart (p.id_call law) rfl hissued
    · exact fun x hx => h.given hrequest hx
    · -- a call of the connection with this id is that of another request
      intro hfew x hx c hc
      cases hcall : peer.client.transport.calls c with
      | none => cases (hsound.client.numbered.fresh hcall).symm.trans hc
      | some call =>
        obtain ⟨p', hrequest', hvia', -, hid⟩ := h.calls hown hpeer hcall
        obtain rfl := h.unique hfew hrequest' hrequest (hid.symm.trans hc) hx
        obtain rfl := GatewayRequest.proxied.inj (Option.some.inj (hrequest'.symm.trans hrequest))
        cases hvia.symm.trans hvia'
  have hforward := hsound.forward hstart hissued hfits (p.id_forwarded.symm ▸ hnumbered)
  rw [p.id_forwarded] at hforward
  have hwire : s.system.wireOf k <+: t.wire := by
    rw [System.wireOf_of_peer hpeer]
    exact MultiplexTransport.wire_grows (.of_step hstart)
  have htold := h.system.told hpeer
  have hsystem := h.system.setPeer hforward hwire htold
  have hrequests {n' : ℕ} {p' : Proxied B} (hrequest' : Function.update s.requests n
      (some (.proxied { p with point := .forwarded k })) n' = some (.proxied p')) :
      n' = n ∧ p' = { p with point := .forwarded k } ∨
        n' ≠ n ∧ s.requests n' = some (.proxied p') := by
    rcases Table.of_update hrequest' with ⟨hn, heq⟩ | ⟨hn, hrequest'⟩
    · exact .inl ⟨hn, GatewayRequest.proxied.inj heq⟩
    · exact .inr ⟨hn, hrequest'⟩
  have hgiven {n' : ℕ} {p' : Proxied B} {id : Id} (hrequest' : Function.update s.requests n
      (some (.proxied { p with point := .forwarded k })) n' = some (.proxied p'))
      (hid : p'.gwId = some id) : ∃ p₀, s.requests n' = some (.proxied p₀) ∧ p₀.gwId = some id := by
    rcases hrequests hrequest' with ⟨rfl, rfl⟩ | ⟨-, hrequest'⟩
    · exact ⟨p, hrequest, hid⟩
    · exact ⟨p', hrequest', hid⟩
  -- an older call belongs to another request
  have hother {k' c : ℕ} {peer' : Peer} {call : Call} (hown' : k' ∈ s.own)
      (hpeer' : s.system.peers k' = some peer')
      (hcall : peer'.client.transport.calls c = some call) : c ≠ n ∧ ∃ p',
        s.requests c = some (.proxied p') ∧ p'.via = some k' ∧ call.message = p'.message ∧
          peer'.client.idOf c = p'.gwId := by
    obtain ⟨p', hrequest', hvia', hp'⟩ := h.calls hown' hpeer' hcall
    refine ⟨?_, p', hrequest', hvia', hp'⟩
    rintro rfl
    obtain rfl := GatewayRequest.proxied.inj (Option.some.inj (hrequest'.symm.trans hrequest))
    cases hvia.symm.trans hvia'
  constructor
  · exact hsystem
  · exact h.next_eq
  · intro k' hown'
    by_cases hk : k' = k
    · subst hk
      exact ⟨_, Function.update_self .., le_rfl⟩
    · obtain ⟨peer', hpeer', hle⟩ := h.dialled hown'
      exact ⟨peer', (Function.update_of_ne hk ..).trans hpeer', hle⟩
  · intro n' p' id hrequest' hid
    obtain ⟨p₀, hp₀, hid⟩ := hgiven hrequest' hid
    exact h.given hp₀ hid
  · intro n₁ n₂ p₁ p₂ id hfew hn₁ hn₂ hp₁ hp₂
    obtain ⟨p₁', hn₁, hp₁⟩ := hgiven hn₁ hp₁
    obtain ⟨p₂', hn₂, hp₂⟩ := hgiven hn₂ hp₂
    exact h.unique hfew hn₁ hn₂ hp₁ hp₂
  · intro n' k' p' hrequest' hvia'
    rcases hrequests hrequest' with ⟨rfl, rfl⟩ | ⟨-, hrequest'⟩
    · obtain rfl := Option.some.inj hvia'
      exact hown
    · exact h.own hrequest' hvia'
  · intro k' c peer' call hown' hpeer' hcall
    rcases Table.of_update hpeer' with ⟨rfl, rfl⟩ | ⟨-, hpeer'⟩
    · cases MultiplexTransport.Step.of_step hstart with
      | start hfresh =>
        rcases Table.of_update hcall with ⟨rfl, rfl⟩ | ⟨hne, hcall⟩
        · exact ⟨_, Function.update_self .., rfl, rfl, Function.update_self ..⟩
        · obtain ⟨-, p', hrequest', hvia', hmessage, hid⟩ := hother hown hpeer hcall
          exact ⟨p', (Function.update_of_ne hne ..).trans hrequest', hvia', hmessage,
            (Function.update_of_ne hne ..).trans hid⟩
    · obtain ⟨hne, p', hrequest', hp'⟩ := hother hown' hpeer' hcall
      exact ⟨p', (Function.update_of_ne hne ..).trans hrequest', hp'⟩
  · intro n' k' p' resp hrequest' hdone
    rcases hrequests hrequest' with ⟨rfl, rfl⟩ | ⟨-, hrequest'⟩
    · cases hdone
    · obtain ⟨peer', call, outcome, hpeer', hcall, hphase, hresp⟩ := h.replied hrequest' hdone
      by_cases hk : k' = k
      · subst hk
        obtain rfl := Option.some.inj (hpeer'.symm.trans hpeer)
        exact ⟨_, call, outcome, Function.update_self ..,
          MultiplexTransport.done_of_step (.of_step hstart) hcall hphase, hphase, hresp⟩
      · exact ⟨peer', call, outcome, (Function.update_of_ne hk ..).trans hpeer', hcall, hphase, hresp⟩
  · intro n' p' resp hrequest' hdone
    rcases hrequests hrequest' with ⟨rfl, rfl⟩ | ⟨-, hrequest'⟩
    · cases hdone
    · exact h.failed hrequest' hdone

/-- The server and the connections take a step, in which no call is started on a connection of the
gateway; it may have dialled more of them. -/
theorem step_system (h : Sound router f fits w s) {system : System B C σ} {own : List ℕ}
    (hsystem : system.Sound router f fits w) (hold : ∀ k ∈ s.own, k ∈ own)
    (hkept : ∀ k ∈ s.own, ∀ peer, s.system.peers k = some peer →
      ∃ peer', system.peers k = some peer' ∧ peer.client.Goes peer'.client)
    (hnew : ∀ k ∈ own, k ∉ s.own → ∃ peer, system.peers k = some peer ∧ peer.client = .new) :
    Sound router f fits w { s with system, own } where
  system := hsystem
  next_eq := h.next_eq
  dialled {k} hown := by
    by_cases hk : k ∈ s.own
    · obtain ⟨peer, hpeer, hle⟩ := h.dialled hk
      obtain ⟨peer', hpeer', hgoes⟩ := hkept k hk peer hpeer
      exact ⟨peer', hpeer', hgoes.issued_eq.trans_le hle⟩
    · obtain ⟨peer, hpeer, hclient⟩ := hnew k hown hk
      exact ⟨peer, hpeer, by rw [hclient]; exact Nat.zero_le _⟩
  given := h.given
  unique := h.unique
  own hrequest hvia := hold _ (h.own hrequest hvia)
  calls {k c peer' call'} hown hpeer' hcall' := by
    by_cases hk : k ∈ s.own
    · obtain ⟨peer, hpeer, -⟩ := h.dialled hk
      obtain ⟨peer'', hpeer'', hgoes⟩ := hkept k hk peer hpeer
      obtain rfl := Option.some.inj (hpeer''.symm.trans hpeer')
      obtain ⟨call, hcall, hmessage⟩ := hgoes.calls hcall'
      obtain ⟨p, hrequest, hvia, hp, hid⟩ := h.calls hk hpeer hcall
      exact ⟨p, hrequest, hvia, hmessage.trans hp, (congrFun hgoes.idOf_eq c).trans hid⟩
    · obtain ⟨peer, hpeer, hclient⟩ := hnew k hown hk
      obtain rfl := Option.some.inj (hpeer.symm.trans hpeer')
      rw [hclient] at hcall'
      cases hcall'
  replied {n k p resp} hrequest hdone := by
    obtain ⟨peer, call, outcome, hpeer, hcall, hphase, hresp⟩ := h.replied hrequest hdone
    have hown : k ∈ s.own := h.own hrequest (by rw [Proxied.via, hdone])
    obtain ⟨peer', hpeer', hgoes⟩ := hkept k hown peer hpeer
    exact ⟨peer', call, outcome, hpeer', hgoes.done hcall hphase, hphase, hresp⟩
  failed := h.failed

theorem step (h : Sound router f fits w s) (law : B.Lawful) (hf : Lawful f.decode)
    (heof : f.takeOnEof = false) (hok : s.Allowed router fits a)
    (hstep : s.step router f a = some s') : Sound router f fits w s' := by
  cases Step.of_step hstep with
  | answered hfresh => exact h.answered hfresh _
  | notified hfresh hid hpoint =>
    apply h.proxied hfresh hpoint le_rfl h.next_eq
    intro id hid'
    cases hid.symm.trans hid'
  | called hfresh hid hpoint =>
    apply h.proxied hfresh hpoint (Nat.le_succ _)
    · rw [h.next_eq, Nat.succ_eq_add_one, UInt64.ofNat_add, ← UInt64.add_assoc]
      rfl
    · intro id hid'
      obtain rfl := Option.some.inj (hid.symm.trans hid')
      refine ⟨?_, Nat.lt_succ_self _⟩
      rw [h.next_eq, IdGen.nth]
  | @dial k readTimeout maxFrameSize system hdial =>
    have hallowed : s.system.Allowed router fits (.dial k readTimeout maxFrameSize) := trivial
    apply h.step_system (h.system.step law hf heof hallowed hdial)
    · exact fun _ hk => List.mem_cons_of_mem _ hk
    · exact fun _ _ _ hpeer => System.exists_peer_of_step hdial hpeer (by simp [SystemAction.startsOn])
    · intro k' hk' hnot
      obtain rfl := (List.mem_cons.1 hk').resolve_right hnot
      cases System.Step.of_step hdial with
      | dial => exact ⟨_, Function.update_self .., rfl⟩
  | @forward n k p peer t hrequest hpoint hown hpeer hstart =>
    have hfits : fits p.message := by
      rw [Allowed, hrequest] at hok
      exact hok
    exact h.forward law hrequest hpoint hown hpeer hfits hstart
  | unavailable hrequest hpoint =>
    apply h.done hrequest
    · rw [Proxied.via, hpoint]
    · exact fun _ h => by cases h
    · exact fun _ => ⟨_, rfl⟩
  | respond hrequest hpoint hpeer hcall hphase =>
    apply h.done hrequest
    · rw [Proxied.via, hpoint]
    · intro k hk
      obtain rfl := Option.some.inj hk
      exact ⟨_, _, _, hpeer, hcall, hphase, rfl⟩
    · exact fun h => by cases h
  | system hforeign hsystem =>
    apply h.step_system (h.system.step law hf heof hok hsystem) fun _ h => h
    · intro k hk peer hpeer
      exact System.exists_peer_of_step hsystem hpeer fun hmem => hforeign k hmem hk
    · exact fun k hk hnot => absurd hk hnot

theorem of_reach (law : B.Lawful) (hf : Lawful f.decode) (heof : f.takeOnEof = false)
    (h : Reach (Gateway.step router f) (Allowed router fits) (.new w) s) :
    Sound router f fits w s :=
  h.invariant (.new router f fits w) fun _ _ _ h hok hstep => h.step law hf heof hok hstep

end Sound

/-! ## What the callers get -/

section Law

variable (law : B.Lawful)
include law

end Law

namespace Sound

variable {n k : ℕ} {p : Proxied B}

end Sound

section Sample

open JsonText

/-- A run of the gateway in front of the server whose method `get` answers 42. -/
def answerRun (actions : List (GatewayAction backend)) : Option (Gateway backend Unit Unit) :=
  run (Gateway.step System.answerRouter (Codec.netstring.framing 64))
    (Allowed System.answerRouter (Codec.netstring.Fits 64)) (.new ⟨(), []⟩) actions

end Sample

end Gateway

end Jasonrpc
