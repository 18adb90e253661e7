import Jasonrpc.Client.Http
import Jasonrpc.Integration.Hyper
import Jasonrpc.Lib.Machine
import Jasonrpc.Lib.Table
import Jasonrpc.System

/-!
# Calls over HTTP

Any number of round trips of HTTP transports, and the service that answers their requests, behind layers
that may answer a request themselves.  `step` is one step of a round trip, or the answer to a request.
An HTTP library delivers a request to the service at most once.
-/

namespace Jasonrpc

open ByteString Machine

variable {B : Backend} {C σ : Type}

/-- A round trip of a message. -/
structure HttpCall where
  transport : HttpTransport
  message : Bytes
  point : RoundTrip := .authorizing false
deriving DecidableEq

/-- What has answered a request: a layer in front of the service, or the service. -/
inductive HttpAnswer where
  | layer (resp : HttpResponse)
  | service (resp : HttpResponse)
deriving DecidableEq

def HttpAnswer.resp : HttpAnswer → HttpResponse
  | layer resp | service resp => resp

/-- A request that was posted, and its answer. -/
structure HttpExchange where
  request : HttpRequest
  answer : Option HttpAnswer := none
deriving DecidableEq

/-- A request body that was dispatched through the router, with the context of its request. -/
structure Dispatch (C : Type) where
  call : ℕ
  retry : Bool
  ctx : C
  body : Bytes

/-- The bodies dispatched one after another. -/
def Router.dispatchEach (router : Router B C σ) (log : List (Dispatch C)) (w : World B C σ) :
    World B C σ :=
  log.foldl (fun w d => (router.handleBytesWithContext d.body d.ctx w).2) w

/-- The round trips, and the service with the requests posted to it. -/
structure HttpSystem (B : Backend) (C σ : Type) where
  world : World B C σ
  log : List (Dispatch C) := []
  calls : ℕ → Option HttpCall := fun _ => none
  exchanges : ℕ × Bool → Option HttpExchange := fun _ => none

/-- An atomic action of a round trip or of the service. -/
inductive HttpAction (C : Type) where
  | start (n : ℕ) (transport : HttpTransport) (message : Bytes)
  | call (n : ℕ) (a : RoundTripAction)
  /-- The service answers a request, with the context that the layers have given it; its body could be
  read, or not. -/
  | serve (n : ℕ) (retry : Bool) (ctx : C) (readable : Bool)
  /-- A layer answers a request. -/
  | refuse (n : ℕ) (retry : Bool) (resp : HttpResponse)

namespace HttpSystem

def new (w : World B C σ) : HttpSystem B C σ := { world := w }

/-- What has answered a request of the round trip `n`. -/
def answer (s : HttpSystem B C σ) (n : ℕ) (retry : Bool) : Option HttpAnswer :=
  (s.exchanges (n, retry)).bind HttpExchange.answer

def setAnswer (s : HttpSystem B C σ) (key : ℕ × Bool) (request : HttpRequest) (a : HttpAnswer) :
    HttpSystem B C σ :=
  { s with exchanges := Function.update s.exchanges key (some { request, answer := some a }) }

variable (router : Router B C σ)

/-- One atomic action of the system. -/
def step (s : HttpSystem B C σ) : HttpAction C → Option (HttpSystem B C σ)
  | .start n transport message =>
    if (s.calls n).isNone then
      some { s with calls := Function.update s.calls n (some { transport, message }) }
    else none
  | .call n a =>
    (s.calls n).bind fun call =>
      if call.point.Arrived (fun retry => (s.answer n retry).map HttpAnswer.resp) a then
        (call.point.step call.transport call.message a).map fun (point, sent) =>
          { s with
            calls := Function.update s.calls n (some { call with point })
            exchanges :=
              match sent with
              | some (retry, request) => Function.update s.exchanges (n, retry) (some { request })
              | none => s.exchanges }
      else none
  | .serve n retry ctx readable =>
    (s.exchanges (n, retry)).bind fun exchange =>
      if exchange.answer.isNone then
        let body := if readable then some exchange.request.body else none
        let (resp, world) := Http.serveRequest router body ctx s.world
        let log :=
          match body with
          | some body => s.log ++ [⟨n, retry, ctx, body⟩]
          | none => s.log
        some { s.setAnswer (n, retry) exchange.request (.service resp) with world, log }
      else none
  | .refuse n retry resp =>
    (s.exchanges (n, retry)).bind fun exchange =>
      if exchange.answer.isNone then some (s.setAnswer (n, retry) exchange.request (.layer resp))
      else none

/-- What an action does. -/
inductive Step (s : HttpSystem B C σ) : HttpAction C → HttpSystem B C σ → Prop where
  | start {n : ℕ} {transport : HttpTransport} {message : Bytes} (fresh : s.calls n = none) :
    Step s (.start n transport message)
      { s with calls := Function.update s.calls n (some { transport, message }) }
  | post {n : ℕ} {a : RoundTripAction} {call : HttpCall} {point : RoundTrip} {retry : Bool}
    {request : HttpRequest} (call_eq : s.calls n = some call)
    (stepped : call.point.Step call.transport call.message a point (some (retry, request))) :
    Step s (.call n a)
      { s with
        calls := Function.update s.calls n (some { call with point })
        exchanges := Function.update s.exchanges (n, retry) (some { request }) }
  | call {n : ℕ} {a : RoundTripAction} {call : HttpCall} {point : RoundTrip}
    (call_eq : s.calls n = some call)
    (arrived : call.point.Arrived (fun retry => (s.answer n retry).map HttpAnswer.resp) a)
    (stepped : call.point.Step call.transport call.message a point none) :
    Step s (.call n a) { s with calls := Function.update s.calls n (some { call with point }) }
  | serve {n : ℕ} {retry : Bool} {ctx : C} {exchange : HttpExchange}
    (exchange_eq : s.exchanges (n, retry) = some exchange) (open_eq : exchange.answer = none) :
    Step s (.serve n retry ctx true)
      { s.setAnswer (n, retry) exchange.request
          (.service (Http.serveRequest router (some exchange.request.body) ctx s.world).1) with
        world := (Http.serveRequest router (some exchange.request.body) ctx s.world).2
        log := s.log ++ [⟨n, retry, ctx, exchange.request.body⟩] }
  | misread {n : ℕ} {retry : Bool} {ctx : C} {exchange : HttpExchange}
    (exchange_eq : s.exchanges (n, retry) = some exchange) (open_eq : exchange.answer = none) :
    Step s (.serve n retry ctx false)
      (s.setAnswer (n, retry) exchange.request
        (.service (Http.jsonResponse 200 (Http.parseErrorBody B))))
  | refuse {n : ℕ} {retry : Bool} {resp : HttpResponse} {exchange : HttpExchange}
    (exchange_eq : s.exchanges (n, retry) = some exchange) (open_eq : exchange.answer = none) :
    Step s (.refuse n retry resp) (s.setAnswer (n, retry) exchange.request (.layer resp))

variable {router} {s s' : HttpSystem B C σ} {a : HttpAction C} {w : World B C σ}

theorem Step.of_step (h : s.step router a = some s') : Step router s a s' := by
  cases a with
  | start n transport message =>
    rw [step, Option.ite_none_right_eq_some] at h
    obtain ⟨hfresh, h⟩ := h
    obtain rfl := Option.some.inj h
    exact .start (Option.isNone_iff_eq_none.1 hfresh)
  | call n a =>
    obtain ⟨call, hcall, h⟩ := Option.bind_eq_some_iff.1 h
    rw [Option.ite_none_right_eq_some] at h
    obtain ⟨harrived, h⟩ := h
    obtain ⟨⟨point, sent⟩, hstep, rfl⟩ := Option.map_eq_some_iff.1 h
    have hstep := RoundTrip.Step.of_step hstep
    cases sent with
    | none => exact .call hcall harrived hstep
    | some sent => exact .post hcall hstep
  | serve n retry ctx readable =>
    obtain ⟨exchange, hexchange, h⟩ := Option.bind_eq_some_iff.1 h
    rw [Option.ite_none_right_eq_some] at h
    obtain ⟨hopen, h⟩ := h
    obtain rfl := Option.some.inj h
    have hopen := Option.isNone_iff_eq_none.1 hopen
    cases readable with
    | false => exact .misread hexchange hopen
    | true => exact .serve hexchange hopen
  | refuse n retry resp =>
    obtain ⟨exchange, hexchange, h⟩ := Option.bind_eq_some_iff.1 h
    rw [Option.ite_none_right_eq_some] at h
    obtain ⟨hopen, h⟩ := h
    obtain rfl := Option.some.inj h
    exact .refuse hexchange (Option.isNone_iff_eq_none.1 hopen)

/-! ## What a round trip knows -/

/-- The first request of the round trip is answered with a `401`. -/
def Challenged (s : HttpSystem B C σ) (n : ℕ) : Prop :=
  ∃ a, s.answer n false = some a ∧ a.resp.status = 401

/-- The requests of the round trip are answered, and none with a success. -/
def Refused (s : HttpSystem B C σ) (n : ℕ) : Prop :=
  ∀ retry, s.exchanges (n, retry) ≠ none →
    ∃ a, s.answer n retry = some a ∧ ¬ a.resp.isSuccess

/-- The result of the round trip is that of a response to one of its requests. -/
def Responds (s : HttpSystem B C σ) (n : ℕ) (t : HttpTransport)
    (result : Except HttpTransportError Bytes) : Prop :=
  ∃ retry a, s.answer n retry = some a ∧ t.result a.resp = result

/-- What a round trip knows at a point of the answers to its requests. -/
def Knows (s : HttpSystem B C σ) (n : ℕ) (t : HttpTransport) : RoundTrip → Prop
  | .authorizing false => s.exchanges (n, false) = none ∧ s.exchanges (n, true) = none
  | .authorizing true => s.Challenged n ∧ s.exchanges (n, true) = none
  | .requesting false => s.exchanges (n, true) = none
  | .requesting true => s.Challenged n
  | .unauthorized resp =>
    (∃ a, s.answer n false = some a ∧ a.resp = resp ∧ resp.status = 401) ∧
      s.exchanges (n, true) = none
  | .reading resp collected =>
    s.Responds n t
        (if t.limit < resp.body.length then .error (.tooLarge t.maxResponseSize)
          else .ok resp.body) ∧
      collected <+: resp.body ∧ collected.length ≤ t.limit
  | .done (.error (.auth _)) => s.Refused n
  | .done (.error (.status status)) => s.Refused n ∧ s.Responds n t (.error (.status status))
  | .done (.error (.connect _)) | .done (.error (.body _)) | .dropped => True
  | .done result => s.Responds n t result

section

variable {n : ℕ} {t : HttpTransport}

theorem answer_of_none {retry : Bool} (h : s.exchanges (n, retry) = none) :
    s.answer n retry = none := by
  rw [answer, h]
  rfl

theorem exchanges_ne_none {retry : Bool} {a : HttpAnswer} (h : s.answer n retry = some a) :
    s.exchanges (n, retry) ≠ none := by
  intro hnone
  cases (answer_of_none hnone).symm.trans h

/-- What a round trip knows stays true as long as it posts nothing, whatever is answered. -/
theorem Knows.mono {point : RoundTrip} (h : s.Knows n t point)
    (hnone : ∀ retry, s.exchanges (n, retry) = none → s'.exchanges (n, retry) = none)
    (hanswer : ∀ retry a, s.answer n retry = some a → s'.answer n retry = some a) :
    s'.Knows n t point := by
  have hchallenged (h : s.Challenged n) : s'.Challenged n := by
    obtain ⟨a, ha, hstatus⟩ := h
    exact ⟨a, hanswer _ _ ha, hstatus⟩
  have hrefused (h : s.Refused n) : s'.Refused n := fun retry hposted => by
    obtain ⟨a, ha, hfails⟩ := h retry fun hnot => hposted (hnone retry hnot)
    exact ⟨a, hanswer _ _ ha, hfails⟩
  have hresponds {result : Except HttpTransportError Bytes} (h : s.Responds n t result) :
      s'.Responds n t result := by
    obtain ⟨retry, a, ha, hresult⟩ := h
    exact ⟨retry, a, hanswer _ _ ha, hresult⟩
  cases point with
  | authorizing retry =>
    cases retry with
    | false => exact ⟨hnone _ h.1, hnone _ h.2⟩
    | true => exact ⟨hchallenged h.1, hnone _ h.2⟩
  | requesting retry =>
    cases retry with
    | false => exact hnone _ h
    | true => exact hchallenged h
  | unauthorized resp =>
    obtain ⟨⟨a, ha, hresp⟩, hnot⟩ := h
    exact ⟨⟨a, hanswer _ _ ha, hresp⟩, hnone _ hnot⟩
  | reading resp collected => exact ⟨hresponds h.1, h.2⟩
  | done result =>
    rcases result with (_ | _ | _ | _ | _) | _
    · trivial
    · trivial
    · exact ⟨hrefused h.1, hresponds h.2⟩
    · exact hresponds h
    · exact hrefused h
    · exact hresponds h
  | dropped => trivial

theorem knows_receive {retry : Bool} {a : HttpAnswer} (ha : s.answer n retry = some a)
    (hother : ∀ r, r ≠ retry → s.exchanges (n, r) ≠ none →
      ∃ b, s.answer n r = some b ∧ ¬ b.resp.isSuccess) :
    s.Knows n t (.receive a.resp) := by
  rcases RoundTrip.receive_cases (t := t) a.resp with ⟨hreceive, hfails, hresult⟩ | ⟨hreceive, hresult⟩
  · rw [hreceive]
    refine ⟨fun r hposted => ?_, retry, a, ha, hresult⟩
    by_cases hr : r = retry
    · exact ⟨a, hr ▸ ha, hfails⟩
    · exact hother r hr hposted
  · rw [hreceive]
    exact ⟨⟨retry, a, ha, hresult⟩, List.nil_prefix, Nat.zero_le _⟩

/-- What a round trip knows after a step that posts nothing. -/
theorem Knows.step {point point' : RoundTrip} {message : Bytes} {a : RoundTripAction}
    (h : s.Knows n t point)
    (harrived : point.Arrived (fun retry => (s.answer n retry).map HttpAnswer.resp) a)
    (hstep : point.Step t message a point' none) : s.Knows n t point' := by
  have hchallenged {a : HttpAnswer} (ha : s.answer n false = some a) (hstatus : a.resp.status = 401) :
      ∃ b, s.answer n false = some b ∧ ¬ b.resp.isSuccess :=
    ⟨a, ha, HttpResponse.not_isSuccess hstatus⟩
  cases hstep with
  | @denied retry e =>
    intro r hposted
    cases retry with
    | false =>
      cases r with
      | false => exact absurd h.1 hposted
      | true => exact absurd h.2 hposted
    | true =>
      obtain ⟨⟨a, ha, hstatus⟩, hnone⟩ := h
      cases r with
      | false => exact hchallenged ha hstatus
      | true => exact absurd hnone hposted
  | challenged hstatus =>
    obtain ⟨a, ha, hresp⟩ := Option.map_eq_some_iff.1 harrived
    exact ⟨⟨a, ha, hresp, hstatus⟩, h⟩
  | @received retry resp =>
    obtain ⟨a, ha, rfl⟩ := Option.map_eq_some_iff.1 harrived
    apply knows_receive ha
    intro r hr hposted
    cases retry with
    | false =>
      obtain rfl : r = true := by simpa using hr
      exact absurd h hposted
    | true =>
      obtain rfl : r = false := by simpa using hr
      obtain ⟨b, hb, hstatus⟩ := h
      exact hchallenged hb hstatus
  | failed | broken | dropped => trivial
  | again =>
    obtain ⟨⟨a, ha, hresp, hstatus⟩, hnone⟩ := h
    exact ⟨⟨a, ha, hresp ▸ hstatus⟩, hnone⟩
  | declined =>
    obtain ⟨⟨a, ha, rfl, hstatus⟩, hnone⟩ := h
    apply knows_receive ha
    intro r hr hposted
    obtain rfl : r = true := by simpa using hr
    exact absurd hnone hposted
  | @exceeded resp collected data hover =>
    obtain ⟨hresponds, -, -⟩ := h
    rwa [if_pos (hover.trans_le (List.IsPrefix.length_le harrived))] at hresponds
  | collected hwithin =>
    obtain ⟨hresponds, -, hle⟩ := h
    refine ⟨hresponds, harrived, ?_⟩
    rw [List.length_append]
    omega
  | ended =>
    obtain ⟨hresponds, -, hle⟩ := h
    obtain rfl := harrived
    rwa [if_neg (Nat.not_lt.2 hle)] at hresponds

end

/-! ## The service and the log -/

theorem dispatchEach_concat (router : Router B C σ) (log : List (Dispatch C)) (d : Dispatch C)
    (w : World B C σ) : router.dispatchEach (log ++ [d]) w =
      (router.handleBytesWithContext d.body d.ctx (router.dispatchEach log w)).2 := by
  rw [Router.dispatchEach, List.foldl_append]
  rfl

/-- The request was dispatched, and the response is to what came of it. -/
def Dispatched (router : Router B C σ) (w : World B C σ) (log : List (Dispatch C))
    (key : ℕ × Bool) (resp : HttpResponse) : Prop :=
  ∃ before d after, log = before ++ d :: after ∧ (d.call, d.retry) = key ∧
    (Http.serveRequest router (some d.body) d.ctx (router.dispatchEach before w)).1 = resp

/-- The body of the request could not be read, and it was not dispatched. -/
def Unread (B : Backend) (log : List (Dispatch C)) (key : ℕ × Bool) (resp : HttpResponse) : Prop :=
  resp = Http.jsonResponse 200 (Http.parseErrorBody B) ∧ ∀ d ∈ log, (d.call, d.retry) ≠ key

/-- What holds in every state. -/
structure Sound (router : Router B C σ) (w : World B C σ) (s : HttpSystem B C σ) : Prop where
  world_eq : s.world = router.dispatchEach s.log w
  nodup : (s.log.map fun d => (d.call, d.retry)).Nodup
  logged {d : Dispatch C} : d ∈ s.log → ∃ exchange resp,
    s.exchanges (d.call, d.retry) = some exchange ∧ exchange.answer = some (.service resp) ∧
      d.body = exchange.request.body
  answered {n : ℕ} {retry : Bool} {resp : HttpResponse} :
    s.answer n retry = some (.service resp) → resp.isSuccess ∧
      (Dispatched router w s.log (n, retry) resp ∨ Unread B s.log (n, retry) resp)
  posted {n : ℕ} {retry : Bool} {exchange : HttpExchange} :
    s.exchanges (n, retry) = some exchange → ∃ call auth, s.calls n = some call ∧
      exchange.request = call.transport.buildRequest call.message auth
  challenged {n : ℕ} : s.exchanges (n, true) ≠ none → s.Challenged n
  knows {n : ℕ} {call : HttpCall} : s.calls n = some call → s.Knows n call.transport call.point

section

variable {n : ℕ} {retry : Bool} {exchange : HttpExchange} {a : HttpAnswer}

theorem answer_setAnswer (request : HttpRequest) :
    (s.setAnswer (n, retry) request a).answer n retry = some a := by
  have hset : (s.setAnswer (n, retry) request a).exchanges (n, retry) =
      some { request, answer := some a } := Function.update_self ..
  rw [answer, hset]
  rfl

theorem answer_setAnswer_of_ne {m : ℕ} {r : Bool} (request : HttpRequest)
    (h : (m, r) ≠ (n, retry)) :
    (s.setAnswer (n, retry) request a).answer m r = s.answer m r := by
  have hset : (s.setAnswer (n, retry) request a).exchanges (m, r) = s.exchanges (m, r) :=
    Function.update_of_ne h ..
  rw [answer, hset]
  rfl

theorem answer_of_open (hexchange : s.exchanges (n, retry) = some exchange)
    (hopen : exchange.answer = none) : s.answer n retry = none := by
  rw [answer, hexchange, Option.bind_some, hopen]

theorem answer_setAnswer_of_some {m : ℕ} {r : Bool} {b : HttpAnswer}
    (hexchange : s.exchanges (n, retry) = some exchange) (hopen : exchange.answer = none)
    (h : s.answer m r = some b) :
    (s.setAnswer (n, retry) exchange.request a).answer m r = some b := by
  by_cases hkey : (m, r) = (n, retry)
  · obtain ⟨rfl, rfl⟩ := Prod.mk.inj hkey
    cases (answer_of_open hexchange hopen).symm.trans h
  · rwa [answer_setAnswer_of_ne _ hkey]

end

namespace Sound

variable {n : ℕ} {retry : Bool} {exchange : HttpExchange}

theorem new (router : Router B C σ) (w : World B C σ) : Sound router w (new w) where
  world_eq := rfl
  nodup := List.nodup_nil
  logged h := by cases h
  answered h := by cases h
  posted h := by cases h
  challenged h := absurd rfl h
  knows h := by cases h

/-- A round trip moves on without a request. -/
theorem call (h : Sound router w s) {call call' : HttpCall} (hcall : s.calls n = some call)
    (htransport : call'.transport = call.transport) (hmessage : call'.message = call.message)
    (hknows : s.Knows n call'.transport call'.point) :
    Sound router w { s with calls := Function.update s.calls n (some call') } where
  world_eq := h.world_eq
  nodup := h.nodup
  logged := h.logged
  answered := h.answered
  posted {m r exchange} hexchange := by
    obtain ⟨callm, auth, hcallm, hrequest⟩ := h.posted hexchange
    by_cases hm : m = n
    · subst hm
      obtain rfl := Option.some.inj (hcall.symm.trans hcallm)
      refine ⟨call', auth, Function.update_self .., ?_⟩
      rw [hrequest, htransport, hmessage]
    · exact ⟨callm, auth, (Function.update_of_ne hm ..).trans hcallm, hrequest⟩
  challenged := h.challenged
  knows {m callm} hcallm := by
    have hmono {t : HttpTransport} {point : RoundTrip} (h : s.Knows m t point) :
        Knows { s with calls := Function.update s.calls n (some call') } m t point :=
      h.mono (fun _ h => h) fun _ _ h => h
    rcases Table.of_update hcallm with ⟨rfl, rfl⟩ | ⟨-, hcallm⟩
    · exact hmono hknows
    · exact hmono (h.knows hcallm)

/-- A new round trip. -/
theorem start (h : Sound router w s) (transport : HttpTransport) (message : Bytes)
    (hfresh : s.calls n = none) :
    Sound router w
      { s with calls := Function.update s.calls n (some { transport, message }) } where
  world_eq := h.world_eq
  nodup := h.nodup
  logged := h.logged
  answered := h.answered
  posted {m r exchange} hexchange := by
    obtain ⟨callm, auth, hcallm, hrequest⟩ := h.posted hexchange
    have hm : m ≠ n := by
      rintro rfl
      cases hfresh.symm.trans hcallm
    exact ⟨callm, auth, (Function.update_of_ne hm ..).trans hcallm, hrequest⟩
  challenged := h.challenged
  knows {m callm} hcallm := by
    rcases Table.of_update hcallm with ⟨rfl, rfl⟩ | ⟨-, hcallm⟩
    · have hnone (r : Bool) : s.exchanges (m, r) = none := by
        cases hexchange : s.exchanges (m, r) with
        | none => rfl
        | some exchange =>
          obtain ⟨callm, -, hcallm, -⟩ := h.posted hexchange
          cases hfresh.symm.trans hcallm
      exact ⟨hnone false, hnone true⟩
    · exact (h.knows hcallm).mono (fun _ h => h) fun _ _ h => h

/-- A round trip posts a request. -/
theorem post (h : Sound router w s) {call : HttpCall} {auth : Option Bytes}
    (hcall : s.calls n = some call) (hpoint : call.point = .authorizing retry) :
    Sound router w
      { s with
        calls := Function.update s.calls n (some { call with point := .requesting retry })
        exchanges := Function.update s.exchanges (n, retry)
          (some { request := call.transport.buildRequest call.message auth }) } := by
  obtain ⟨hknows, hfresh⟩ : (retry = true → s.Challenged n) ∧ s.exchanges (n, retry) = none := by
    have hknows := h.knows hcall
    rw [hpoint] at hknows
    cases retry with
    | false => exact ⟨(fun h => by cases h), hknows.1⟩
    | true => exact ⟨fun _ => hknows.1, hknows.2⟩
  have hlater : retry = false → s.exchanges (n, true) = none := by
    rintro rfl
    have hknows := h.knows hcall
    rw [hpoint] at hknows
    exact hknows.2
  -- no answer changes
  have hanswer (m : ℕ) (r : Bool) : answer { s with
      calls := Function.update s.calls n (some { call with point := .requesting retry })
      exchanges := Function.update s.exchanges (n, retry)
        (some { request := call.transport.buildRequest call.message auth }) } m r =
      s.answer m r := by
    show (Function.update s.exchanges (n, retry) _ (m, r)).bind HttpExchange.answer = _
    by_cases hkey : (m, r) = (n, retry)
    · obtain ⟨rfl, rfl⟩ := Prod.mk.inj hkey
      rw [Function.update_self, answer_of_none hfresh]
      rfl
    · rw [Function.update_of_ne hkey, answer]
  constructor
  · exact h.world_eq
  · exact h.nodup
  · intro d hd
    obtain ⟨exchange, resp, hexchange, hresp, hbody⟩ := h.logged hd
    have hkey : (d.call, d.retry) ≠ (n, retry) := by
      intro hkey
      rw [hkey, hfresh] at hexchange
      cases hexchange
    exact ⟨exchange, resp, (Function.update_of_ne hkey ..).trans hexchange, hresp, hbody⟩
  · intro m r resp hresp
    rw [hanswer] at hresp
    exact h.answered hresp
  · intro m r exchange hexchange
    have hcalls {callm : HttpCall} (hcallm : s.calls m = some callm) : ∃ callm',
        Function.update s.calls n (some { call with point := .requesting retry }) m = some callm' ∧
          callm'.transport = callm.transport ∧ callm'.message = callm.message := by
      by_cases hm : m = n
      · subst hm
        obtain rfl := Option.some.inj (hcall.symm.trans hcallm)
        exact ⟨_, Function.update_self .., rfl, rfl⟩
      · exact ⟨callm, (Function.update_of_ne hm ..).trans hcallm, rfl, rfl⟩
    rcases Table.of_update hexchange with ⟨hkey, rfl⟩ | ⟨-, hexchange⟩
    · obtain ⟨rfl, rfl⟩ := Prod.mk.inj hkey
      exact ⟨_, auth, Function.update_self .., rfl⟩
    · obtain ⟨callm, auth, hcallm, hrequest⟩ := h.posted hexchange
      obtain ⟨callm', hcallm', htransport, hmessage⟩ := hcalls hcallm
      exact ⟨callm', auth, hcallm', by rw [hrequest, htransport, hmessage]⟩
  · intro m hposted
    have hchallenged : s.Challenged m := by
      by_cases hkey : (m, true) = (n, retry)
      · obtain ⟨rfl, rfl⟩ := Prod.mk.inj hkey
        exact hknows rfl
      · exact h.challenged fun hnone => hposted ((Function.update_of_ne hkey ..).trans hnone)
    obtain ⟨a, ha, hstatus⟩ := hchallenged
    exact ⟨a, (hanswer ..).trans ha, hstatus⟩
  · intro m callm hcallm
    rcases Table.of_update hcallm with ⟨rfl, rfl⟩ | ⟨hm, hcallm⟩
    · cases retry with
      | false =>
        have hkey : (m, true) ≠ (m, false) := fun h => by cases h
        exact (Function.update_of_ne hkey ..).trans (hlater rfl)
      | true =>
        obtain ⟨a, ha, hstatus⟩ := hknows rfl
        exact ⟨a, (hanswer ..).trans ha, hstatus⟩
    · refine (h.knows hcallm).mono (fun r hnone => ?_) fun r a ha => (hanswer ..).trans ha
      have hkey : (m, r) ≠ (n, retry) := fun hkey => hm (Prod.mk.inj hkey).1
      exact (Function.update_of_ne hkey ..).trans hnone

/-- A request is answered, and dispatched by the service or not at all. -/
theorem setAnswer (h : Sound router w s) {a : HttpAnswer} {world : World B C σ}
    {log : List (Dispatch C)} (hexchange : s.exchanges (n, retry) = some exchange)
    (hopen : exchange.answer = none) (hworld : world = router.dispatchEach log w)
    (hlog : log = s.log ∨ ∃ ctx resp, a = .service resp ∧
      log = s.log ++ [⟨n, retry, ctx, exchange.request.body⟩])
    (hanswered : ∀ resp, a = .service resp → resp.isSuccess ∧
      (Dispatched router w log (n, retry) resp ∨ Unread B log (n, retry) resp)) :
    Sound router w { s.setAnswer (n, retry) exchange.request a with world, log } := by
  have hnotLogged : ∀ d ∈ s.log, (d.call, d.retry) ≠ (n, retry) := by
    intro d hd hkey
    obtain ⟨exchange', resp, hexchange', hresp, -⟩ := h.logged hd
    rw [hkey] at hexchange'
    obtain rfl := Option.some.inj (hexchange.symm.trans hexchange')
    cases hopen.symm.trans hresp
  have hother {key : ℕ × Bool} {exchange' : HttpExchange} (hkey : key ≠ (n, retry))
      (h : s.exchanges key = some exchange') :
      (s.setAnswer (n, retry) exchange.request a).exchanges key = some exchange' :=
    (Function.update_of_ne hkey ..).trans h
  constructor
  · exact hworld
  · rcases hlog with rfl | ⟨ctx, resp, -, rfl⟩
    · exact h.nodup
    · rw [List.map_append, List.map_singleton]
      refine List.Nodup.append h.nodup (List.nodup_singleton _) (List.disjoint_singleton.2 ?_)
      intro hmem
      obtain ⟨d, hd, hkey⟩ := List.mem_map.1 hmem
      exact hnotLogged d hd hkey
  · intro d hd
    have hold (hd : d ∈ s.log) : ∃ exchange' resp,
        (s.setAnswer (n, retry) exchange.request a).exchanges (d.call, d.retry) = some exchange' ∧
          exchange'.answer = some (.service resp) ∧ d.body = exchange'.request.body := by
      obtain ⟨exchange', resp, hexchange', hresp, hbody⟩ := h.logged hd
      exact ⟨exchange', resp, hother (hnotLogged d hd) hexchange', hresp, hbody⟩
    rcases hlog with rfl | ⟨ctx, resp, rfl, rfl⟩
    · exact hold hd
    · rcases List.mem_append.1 hd with hd | hd
      · exact hold hd
      · obtain rfl := List.mem_singleton.1 hd
        exact ⟨_, resp, Function.update_self .., rfl, rfl⟩
  · intro m r resp hresp
    by_cases hkey : (m, r) = (n, retry)
    · obtain ⟨rfl, rfl⟩ := Prod.mk.inj hkey
      have hset : (s.setAnswer (m, r) exchange.request a).answer m r = some a := answer_setAnswer _
      exact hanswered resp (Option.some.inj (hset.symm.trans hresp))
    · have hset := answer_setAnswer_of_ne (s := s) (a := a) exchange.request hkey
      obtain ⟨hsuccess, hcases⟩ := h.answered (hset.symm.trans hresp)
      refine ⟨hsuccess, ?_⟩
      rcases hlog with rfl | ⟨ctx, _, -, rfl⟩
      · exact hcases
      · rcases hcases with ⟨before, d, after, hsplit, hkey, hserve⟩ | ⟨hbody, hnot⟩
        · refine .inl ⟨before, d, after ++ [⟨n, retry, ctx, exchange.request.body⟩], ?_, hkey, hserve⟩
          rw [hsplit, List.append_assoc, List.cons_append]
        · refine .inr ⟨hbody, fun d hd => ?_⟩
          rcases List.mem_append.1 hd with hd | hd
          · exact hnot d hd
          · obtain rfl := List.mem_singleton.1 hd
            exact fun heq => hkey heq.symm
  · intro m r exchange' hexchange'
    rcases Table.of_update hexchange' with ⟨hkey, rfl⟩ | ⟨-, hexchange'⟩
    · obtain ⟨rfl, rfl⟩ := Prod.mk.inj hkey
      obtain ⟨callm, auth, hcallm, hrequest⟩ := h.posted hexchange
      exact ⟨callm, auth, hcallm, hrequest⟩
    · exact h.posted hexchange'
  · intro m hposted
    have hposted' : s.exchanges (m, true) ≠ none := by
      by_cases hkey : (m, true) = (n, retry)
      · rw [hkey, hexchange]
        exact Option.some_ne_none _
      · exact fun hnone => hposted ((Function.update_of_ne hkey ..).trans hnone)
    obtain ⟨b, hb, hstatus⟩ := h.challenged hposted'
    exact ⟨b, answer_setAnswer_of_some hexchange hopen hb, hstatus⟩
  · intro m callm hcallm
    refine (h.knows hcallm).mono (fun r hnone => ?_) fun r b hb =>
      answer_setAnswer_of_some hexchange hopen hb
    have hkey : (m, r) ≠ (n, retry) := by
      intro hkey
      rw [hkey, hexchange] at hnone
      cases hnone
    exact (Function.update_of_ne hkey ..).trans hnone

theorem step (h : Sound router w s) (hstep : s.step router a = some s') : Sound router w s' := by
  cases Step.of_step hstep with
  | start hfresh => exact h.start _ _ hfresh
  | @post n a call point retry request hcall hstepped =>
    have hpoint : call.point = .authorizing retry ∧ point = .requesting retry ∧
        ∃ auth, request = call.transport.buildRequest call.message auth := by
      generalize call.point = p at hstepped ⊢
      cases hstepped with
      | @posted _ auth => exact ⟨rfl, rfl, auth, rfl⟩
    obtain ⟨hpoint, rfl, auth, rfl⟩ := hpoint
    exact h.post hcall hpoint
  | call hcall harrived hstepped =>
    exact h.call hcall rfl rfl ((h.knows hcall).step harrived hstepped)
  | @serve n retry ctx exchange hexchange hopen =>
    have hserve := Http.serveRequest_some router exchange.request.body ctx s.world
    apply h.setAnswer hexchange hopen
    · rw [dispatchEach_concat, ← h.world_eq, hserve]
    · exact .inr ⟨ctx, _, rfl, rfl⟩
    · rintro resp heq
      obtain rfl := HttpAnswer.service.inj heq
      refine ⟨Http.isSuccess_serveRequest .., .inl ⟨s.log, _, [], rfl, rfl, ?_⟩⟩
      rw [← h.world_eq]
  | @misread n retry ctx exchange hexchange hopen =>
    apply h.setAnswer hexchange hopen h.world_eq (.inl rfl)
    rintro resp heq
    obtain rfl := HttpAnswer.service.inj heq
    refine ⟨rfl, .inr ⟨rfl, fun d hd hkey => ?_⟩⟩
    obtain ⟨exchange', resp, hexchange', hresp, -⟩ := h.logged hd
    rw [hkey] at hexchange'
    obtain rfl := Option.some.inj (hexchange.symm.trans hexchange')
    cases hopen.symm.trans hresp
  | refuse hexchange hopen =>
    exact h.setAnswer hexchange hopen h.world_eq (.inl rfl) fun _ h => by cases h

theorem of_reach (h : Reach (HttpSystem.step router) always (.new w) s) : Sound router w s :=
  h.invariant (.new router w) fun _ _ _ h _ hstep => h.step hstep

/-- Of the requests of a round trip, one is answered with a success. -/
theorem retry_eq (h : Sound router w s) {r r' : Bool} {b b' : HttpAnswer}
    (hb : s.answer n r = some b) (hsuccess : b.resp.isSuccess) (hb' : s.answer n r' = some b')
    (hsuccess' : b'.resp.isSuccess) : r = r' := by
  have hfirst {b : HttpAnswer} (hb : s.answer n true = some b) {b' : HttpAnswer}
      (hb' : s.answer n false = some b') : ¬ b'.resp.isSuccess := by
    obtain ⟨a, ha, hstatus⟩ := h.challenged (exchanges_ne_none hb)
    obtain rfl := Option.some.inj (ha.symm.trans hb')
    exact HttpResponse.not_isSuccess hstatus
  cases r with
  | false =>
    cases r' with
    | false => rfl
    | true => exact absurd hsuccess (hfirst hb' hb)
  | true =>
    cases r' with
    | false => exact absurd hsuccess' (hfirst hb hb')
    | true => rfl

theorem answer_of_mem (h : Sound router w s) {d : Dispatch C} (hd : d ∈ s.log) :
    ∃ resp, s.answer d.call d.retry = some (.service resp) ∧ resp.isSuccess := by
  obtain ⟨exchange, resp, hexchange, hresp, -⟩ := h.logged hd
  have hanswer : s.answer d.call d.retry = some (.service resp) := by
    rw [answer, hexchange, Option.bind_some, hresp]
  exact ⟨resp, hanswer, (h.answered hanswer).1⟩

theorem once (h : Sound router w s) : (s.log.map Dispatch.call).Nodup := by
  have hkeys := List.pairwise_map.1 h.nodup
  refine List.pairwise_map.2 (hkeys.imp_of_mem fun {d d'} hd hd' hne hcall => ?_)
  obtain ⟨resp, hresp, hsuccess⟩ := h.answer_of_mem hd
  obtain ⟨resp', hresp', hsuccess'⟩ := h.answer_of_mem hd'
  rw [hcall] at hresp
  exact hne (Prod.ext hcall (h.retry_eq hresp hsuccess hresp' hsuccess'))

theorem notMem_of_refused (h : Sound router w s) (hrefused : s.Refused n) :
    ∀ d ∈ s.log, d.call ≠ n := by
  rintro d hd rfl
  obtain ⟨resp, hresp, hsuccess⟩ := h.answer_of_mem hd
  obtain ⟨a, ha, hfails⟩ := hrefused d.retry (exchanges_ne_none hresp)
  obtain rfl := Option.some.inj (ha.symm.trans hresp)
  exact hfails hsuccess

theorem message (h : Sound router w s) {d : Dispatch C} (hd : d ∈ s.log) :
    ∃ call, s.calls d.call = some call ∧ d.body = call.message := by
  obtain ⟨exchange, -, hexchange, -, hbody⟩ := h.logged hd
  obtain ⟨call, auth, hcall, hrequest⟩ := h.posted hexchange
  refine ⟨call, hcall, ?_⟩
  rw [hbody, hrequest]
  rfl

end Sound

/-! ## The order of the calls -/

/-- What a round trip of `n` returned: the body of a layer's response, or a parse error, if the service
could not read the request; then it was not dispatched.  Or else it was dispatched at one point of the
log, and what is returned is the outcome there. -/
def Returned (router : Router B C σ) (w : World B C σ) (s : HttpSystem B C σ) (n : ℕ)
    (bytes : Bytes) : Prop :=
  ((∃ retry resp, s.answer n retry = some (.layer resp) ∧ resp.body = bytes) ∨
      bytes = Http.parseErrorBody B) ∧ (∀ d ∈ s.log, d.call ≠ n) ∨
    ∃ before d after, s.log = before ++ d :: after ∧ d.call = n ∧
      (Http.dispatchWithContext router d.body d.ctx (router.dispatchEach before w)).1.body = bytes

/-- The calls take effect one after another in a state. -/
structure Linearized (router : Router B C σ) (w : World B C σ) (s : HttpSystem B C σ) : Prop where
  /-- The state that the handlers share is that of one sequential run over the log. -/
  world_eq : s.world = router.dispatchEach s.log w
  /-- A round trip is dispatched at most once, although it may be retried. -/
  once : (s.log.map Dispatch.call).Nodup
  /-- What is dispatched is the message of its round trip. -/
  message {d : Dispatch C} : d ∈ s.log → ∃ call, s.calls d.call = some call ∧ d.body = call.message
  /-- A round trip that ends well returns no more than the limit. -/
  returned {n : ℕ} {call : HttpCall} {bytes : Bytes} : s.calls n = some call →
    call.point = .done (.ok bytes) →
      bytes.length ≤ call.transport.limit ∧ s.Returned router w n bytes
  /-- A round trip that ends with a status, or without a credential, was not dispatched. -/
  refused {n : ℕ} {call : HttpCall} : s.calls n = some call →
    (∃ status, call.point = .done (.error (.status status))) ∨
      (∃ e, call.point = .done (.error (.auth e))) → ∀ d ∈ s.log, d.call ≠ n

/-- What a round trip that ends well returns. -/
theorem Sound.returned (h : Sound router w s) {n : ℕ} {call : HttpCall} {bytes : Bytes}
    (hcall : s.calls n = some call) (hpoint : call.point = .done (.ok bytes)) :
    bytes.length ≤ call.transport.limit ∧ s.Returned router w n bytes := by
  have hknows := h.knows hcall
  rw [hpoint] at hknows
  obtain ⟨retry, a, ha, hresult⟩ := hknows
  obtain ⟨hsuccess, rfl, hle⟩ := HttpTransport.result_eq_ok hresult
  refine ⟨hle, ?_⟩
  -- a dispatch of the round trip has led to this answer
  have hkey {d : Dispatch C} (hd : d ∈ s.log) (hn : d.call = n) :
      d.retry = retry ∧ ∃ resp, a = .service resp := by
    obtain ⟨resp, hresp, hsuccess'⟩ := h.answer_of_mem hd
    rw [hn] at hresp
    have hretry := h.retry_eq hresp hsuccess' ha hsuccess
    rw [hretry, ha] at hresp
    exact ⟨hretry, resp, Option.some.inj hresp⟩
  cases a with
  | layer resp =>
    refine .inl ⟨.inl ⟨retry, resp, ha, rfl⟩, fun d hd hn => ?_⟩
    obtain ⟨-, resp', hservice⟩ := hkey hd hn
    cases hservice
  | service resp =>
    obtain ⟨-, ⟨before, d, after, hlog, hcallRetry, hserve⟩ | ⟨hbody, hnot⟩⟩ := h.answered ha
    · refine .inr ⟨before, d, after, hlog, (Prod.mk.inj hcallRetry).1, ?_⟩
      rw [← Http.body_serveRequest, hserve]
      rfl
    · refine .inl ⟨.inr (congrArg HttpResponse.body hbody), fun d hd hn => hnot d hd ?_⟩
      exact Prod.ext hn (hkey hd hn).1

/-- In every run the calls take effect one after another, each at most once. -/
theorem sequential (router : Router B C σ) (w : World B C σ) (s : HttpSystem B C σ)
    (hreach : Reach (HttpSystem.step router) always (.new w) s) : Linearized router w s := by
  have h := Sound.of_reach hreach
  constructor
  · exact h.world_eq
  · exact h.once
  · exact h.message
  · exact h.returned
  · intro n call hcall hpoint
    have hknows := h.knows hcall
    apply h.notMem_of_refused
    obtain ⟨status, hpoint⟩ | ⟨e, hpoint⟩ := hpoint
    · rw [hpoint] at hknows
      exact hknows.1
    · rw [hpoint] at hknows
      exact hknows

section Sample

open JsonText

/-- A transport to an endpoint. -/
def endpoint : HttpTransport := { uri := "http://127.0.0.1:8080/" }

/-- A layer refuses the credential of the first call, the second call is served, and then the retry of
the first is served. -/
def retriedRun : List (HttpAction Unit) :=
  [.start 0 endpoint (backend.get getCall.serialize),
    .call 0 (.authorized (.ok (some (ascii "Bearer stale")))),
    .start 1 endpoint (backend.get getCall.serialize), .call 1 (.authorized (.ok none)),
    .refuse 0 false { status := 401, headers := ∅, body := [] },
    .call 0 (.responded (.ok { status := 401, headers := ∅, body := [] })),
    .call 0 (.decided true), .serve 1 false () true,
    .call 0 (.authorized (.ok (some (ascii "Bearer fresh")))),
    .call 1 (.responded (.ok (Http.jsonResponse 200 System.answerReply))), .serve 0 true () true,
    .call 0 (.responded (.ok (Http.jsonResponse 200 System.answerReply))),
    .call 1 (.chunk System.answerReply), .call 0 (.chunk System.answerReply),
    .call 0 (.ended (.ok ())), .call 1 (.ended (.ok ()))]

/-- The message of the round trip `n`, and how far it has come. -/
def reached (s : HttpSystem B C σ) (n : ℕ) : Option (Bytes × RoundTrip) :=
  (s.calls n).map fun call => (call.message, call.point)

theorem reached_retriedRun :
    (run (HttpSystem.step System.answerRouter) always (.new ⟨(), []⟩) retriedRun).map
        (fun s => (s.reached 0, s.reached 1, s.log.map fun d => (d.call, d.retry))) =
      some (some (backend.get getCall.serialize, .done (.ok System.answerReply)),
        some (backend.get getCall.serialize, .done (.ok System.answerReply)),
        [(1, false), (0, true)]) := by
  decide +kernel

theorem sequential_retriedRun : ∃ s,
    run (HttpSystem.step System.answerRouter) always (.new ⟨(), []⟩) retriedRun = some s ∧
      s.log.map (fun d => (d.call, d.retry)) = [(1, false), (0, true)] ∧
        Linearized System.answerRouter ⟨(), []⟩ s := by
  obtain ⟨s, hrun, hreached⟩ := Option.map_eq_some_iff.1 reached_retriedRun
  obtain ⟨-, hother⟩ := Prod.mk.inj hreached
  obtain ⟨-, hlog⟩ := Prod.mk.inj hother
  exact ⟨s, hrun, hlog, sequential _ _ s (reach_of_run retriedRun hrun)⟩

end Sample

/-! ## From a call to its reply -/

theorem decodeResult_errorBody (law : B.Lawful) {E T : Type} (d : Deserialize B T) (e : Error B)
    {id : Id} (hid : id ≠ .null) : decodeResult E d (errorBody e) id = .error .idMismatch := by
  have hparse : fromSlice Response.deserialize (errorBody e) =
      .ok (Response.ofError .null e).readBack := by
    show fromSlice Response.deserialize (B.get (Response.ofError .null e).serialize) = _
    rw [fromSlice_get law, deserializeFrom, Response.deserialize_serialize law]
  have hne : (Response.ofError .null e).readBack.id ≠ id := hid.symm
  rw [decodeResult, hparse]
  simp only [Except.mapError, bind, Except.bind, if_pos hne]
  rfl

theorem body_of_payload {message : Bytes} {ctx : C} {reply : Bytes}
    (h : (router.handleBytesWithContext message ctx w).1.payload = some reply) :
    (Http.dispatchWithContext router message ctx w).1.body = reply := by
  have hbytes := Output.toBytes_of_payload h
  rw [Http.dispatchWithContext]
  dsimp only
  rw [hbytes]

/-- How a call over HTTP ends that returns `bytes`: a layer has answered it, or the service could not
read it and the client reads that the reply has another id, both without an effect; or it has taken
effect at one point of the log, and only there. -/
def Settles (E : Type) (router : Router B C σ) (w : World B C σ) (s : HttpSystem B C σ) (n : ℕ)
    (method : String) (raw : B.Raw) (message : Bytes) (id : Id) (bytes : Bytes) : Prop :=
  ((∃ retry resp, s.answer n retry = some (.layer resp) ∧ resp.body = bytes) ∨
      ∀ {T : Type} (d : Deserialize B T), decodeResult E d bytes id = .error .idMismatch) ∧
        (∀ d ∈ s.log, d.call ≠ n) ∨
    ∃ before d after, s.log = before ++ d :: after ∧ d.call = n ∧
      (∀ d' ∈ before ++ after, d'.call ≠ n) ∧
        CallEffect E router d.ctx (router.dispatchEach before w) method raw message id bytes

/-- The outcome of a call that is dispatched is its effect. -/
theorem effect_of_dispatch (law : B.Lawful) (E : Type) (router : Router B C σ) (w : World B C σ)
    (ctx : C) (method : String) (raw : B.Raw) (id : Id) {message : Bytes}
    (hmessage : message = B.get { method, params := some raw, id := some id : Request B }.serialize) :
    CallEffect E router ctx w method raw message id
      (Http.dispatchWithContext router message ctx w).1.body := by
  let _ : Inhabited C := ⟨ctx⟩
  obtain ⟨reply, hpayload, -⟩ := exists_payload law router
    { method, params := some raw, id := some id : Request B } rfl w
  rw [← hmessage] at hpayload
  have hbody : (Http.dispatchWithContext router message ctx w).1.body = reply :=
    body_of_payload hpayload
  rw [hbody]
  exact callEffect_of_sent law E router method raw id w hmessage (Output.toBytes_of_payload hpayload)

/-- Every call over HTTP whose round trip ends well has been answered with its own effect, or has had
none. -/
theorem settles (law : B.Lawful) (E : Type) (router : Router B C σ) (w : World B C σ)
    {s : HttpSystem B C σ} (hreach : Reach (HttpSystem.step router) always (.new w) s)
    {P : Type} {ser : Serialize B P} {params : P} {method : String} {id : Id} (hid : id ≠ .null)
    {n : ℕ} {call : HttpCall} {bytes : Bytes} (hcall : s.calls n = some call)
    (hencode : encodeCall E method ser params id = .ok (call.message, id))
    (hpoint : call.point = .done (.ok bytes)) :
    ∃ raw, ser params = .ok raw ∧ s.Settles E router w n method raw call.message id bytes := by
  have h := Sound.of_reach hreach
  obtain ⟨raw, hraw⟩ : ∃ raw, ser params = .ok raw := by
    cases hparams : ser params with
    | error e =>
      rw [encodeCall, Request.tryCall, toRawValue, hparams] at hencode
      cases hencode
    | ok raw => exact ⟨raw, rfl⟩
  rw [encodeCall_eq_ok hraw] at hencode
  have hmessage := (Prod.mk.inj (Except.ok.inj hencode)).1.symm
  refine ⟨raw, hraw, ?_⟩
  rcases (h.returned hcall hpoint).2 with
    ⟨hlayer | hbody, hnot⟩ | ⟨before, d, after, hlog, rfl, hbody⟩
  · exact .inl ⟨.inl hlayer, hnot⟩
  · refine .inl ⟨.inr fun d => ?_, hnot⟩
    rw [hbody]
    exact decodeResult_errorBody law d _ hid
  · have hmem : d ∈ s.log := by
      rw [hlog]
      exact List.mem_append_right _ List.mem_cons_self
    obtain ⟨call', hcall', hbodyOf⟩ := h.message hmem
    obtain rfl := Option.some.inj (hcall.symm.trans hcall')
    refine .inr ⟨before, d, after, hlog, rfl, fun d' hd' hsame => ?_, ?_⟩
    · have honce := h.once
      rw [hlog, List.map_append, List.map_cons, List.nodup_middle, ← List.map_append,
        List.nodup_cons] at honce
      exact honce.1 (List.mem_map.2 ⟨d', hd', hsame⟩)
    · have heffect := effect_of_dispatch law E router (router.dispatchEach before w) d.ctx method raw id
        hmessage
      rwa [← hbodyOf, hbody, hbodyOf] at heffect

section Sample

open JsonText

theorem settles_retriedRun : ∃ s,
    run (HttpSystem.step System.answerRouter) always (.new ⟨(), []⟩) retriedRun = some s ∧
      s.Settles Unit System.answerRouter ⟨(), []⟩ 0 "get" backend.null
        (backend.get getCall.serialize) (.number 1) System.answerReply := by
  obtain ⟨s, hrun, hreached⟩ := Option.map_eq_some_iff.1 reached_retriedRun
  obtain ⟨hreached, -⟩ := Prod.mk.inj hreached
  obtain ⟨call, hcall, heq⟩ := Option.map_eq_some_iff.1 hreached
  obtain ⟨hmessage, hpoint⟩ := Prod.mk.inj heq
  have hencode : encodeCall (B := backend) Unit "get" (fun raw => .ok raw) backend.null (.number 1) =
      .ok (call.message, .number 1) := by
    rw [hmessage]
    rfl
  obtain ⟨raw, hraw, hsettles⟩ := settles lawful Unit System.answerRouter ⟨(), []⟩
    (reach_of_run retriedRun hrun) (by decide) hcall hencode hpoint
  obtain rfl := Except.ok.inj hraw
  rw [hmessage] at hsettles
  exact ⟨s, hrun, hsettles⟩

end Sample

end HttpSystem

end Jasonrpc
