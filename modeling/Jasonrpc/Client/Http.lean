import Jasonrpc.Lib.Http

/-!
# The HTTP client transport

A round trip of `HttpTransport` asks the authorizer for a credential, posts the request, posts it once
more with a new credential after a `401`, and reads the body of the response up to the limit.
`RoundTrip.step` is one step of it between two points where it awaits; what it awaits, the authorizer,
the response and the pieces of its body, is given by the action.

What is read is a function of the response alone, whatever the pieces (`result`).
-/

namespace Jasonrpc

open ByteString

/-- Errors of the transport; what the libraries below it report is given by its text. -/
inductive HttpTransportError where
  /-- A connection or protocol error. -/
  | connect (e : String)
  /-- Reading the response body failed. -/
  | body (e : String)
  /-- The server answered with a non-success status. -/
  | status (status : UInt16)
  /-- The response body exceeded the maximum size. -/
  | tooLarge (limit : ℕ)
  /-- The authorizer failed to produce a credential. -/
  | auth (e : String)
deriving DecidableEq, Repr

/-- Default maximum response body size. -/
def defaultMaxResponseSize : ℕ := 16 * 1024 * 1024

/-- A transport that posts messages to one endpoint. -/
structure HttpTransport where
  uri : String
  headers : HeaderMap := ∅
  maxResponseSize : ℕ := defaultMaxResponseSize
deriving DecidableEq

namespace HttpTransport

/-- Set the maximum response body size; 0 disables the limit. -/
def withMaxResponseSize (t : HttpTransport) (limit : ℕ) : HttpTransport :=
  { t with maxResponseSize := limit }

/-- Add a static header sent on every request. -/
def withHeader (t : HttpTransport) (name : String) (value : Bytes) : HttpTransport :=
  { t with headers := t.headers.insert name value }

/-- One request: the static headers, and the `authorization` of this attempt, which wins over a static
one. -/
def buildRequest (t : HttpTransport) (request : Bytes) (auth : Option Bytes) : HttpRequest :=
  let headers := t.headers ∪ (∅ : HeaderMap).insert "content-type" (ascii "application/json")
  let headers :=
    match auth with
    | some value => headers.insert "authorization" value
    | none => headers
  { uri := t.uri, headers, body := request }

/-- The number of body bytes that are read at most; 0 stands for `usize::MAX`. -/
def limit (t : HttpTransport) : ℕ := if t.maxResponseSize = 0 then 2 ^ 64 - 1 else t.maxResponseSize

/-- A request carries the credential of its attempt, or else the static one. -/
theorem lookup_authorization (t : HttpTransport) (request : Bytes) (auth : Option Bytes) :
    (t.buildRequest request auth).headers.lookup "authorization" =
      auth.or (t.headers.lookup "authorization") := by
  cases auth with
  | some value => exact AList.lookup_insert _
  | none =>
    show AList.lookup "authorization" (t.headers ∪ _) = _
    by_cases hmem : "authorization" ∈ t.headers
    · exact AList.lookup_union_left hmem
    · rw [AList.lookup_union_right hmem, AList.lookup_insert_ne (by decide), AList.lookup_empty,
        Option.none_or, AList.lookup_eq_none.2 hmem]

end HttpTransport

/-! ## Round trips -/

/-- A point at which a round trip awaits, or its result. -/
inductive RoundTrip where
  /-- It awaits `authorize`, for the first request or for the retry. -/
  | authorizing (retry : Bool)
  /-- It awaits the response. -/
  | requesting (retry : Bool)
  /-- It awaits `on_unauthorized`. -/
  | unauthorized (resp : HttpResponse)
  /-- It awaits more of the body, and has collected some. -/
  | reading (resp : HttpResponse) (collected : Bytes)
  | done (result : Except HttpTransportError Bytes)
  /-- It was dropped, by its caller or at the request timeout. -/
  | dropped
deriving DecidableEq

/-- What a round trip has awaited. -/
inductive RoundTripAction where
  | authorized (result : Except String (Option Bytes))
  | responded (result : Except String HttpResponse)
  /-- `on_unauthorized` asks for a retry, or not. -/
  | decided (again : Bool)
  /-- A piece of the body. -/
  | chunk (data : Bytes)
  /-- The end of the body, or a failure. -/
  | ended (result : Except String Unit)
  | drop
deriving DecidableEq

/-- The result of a response, once the whole of its body has arrived. -/
def HttpTransport.result (t : HttpTransport) (resp : HttpResponse) : Except HttpTransportError Bytes :=
  if ¬ resp.isSuccess ∧ resp.status ≠ 204 then .error (.status resp.status)
  else if t.limit < resp.body.length then .error (.tooLarge t.maxResponseSize)
  else .ok resp.body

theorem HttpTransport.result_eq_ok {t : HttpTransport} {resp : HttpResponse} {bytes : Bytes}
    (h : t.result resp = .ok bytes) :
    resp.isSuccess ∧ resp.body = bytes ∧ bytes.length ≤ t.limit := by
  rw [result] at h
  split_ifs at h with hstatus hlimit
  obtain rfl := Except.ok.inj h
  refine ⟨?_, rfl, Nat.le_of_not_lt hlimit⟩
  by_cases hsuccess : resp.isSuccess
  · exact hsuccess
  · have hnone : resp.status = 204 := by
      by_contra hne
      exact hstatus ⟨hsuccess, hne⟩
    rw [HttpResponse.isSuccess, hnone]
    decide

namespace RoundTrip

/-- The status of a response is checked before its body is read. -/
def receive (resp : HttpResponse) : RoundTrip :=
  if ¬ resp.isSuccess ∧ resp.status ≠ 204 then done (.error (.status resp.status))
  else reading resp []

/-- One step of a round trip of `message`, and the request that it posts, if any. -/
def step (t : HttpTransport) (message : Bytes) :
    RoundTrip → RoundTripAction → Option (RoundTrip × Option (Bool × HttpRequest))
  | authorizing retry, .authorized (.ok auth) =>
    some (requesting retry, some (retry, t.buildRequest message auth))
  | authorizing _, .authorized (.error e) => some (done (.error (.auth e)), none)
  | requesting retry, .responded (.ok resp) =>
    if resp.status = 401 ∧ retry = false then some (unauthorized resp, none)
    else some (receive resp, none)
  | requesting _, .responded (.error e) => some (done (.error (.connect e)), none)
  | unauthorized resp, .decided again =>
    some (if again then authorizing true else receive resp, none)
  | reading resp collected, .chunk data =>
    -- the limit counts down as the pieces arrive
    if data.length > t.limit - collected.length then
      some (done (.error (.tooLarge t.maxResponseSize)), none)
    else some (reading resp (collected ++ data), none)
  | reading _ collected, .ended (.ok ()) => some (done (.ok collected), none)
  | reading _ _, .ended (.error e) => some (done (.error (.body e)), none)
  | done _, .drop | dropped, .drop => none
  | _, .drop => some (dropped, none)
  | _, _ => none

/-- The response, or the piece of its body, has arrived, when the requests are answered by `answer`. -/
def Arrived (answer : Bool → Option HttpResponse) : RoundTrip → RoundTripAction → Prop
  | requesting retry, .responded (.ok resp) => answer retry = some resp
  | reading resp collected, .chunk data => collected ++ data <+: resp.body
  | reading resp collected, .ended (.ok ()) => collected = resp.body
  | _, _ => True

instance (answer : Bool → Option HttpResponse) :
    (p : RoundTrip) → (a : RoundTripAction) → Decidable (p.Arrived answer a)
  | requesting retry, .responded (.ok resp) => inferInstanceAs (Decidable (answer retry = some resp))
  | reading resp collected, .chunk data => inferInstanceAs (Decidable (collected ++ data <+: resp.body))
  | reading resp collected, .ended (.ok ()) => inferInstanceAs (Decidable (collected = resp.body))
  | authorizing _, _ | unauthorized _, _ | done _, _ | dropped, _ => isTrue trivial
  | requesting _, .authorized _ | requesting _, .responded (.error _) | requesting _, .decided _
  | requesting _, .chunk _ | requesting _, .ended _ | requesting _, .drop => isTrue trivial
  | reading _ _, .authorized _ | reading _ _, .responded _ | reading _ _, .decided _
  | reading _ _, .ended (.error _) | reading _ _, .drop => isTrue trivial

/-- The steps of a round trip. -/
inductive Step (t : HttpTransport) (message : Bytes) :
    RoundTrip → RoundTripAction → RoundTrip → Option (Bool × HttpRequest) → Prop where
  | posted {retry : Bool} {auth : Option Bytes} :
    Step t message (authorizing retry) (.authorized (.ok auth)) (requesting retry)
      (some (retry, t.buildRequest message auth))
  | denied {retry : Bool} {e : String} :
    Step t message (authorizing retry) (.authorized (.error e)) (done (.error (.auth e))) none
  | challenged {resp : HttpResponse} (status_eq : resp.status = 401) :
    Step t message (requesting false) (.responded (.ok resp)) (unauthorized resp) none
  | received {retry : Bool} {resp : HttpResponse} :
    Step t message (requesting retry) (.responded (.ok resp)) (receive resp) none
  | failed {retry : Bool} {e : String} :
    Step t message (requesting retry) (.responded (.error e)) (done (.error (.connect e))) none
  | again {resp : HttpResponse} :
    Step t message (unauthorized resp) (.decided true) (authorizing true) none
  | declined {resp : HttpResponse} :
    Step t message (unauthorized resp) (.decided false) (receive resp) none
  | exceeded {resp : HttpResponse} {collected data : Bytes}
    (tooMuch : t.limit < (collected ++ data).length) :
    Step t message (reading resp collected) (.chunk data)
      (done (.error (.tooLarge t.maxResponseSize))) none
  | collected {resp : HttpResponse} {collected data : Bytes}
    (within : data.length ≤ t.limit - collected.length) :
    Step t message (reading resp collected) (.chunk data) (reading resp (collected ++ data)) none
  | ended {resp : HttpResponse} {collected : Bytes} :
    Step t message (reading resp collected) (.ended (.ok ())) (done (.ok collected)) none
  | broken {resp : HttpResponse} {collected : Bytes} {e : String} :
    Step t message (reading resp collected) (.ended (.error e)) (done (.error (.body e))) none
  | dropped {p : RoundTrip} : Step t message p .drop dropped none

theorem Step.of_step {t : HttpTransport} {message : Bytes} {p p' : RoundTrip} {a : RoundTripAction}
    {sent : Option (Bool × HttpRequest)} (h : p.step t message a = some (p', sent)) :
    Step t message p a p' sent := by
  cases p with
  | authorizing retry =>
    rcases a with ⟨_ | _⟩ | _ | _ | _ | _ | _ <;> cases h
    · exact .denied
    · exact .posted
    · exact .dropped
  | requesting retry =>
    rcases a with _ | ⟨_ | resp⟩ | _ | _ | _ | _ <;> try cases h
    · exact .failed
    · rw [step] at h
      split_ifs at h with hstatus
      · obtain ⟨hstatus, rfl⟩ := hstatus
        cases h
        exact .challenged hstatus
      · cases h
        exact .received
    · exact .dropped
  | unauthorized resp =>
    rcases a with _ | _ | ⟨_ | _⟩ | _ | _ | _ <;> cases h
    · exact .declined
    · exact .again
    · exact .dropped
  | reading resp collected =>
    rcases a with _ | _ | _ | data | ⟨_ | _⟩ | _ <;> try cases h
    · rw [step] at h
      split_ifs at h with hover
      · cases h
        refine .exceeded ?_
        rw [List.length_append]
        omega
      · cases h
        exact .collected (Nat.le_of_not_lt hover)
    · exact .broken
    · exact .ended
    · exact .dropped
  | done result => rcases a with _ | _ | _ | _ | _ | _ <;> cases h
  | dropped => rcases a with _ | _ | _ | _ | _ | _ <;> cases h

theorem receive_cases {t : HttpTransport} (resp : HttpResponse) :
    receive resp = done (.error (.status resp.status)) ∧ ¬ resp.isSuccess ∧
        t.result resp = .error (.status resp.status) ∨
      receive resp = reading resp [] ∧ t.result resp =
        if t.limit < resp.body.length then .error (.tooLarge t.maxResponseSize) else .ok resp.body := by
  rw [receive, HttpTransport.result]
  by_cases hstatus : ¬ resp.isSuccess ∧ resp.status ≠ 204
  · rw [if_pos hstatus, if_pos hstatus]
    exact .inl ⟨rfl, hstatus.1, rfl⟩
  · rw [if_neg hstatus, if_neg hstatus]
    exact .inr ⟨rfl, rfl⟩

end RoundTrip

end Jasonrpc
