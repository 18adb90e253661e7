import Jasonrpc.Client
import Jasonrpc.Json.Text
import Jasonrpc.Server

/-!
# One call from end to end

A call is encoded by the client, dispatched by the router, and its reply is decoded by the client.
The two ends meet only on the wire, where an optional raw value that is `null` reads back as absent.
So the outcome of a handler reaches the caller just when it is not `null` there (`callLaw_iff`).
-/

namespace Jasonrpc

open ByteString

variable {B : Backend} {C σ P T E : Type}

/-- The outcome of a handler survives the wire: its value, or the data of its error, is not
`null`. -/
def Survives (B : Backend) : Except (Error B) B.Raw → Prop
  | .ok raw => (B.shape raw).isNull = false
  | .error e => ∀ data, e.data = some data → (B.shape data).isNull = false

/-- The call law for the encoded request `bytes` of method `method` with params `params`, sent with
id `id`, when the registered method `m` of the router handles it: `req` is the request the handler
sees, `reply` the bytes the client receives. -/
structure CallLaw [Inhabited C] (E : Type) (router : Router B C σ) (method : String)
    (m : Method B C σ) (params : B.Raw) (bytes : Bytes) (id : Id) (w : World B C σ)
    (req : Request B) (reply : Bytes) : Prop where
  /-- The handler is invoked exactly once. -/
  invoked : (router.handleBytes bytes w).2.calls = w.calls ++ [m.invocation req default]
  method_eq : req.method = method
  paramsAs_eq {T : Type} (d : Deserialize B T) : req.paramsAs d = d params
  sent : (router.handleBytes bytes w).1.toBytes = .ok (some reply)
  /-- A value is read back at its own type. -/
  value {raw : B.Raw} {T : Type} {d : Deserialize B T} {v : T} :
    (m.outcome req default w.state).1 = .ok raw → d raw = some v →
      decodeResult E d reply id = .ok v
  /-- An error arrives with its code, message and data. -/
  error {e : Error B} {T : Type} (d : Deserialize B T) :
    (m.outcome req default w.state).1 = .error e →
      ∃ e', decodeResult E d reply id = .error (.rpc e') ∧ e'.eq e

section Law

variable (law : B.Lawful)
include law

theorem handleBytes_request [Inhabited C] (router : Router B C σ) (req : Request B)
    (w : World B C σ) :
    router.handleBytes (B.get req.serialize) w =
      (.ofOption (router.handleRequestWithContext req.readBack default w).1,
        (router.handleRequestWithContext req.readBack default w).2) := by
  have hparse : fromSlice Request.deserialize (B.get req.serialize) = .ok req.readBack := by
    rw [fromSlice_get law, deserializeFrom, Request.deserialize_serialize law]
  have hobj : IsObject req.serialize := ⟨req.members, law.shape_map _⟩
  rw [Router.handleBytes, router.handleBytesWithContext_object law (law.parse_get _) hobj,
    Router.handleElementBytesWithContext, hparse]

theorem paramsAs_readBack (req : Request B) {raw : B.Raw} (h : req.params = some raw)
    (d : Deserialize B T) : req.readBack.paramsAs d = d raw := by
  rw [req.paramsAs_readBack law, Request.paramsAs, h]
  dsimp only
  rw [fromRawValue_eq law, toOption_deserializeFrom]

theorem decodeResult_response (d : Deserialize B T) (resp : Response B) :
    decodeResult E d (B.get resp.serialize) resp.id =
      match resp.readBack.result, resp.readBack.error with
      | some raw, none => (deserializeFrom d raw).mapError .protocol
      | none, some e => .error (.rpc e)
      | _, _ => .error .malformedResponse := by
  have hparse : fromSlice Response.deserialize (B.get resp.serialize) = .ok resp.readBack := by
    rw [fromSlice_get law, deserializeFrom, Response.deserialize_serialize law]
  have hid : resp.readBack.id = resp.id := rfl
  rw [decodeResult, hparse]
  simp only [Except.mapError, bind, Except.bind, hid]
  cases resp.readBack.result <;> cases resp.readBack.error <;>
    simp [fromRawValue_eq law, throw, throwThe, MonadExceptOf.throw]

/-- A registered method answers a call with its outcome. -/
theorem handleBytes_call [Inhabited C] {router : Router B C σ} {m : Method B C σ}
    {req : Request B} {id : Id} (hm : router.methods.lookup req.method = some m)
    (hid : req.id = some id) (w : World B C σ) :
    router.handleBytes (B.get req.serialize) w =
      (.single (respond id (m.outcome req.readBack default w.state).1),
        ⟨(m.outcome req.readBack default w.state).2,
          w.calls ++ [m.invocation req.readBack default]⟩) := by
  have hm' : router.methods.lookup req.readBack.method = some m := hm
  have hid' : req.readBack.id = some id := hid
  rw [handleBytes_request law, Router.handleRequestWithContext, hm']
  simp only [Request.isNotification, hid', Option.isNone_some, Bool.false_eq_true, if_false,
    Option.getD_some, Option.map_some, Method.call, Output.ofOption]

/-- A value arrives just when it is not `null`. -/
theorem decodeResult_value (id : Id) (raw : B.Raw) :
    (∀ {T : Type} {d : Deserialize B T} {v : T}, d raw = some v →
        decodeResult E d (B.get (respond id (.ok raw)).serialize) id = .ok v) ↔
      (B.shape raw).isNull = false := by
  have hdecode {T : Type} (d : Deserialize B T) :=
    decodeResult_response law (E := E) d (respond id (.ok raw))
  simp only [respond, Response.fromRawResult, Response.readBack, readBack, Option.filter_some,
    Option.map_none] at hdecode ⊢
  cases hnull : (B.shape raw).isNull with
  | false =>
    refine iff_of_true (fun {T d v} hv => ?_) rfl
    simp [hdecode, hnull, deserializeFrom, hv, Except.mapError]
  | true =>
    refine iff_of_false (fun h => ?_) (by decide)
    have hraw := h (d := deserializeValue) rfl
    rw [hdecode, hnull] at hraw
    cases hraw

/-- An error arrives just when its data is not `null`. -/
theorem decodeResult_error (id : Id) (e : Error B) :
    (∀ {T : Type} (d : Deserialize B T), ∃ e',
        decodeResult E d (B.get (respond id (.error e)).serialize) id = .error (.rpc e') ∧ e'.eq e) ↔
      ∀ data, e.data = some data → (B.shape data).isNull = false := by
  have hdecode {T : Type} (d : Deserialize B T) :
      decodeResult E d (B.get (respond id (.error e)).serialize) id = .error (.rpc e.readBack) :=
    decodeResult_response law d (respond id (.error e))
  have hdata : e.readBack.data = e.data.filter fun r => !(B.shape r).isNull := rfl
  constructor
  · intro h data hsome
    obtain ⟨e', he', -, -, heq⟩ := h deserializeValue
    rw [hdecode] at he'
    obtain rfl := ClientError.rpc.inj (Except.error.inj he')
    rw [hdata, hsome, Option.filter_some] at heq
    cases hnull : (B.shape data).isNull with
    | false => rfl
    | true =>
      rw [hnull] at heq
      cases heq
  · intro h T d
    refine ⟨e.readBack, hdecode d, rfl, rfl, ?_⟩
    rw [hdata]
    cases hsome : e.data with
    | none => rfl
    | some data => rw [Option.filter_some, h data hsome, Bool.not_false, if_pos rfl]

/-- The request a handler gets from an encoded call. -/
def receivedRequest (method : String) (params : B.Raw) (id : Id) : Request B :=
  Request.readBack { method, params := some params, id := some id }

/-- The call law of an encoded call holds just when the outcome of its handler survives the wire. -/
theorem exists_callLaw_iff [Inhabited C] (E : Type) {router : Router B C σ} {call : Request B}
    {m : Method B C σ} (hm : router.methods.lookup call.method = some m) {raw : B.Raw}
    (hparams : call.params = some raw) {id : Id} (hid : call.id = some id) (w : World B C σ) :
    (∃ req reply, CallLaw E router call.method m raw (B.get call.serialize) id w req reply) ↔
      Survives B (m.outcome call.readBack default w.state).1 := by
  generalize houtcome : (m.outcome call.readBack default w.state).1 = outcome
  have hhandle : router.handleBytes (B.get call.serialize) w = (.single (respond id outcome),
      ⟨(m.outcome call.readBack default w.state).2,
        w.calls ++ [m.invocation call.readBack default]⟩) :=
    houtcome ▸ handleBytes_call law hm hid w
  have hsent : (Output.single (respond id outcome)).toBytes =
      .ok (some (B.get (respond id outcome).serialize)) := rfl
  constructor
  · rintro ⟨req, reply, hlaw⟩
    have hinvoked := hlaw.invoked
    have hreply := hlaw.sent
    rw [hhandle] at hinvoked hreply
    obtain rfl := m.invocation_injective (List.singleton_inj.1 (List.append_cancel_left hinvoked))
    rw [hsent] at hreply
    obtain rfl := Option.some.inj (Except.ok.inj hreply)
    cases outcome with
    | ok raw => exact (decodeResult_value law (E := E) id raw).1 fun hv => hlaw.value houtcome hv
    | error e => exact (decodeResult_error law (E := E) id e).1 fun d => hlaw.error d houtcome
  · intro hsurvives
    refine ⟨call.readBack, B.get (respond id outcome).serialize, ?_⟩
    refine ⟨by rw [hhandle], rfl, paramsAs_readBack law _ hparams, by rw [hhandle, hsent], ?_, ?_⟩
    · intro raw' T d v hok hv
      obtain rfl := houtcome.symm.trans hok
      exact (decodeResult_value law id raw').2 hsurvives hv
    · intro e T d herr
      obtain rfl := houtcome.symm.trans herr
      exact (decodeResult_error law id e).2 hsurvives d

/-- A call whose params serialize obeys the call law just when the outcome of its handler survives
the wire, that is when neither the value nor the error data is `null`. -/
theorem callLaw_iff [Inhabited C] (E : Type) (router : Router B C σ) (method : String)
    (m : Method B C σ) (hm : router.methods.lookup method = some m) (s : Serialize B P)
    (params : P) (raw : B.Raw) (hparams : s params = .ok raw) (id : Id) (w : World B C σ) :
    ∃ bytes, encodeCall E method s params id = .ok (bytes, id) ∧
      ((∃ req reply, CallLaw E router method m raw bytes id w req reply) ↔
        Survives B (m.outcome (receivedRequest method raw id) default w.state).1) := by
  let call : Request B := { method, params := some raw, id := some id }
  have hcall : router.methods.lookup call.method = some m := hm
  exact ⟨B.get call.serialize, encodeCall_eq_ok hparams, exists_callLaw_iff law E hcall rfl rfl w⟩

end Law

/-! ## Every outcome of a call -/

/-- What the client reads of the outcome of a handler: a `null` value is a malformed response, and
`null` data of an error is absent. -/
def readOutcome (E : Type) (d : Deserialize B T) :
    Except (Error B) B.Raw → Except (ClientError B E) T
  | .ok raw =>
    if (B.shape raw).isNull then .error .malformedResponse
    else (deserializeFrom d raw).mapError .protocol
  | .error e => .error (.rpc e.readBack)

/-- A call of `method` with the params `raw` takes effect in the world `w`: `message` is dispatched
there with the context `ctx`, and `reply` is what the client gets. -/
structure CallEffect (E : Type) (router : Router B C σ) (ctx : C) (w : World B C σ)
    (method : String) (raw : B.Raw) (message : Bytes) (id : Id) (reply : Bytes) : Prop where
  /-- The handler is invoked once, and leaves its state. -/
  invoked {m : Method B C σ} : router.methods.lookup method = some m →
    (router.handleBytesWithContext message ctx w).2 =
      ⟨(m.outcome (receivedRequest method raw id) ctx w.state).2,
        w.calls ++ [m.invocation (receivedRequest method raw id) ctx]⟩
  /-- It reads the params of the call. -/
  params {P : Type} (d : Deserialize B P) : (receivedRequest method raw id).paramsAs d = d raw
  /-- The client reads what it returns. -/
  answer {m : Method B C σ} {T : Type} (d : Deserialize B T) :
    router.methods.lookup method = some m → decodeResult E d reply id =
      readOutcome E d (m.outcome (receivedRequest method raw id) ctx w.state).1
  /-- Without a handler nothing happens, and the client reads that there is no such method. -/
  missing {T : Type} (d : Deserialize B T) : router.methods.lookup method = none →
    (router.handleBytesWithContext message ctx w).2 = w ∧
      decodeResult E d reply id = .error (.rpc .methodNotFound)

section Law

variable (law : B.Lawful)
include law

theorem decodeResult_respond (d : Deserialize B T) (id : Id) (outcome : Except (Error B) B.Raw) :
    decodeResult E d (B.get (respond id outcome).serialize) id = readOutcome E d outcome := by
  have hdecode := decodeResult_response law (E := E) d (respond id outcome)
  cases outcome with
  | error e => exact hdecode
  | ok raw =>
    simp only [respond, Response.fromRawResult, Response.readBack, readBack, Option.filter_some,
      Option.map_none] at hdecode ⊢
    rw [hdecode, readOutcome]
    cases (B.shape raw).isNull <;> rfl

/-- A call that is dispatched takes effect. -/
theorem callEffect_of_sent [Inhabited C] (E : Type) (router : Router B C σ) (method : String)
    (raw : B.Raw) (id : Id) (w : World B C σ) {message reply : Bytes}
    (hmessage : message = B.get { method, params := some raw, id := some id : Request B }.serialize)
    (hsent : (router.handleBytes message w).1.toBytes = .ok (some reply)) :
    CallEffect E router default w method raw message id reply := by
  let call : Request B := { method, params := some raw, id := some id }
  have hparams {P : Type} (d : Deserialize B P) : call.readBack.paramsAs d = d raw :=
    paramsAs_readBack law call rfl d
  subst hmessage
  cases hlookup : router.methods.lookup method with
  | some m =>
    have hhandle : router.handleBytes (B.get call.serialize) w = _ :=
      handleBytes_call law hlookup rfl w
    rw [hhandle] at hsent
    obtain rfl := Option.some.inj (Except.ok.inj hsent)
    refine ⟨fun h => ?_, hparams, fun d h => ?_, fun d h => by cases hlookup.symm.trans h⟩
    · obtain rfl := Option.some.inj (hlookup.symm.trans h)
      exact congrArg Prod.snd hhandle
    · obtain rfl := Option.some.inj (hlookup.symm.trans h)
      exact decodeResult_respond law d id _
  | none =>
    have hreadBack : router.methods.lookup call.readBack.method = none := hlookup
    have hhandle : router.handleBytes (B.get call.serialize) w =
        (.single (respond id (.error .methodNotFound)), w) := by
      rw [handleBytes_request law, Router.handleRequestWithContext, hreadBack]
      rfl
    rw [hhandle] at hsent
    obtain rfl := Option.some.inj (Except.ok.inj hsent)
    refine ⟨fun h => ?_, hparams, fun d h => ?_, fun d _ => ?_⟩
    · cases hlookup.symm.trans h
    · cases hlookup.symm.trans h
    exact ⟨congrArg Prod.snd hhandle, decodeResult_respond law d id _⟩

end Law

/-! ## A method that answers with a fixed outcome -/

section Fixed

open JsonText

/-- A handler without state that always has the outcome `outcome`. -/
def fixedMethod (outcome : Except (Error backend) backend.Raw) : Method backend Unit Unit :=
  .handler fun _ state => (outcome, state)

/-- A router with one such method. -/
def fixedRouter (outcome : Except (Error backend) backend.Raw) : Router backend Unit Unit :=
  { methods := [("get", fixedMethod outcome)] }

/-- A call of `get` with `null` params. -/
def getCall : Request backend :=
  { method := "get", params := some backend.null, id := some (.number 1) }

theorem exists_callLaw_fixed_iff (outcome : Except (Error backend) backend.Raw) :
    (∃ req reply, CallLaw Unit (fixedRouter outcome) getCall.method (fixedMethod outcome)
        backend.null (backend.get getCall.serialize) (.number 1) ⟨(), []⟩ req reply) ↔
      Survives backend outcome := by
  apply exists_callLaw_iff lawful
  · show (fixedRouter outcome).methods.lookup getCall.method = some (fixedMethod outcome)
    rfl
  · rfl
  · rfl

/-- The answer 42 arrives. -/
theorem callLaw_answer : ∃ bytes,
    encodeCall Unit "get" (fun _ : Unit => .ok backend.null) () (.number 1) =
        .ok (bytes, .number 1) ∧
      ∃ req reply, CallLaw Unit (fixedRouter (.ok (backend.int 42))) "get"
        (fixedMethod (.ok (backend.int 42))) backend.null bytes (.number 1) ⟨(), []⟩ req reply := by
  obtain ⟨bytes, hencode, hiff⟩ := callLaw_iff lawful Unit (fixedRouter (.ok (backend.int 42)))
    "get" (fixedMethod (.ok (backend.int 42))) rfl (fun _ : Unit => .ok backend.null) () backend.null
    rfl (.number 1) ⟨(), []⟩
  refine ⟨bytes, hencode, hiff.2 ?_⟩
  show (backend.shape (backend.int 42)).isNull = false
  rw [lawful.shape_int, if_neg (by decide)]
  rfl

/-- A value that is `null` is a malformed response to the caller, and error data that is `null` is
lost. -/
theorem not_callLaw_null : ∃ bytes,
    encodeCall Unit "get" (fun _ : Unit => .ok backend.null) () (.number 1) =
        .ok (bytes, .number 1) ∧
      (¬ ∃ req reply, CallLaw Unit (fixedRouter (.ok backend.null)) "get"
        (fixedMethod (.ok backend.null)) backend.null bytes (.number 1) ⟨(), []⟩ req reply) ∧
      ¬ ∃ req reply, CallLaw Unit (fixedRouter (.error ⟨-32000, "boom", some backend.null⟩)) "get"
        (fixedMethod (.error ⟨-32000, "boom", some backend.null⟩)) backend.null bytes (.number 1)
        ⟨(), []⟩ req reply := by
  refine ⟨backend.get getCall.serialize, rfl, fun h => ?_, fun h => ?_⟩
  · cases (exists_callLaw_fixed_iff _).1 h
  · cases (exists_callLaw_fixed_iff _).1 h backend.null rfl

end Fixed

end Jasonrpc
