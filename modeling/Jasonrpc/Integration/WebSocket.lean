import Jasonrpc.Integration.Http
import Jasonrpc.Json.Text

/-!
# JSON-RPC over WebSocket

The loops that drive a router over a WebSocket connection.  Of the library below them this file has
what its `read_frame` and `write_frame` return: the loops see what the successive reads bring, and
`write` says how the write of a frame ends after the frames written so far.  Pongs and the answer to a
close frame are sent by the library, and are not among the frames written here.

The source has the loop twice, with and without a shutdown, and the replies of the loops and of the
HTTP dispatch are computed in three places.  They agree: the text frames written are the bodies of the
HTTP outcomes with the status 200 for the messages that were read (`adapters_agree`).
-/

namespace Jasonrpc

open ByteString

namespace WebSocket

/-- The kinds of frames. -/
inductive OpCode where
  | continuation
  | text
  | binary
  | close
  | ping
  | pong
deriving DecidableEq, Repr

/-- A WebSocket frame, reassembled from its fragments. -/
structure Frame where
  opcode : OpCode
  payload : Bytes
deriving DecidableEq, Repr

def Frame.text (payload : Bytes) : Frame := ⟨.text, payload⟩

/-- A close frame: the status code in network byte order, and the reason. -/
def Frame.close (code : UInt16) (reason : Bytes) : Frame :=
  ⟨.close, (code >>> 8).toUInt8 :: code.toUInt8 :: reason⟩

/-- Errors of the WebSocket library. -/
inductive WebSocketError where
  | connectionClosed
  /-- Any other error, by its text. -/
  | other (message : String)
deriving DecidableEq, Repr

/-- Errors from driving a router over a WebSocket connection. -/
inductive WsError where
  | webSocket (e : WebSocketError)
deriving DecidableEq, Repr

/-- What `read_frame` returns. -/
abbrev Inbound := Except WebSocketError Frame

/-- What `write_frame` returns for a frame, after the frames written so far. -/
abbrev Write := (written : List Frame) → Frame → Except WebSocketError Unit

/-- One poll of the race between `read_frame` and the shutdown. -/
structure Poll where
  /-- What the read brings, if it is ready. -/
  frame : Option Inbound
  /-- Whether the shutdown is ready. -/
  shutdown : Bool

variable {B : Backend} {C σ : Type}

/-- What a loop leaves behind: its result, the frames written, and the reads or polls not made. -/
structure Served (B : Backend) (C σ α : Type) where
  result : Except WsError Unit
  written : List Frame
  world : World B C σ
  rest : List α

/-- The body of a top-level internal error. -/
def internalErrorBody (B : Backend) : Bytes := errorBody (B := B) .internalError

/-- Drive a router until the peer closes the connection or an error occurs; `none` while the next
read is awaited. -/
def serveWithContext (router : Router B C σ) (makeCtx : MakeContext C σ) (write : Write) :
    List Inbound → List Frame → World B C σ → Option (Served B C σ Inbound)
  | [], _, _ => none
  | .error .connectionClosed :: reads, written, w => some ⟨.ok (), written, w, reads⟩
  | .error e :: reads, written, w => some ⟨.error (.webSocket e), written, w, reads⟩
  | .ok frame :: reads, written, w =>
    match frame.opcode with
    | .close => some ⟨.ok (), written, w, reads⟩
    | .text | .binary =>
      let (ctx, w) := makeCtx.next w
      let (output, w) := router.handleBytesWithContext frame.payload ctx w
      let replyBytes :=
        match output.toBytes with
        | .ok (some bytes) => some bytes
        | .ok none => none
        | .error _ => some (internalErrorBody B)
      match replyBytes with
      | some bytes =>
        match write written (.text bytes) with
        | .ok () => serveWithContext router makeCtx write reads (written ++ [.text bytes]) w
        | .error e => some ⟨.error (.webSocket e), written, w, reads⟩
      | none => serveWithContext router makeCtx write reads written w
    | _ => serveWithContext router makeCtx write reads written w

/-- The close frame of a shutdown. -/
def goodbye : Frame := .close 1000 (ascii "server shutting down")

/-- As `serveWithContext`, but stop when the shutdown is ready and no read is. -/
def serveWithContextShutdown (router : Router B C σ) (makeCtx : MakeContext C σ) (write : Write) :
    List Poll → List Frame → World B C σ → Option (Served B C σ Poll)
  | [], _, _ => none
  -- The race is biased: a ready frame comes first.
  | ⟨none, true⟩ :: polls, written, w =>
    match write written goodbye with
    | .ok () => some ⟨.ok (), written ++ [goodbye], w, polls⟩
    | .error _ => some ⟨.ok (), written, w, polls⟩
  | ⟨none, false⟩ :: polls, written, w =>
    serveWithContextShutdown router makeCtx write polls written w
  | ⟨some (.error .connectionClosed), _⟩ :: polls, written, w => some ⟨.ok (), written, w, polls⟩
  | ⟨some (.error e), _⟩ :: polls, written, w => some ⟨.error (.webSocket e), written, w, polls⟩
  | ⟨some (.ok frame), _⟩ :: polls, written, w =>
    match frame.opcode with
    | .close => some ⟨.ok (), written, w, polls⟩
    | .text | .binary =>
      let (ctx, w) := makeCtx.next w
      let (output, w) := router.handleBytesWithContext frame.payload ctx w
      let replyBytes :=
        match output.toBytes with
        | .ok (some bytes) => some bytes
        | .ok none => none
        | .error _ => some (internalErrorBody B)
      match replyBytes with
      | some bytes =>
        match write written (.text bytes) with
        | .ok () =>
          serveWithContextShutdown router makeCtx write polls (written ++ [.text bytes]) w
        | .error e => some ⟨.error (.webSocket e), written, w, polls⟩
      | none => serveWithContextShutdown router makeCtx write polls written w
    | _ => serveWithContextShutdown router makeCtx write polls written w

/-! ## The replies -/

/-- A frame that carries a message. -/
def Frame.IsData (frame : Frame) : Prop := frame.opcode = .text ∨ frame.opcode = .binary

instance (frame : Frame) : Decidable frame.IsData := instDecidableOr

/-- The messages among frames. -/
def messages (frames : List Frame) : List Bytes :=
  (frames.filter fun frame => frame.IsData).map Frame.payload

/-- The text frames of the bodies that the HTTP dispatch sends with the status 200. -/
def textFrames (outcomes : List HttpOutcome) : List Frame :=
  (Http.okBodies outcomes).map .text

/-- The frames that polls have brought. -/
def framesRead (polls : List Poll) : List Frame :=
  polls.filterMap fun poll => poll.frame.bind Except.toOption

/-- What the loop with a shutdown still writes at a poll at which it stops: nothing at the close frame
of the peer, and a close frame of its own when the shutdown is ready and no frame is. -/
def Poll.closing : Poll → Option (List Frame)
  | ⟨some (.ok frame), _⟩ => if frame.opcode = .close then some [] else none
  | ⟨some (.error _), _⟩ => some []
  | ⟨none, shutdown⟩ => if shutdown then some [goodbye] else none

/-- The loop stops at the last of the polls made, and at no poll before. -/
def Stops (made : List Poll) (closing : List Frame) : Prop :=
  ∃ before last, made = before ++ [last] ∧ (∀ poll ∈ before, poll.closing = none) ∧
    last.closing = some closing

theorem Stops.cons {made : List Poll} {closing : List Frame} (h : Stops made closing) {poll : Poll}
    (hpoll : poll.closing = none) : Stops (poll :: made) closing := by
  obtain ⟨before, last, rfl, hbefore, hlast⟩ := h
  exact ⟨poll :: before, last, rfl, List.forall_mem_cons.2 ⟨hpoll, hbefore⟩, hlast⟩

theorem Stops.single {poll : Poll} {closing : List Frame} (h : poll.closing = some closing) :
    Stops [poll] closing :=
  ⟨[], poll, rfl, List.forall_mem_nil _, h⟩

/-- What is replied to an output of the router. -/
def reply (output : Output B) : Option Bytes :=
  match output.toBytes with
  | .ok (some bytes) => some bytes
  | .ok none => none
  | .error _ => some (internalErrorBody B)

/-- The output of the router for a message. -/
def handled (router : Router B C σ) (makeCtx : MakeContext C σ) (message : Bytes)
    (w : World B C σ) : Output B × World B C σ :=
  router.handleBytesWithContext message (makeCtx.next w).1 (makeCtx.next w).2

theorem textFrames_dispatchNext (router : Router B C σ) (makeCtx : MakeContext C σ) (body : Bytes)
    (w : World B C σ) :
    textFrames [(Http.dispatchNext router makeCtx body w).1] =
        (reply (handled router makeCtx body w).1).toList.map .text ∧
      (Http.dispatchNext router makeCtx body w).2 = (handled router makeCtx body w).2 := by
  unfold Http.dispatchNext Http.dispatchWithContext reply handled
  dsimp only
  rcases (router.handleBytesWithContext body (makeCtx.next w).1 (makeCtx.next w).2).1.toBytes with
    e | (_ | bytes)
  · exact ⟨rfl, rfl⟩
  · exact ⟨rfl, rfl⟩
  · exact ⟨rfl, rfl⟩

/-- The HTTP dispatch of the messages among frames, in the state `w`. -/
abbrev viaHttp (router : Router B C σ) (makeCtx : MakeContext C σ) (frames : List Frame)
    (w : World B C σ) : List HttpOutcome × World B C σ :=
  Http.dispatchAll router makeCtx (messages frames) w

/-- A loop that has read `frames` from the state `w` on ends well; it has written the text frames of
the HTTP dispatch of their messages and then the frames `closing`, and left the state of that
dispatch. -/
structure Served.Agrees {α : Type} (served : Served B C σ α) (router : Router B C σ)
    (makeCtx : MakeContext C σ) (frames closing : List Frame) (w : World B C σ) : Prop where
  result_eq : served.result = .ok ()
  written_eq : served.written = textFrames (viaHttp router makeCtx frames w).1 ++ closing
  world_eq : served.world = (viaHttp router makeCtx frames w).2

section Loop

variable {router : Router B C σ} {makeCtx : MakeContext C σ} {write : Write} {frame : Frame}

theorem viaHttp_data (router : Router B C σ) (makeCtx : MakeContext C σ) (hdata : frame.IsData)
    (frames : List Frame) (w : World B C σ) :
    textFrames (viaHttp router makeCtx (frame :: frames) w).1 =
        textFrames [(Http.dispatchNext router makeCtx frame.payload w).1] ++
          textFrames (viaHttp router makeCtx frames
            (Http.dispatchNext router makeCtx frame.payload w).2).1 ∧
      (viaHttp router makeCtx (frame :: frames) w).2 =
        (viaHttp router makeCtx frames (Http.dispatchNext router makeCtx frame.payload w).2).2 := by
  have hmessages : messages (frame :: frames) = frame.payload :: messages frames := by
    simp [messages, hdata]
  unfold viaHttp
  rw [hmessages, Http.dispatchAll]
  refine ⟨?_, rfl⟩
  unfold textFrames
  rw [Http.okBodies_cons, List.map_append]

theorem viaHttp_skip (hdata : ¬ frame.IsData) (frames : List Frame) (w : World B C σ) :
    viaHttp router makeCtx (frame :: frames) w = viaHttp router makeCtx frames w := by
  have hmessages : messages (frame :: frames) = messages frames := by simp [messages, hdata]
  rw [viaHttp, hmessages]

theorem serveWithContext_skip (hdata : ¬ frame.IsData) (hopen : frame.opcode ≠ .close)
    (reads : List Inbound) (written : List Frame) (w : World B C σ) :
    serveWithContext router makeCtx write (.ok frame :: reads) written w =
      serveWithContext router makeCtx write reads written w := by
  obtain ⟨htext, hbinary⟩ := not_or.1 hdata
  rw [serveWithContext]
  cases hopcode : frame.opcode with
  | close => exact absurd hopcode hopen
  | text => exact absurd hopcode htext
  | binary => exact absurd hopcode hbinary
  | continuation | ping | pong => rfl

theorem serveWithContextShutdown_skip (hdata : ¬ frame.IsData) (hopen : frame.opcode ≠ .close)
    (shutdown : Bool) (polls : List Poll) (written : List Frame) (w : World B C σ) :
    serveWithContextShutdown router makeCtx write (⟨some (.ok frame), shutdown⟩ :: polls) written w =
      serveWithContextShutdown router makeCtx write polls written w := by
  obtain ⟨htext, hbinary⟩ := not_or.1 hdata
  rw [serveWithContextShutdown]
  cases hopcode : frame.opcode with
  | close => exact absurd hopcode hopen
  | text => exact absurd hopcode htext
  | binary => exact absurd hopcode hbinary
  | continuation | ping | pong => rfl

variable (hwrite : ∀ written frame, write written frame = .ok ())
include hwrite

/-- What goes on as `next` after a message, behind the reply to it if there is one, goes on behind the
text frame of the HTTP dispatch. -/
theorem match_reply_eq {α : Type} (router : Router B C σ) (makeCtx : MakeContext C σ)
    (message : Bytes) (written : List Frame) (w : World B C σ)
    (next : List Frame → World B C σ → α) (failed : WebSocketError → α) :
    (match reply (handled router makeCtx message w).1 with
      | some bytes =>
        match write written (.text bytes) with
        | .ok () => next (written ++ [.text bytes]) (handled router makeCtx message w).2
        | .error e => failed e
      | none => next written (handled router makeCtx message w).2) =
      next (written ++ textFrames [(Http.dispatchNext router makeCtx message w).1])
        (Http.dispatchNext router makeCtx message w).2 := by
  obtain ⟨hreply, hworld⟩ := textFrames_dispatchNext router makeCtx message w
  rw [hreply, hworld]
  cases reply (handled router makeCtx message w).1 with
  | none =>
    dsimp only
    rw [Option.toList_none, List.map_nil, List.append_nil]
  | some bytes =>
    dsimp only
    rw [hwrite]
    rfl

theorem serveWithContext_data (hdata : frame.IsData) (reads : List Inbound) (written : List Frame)
    (w : World B C σ) :
    serveWithContext router makeCtx write (.ok frame :: reads) written w =
      serveWithContext router makeCtx write reads
        (written ++ textFrames [(Http.dispatchNext router makeCtx frame.payload w).1])
        (Http.dispatchNext router makeCtx frame.payload w).2 := by
  have hreply := match_reply_eq hwrite router makeCtx frame.payload written w
    (serveWithContext router makeCtx write reads) fun e =>
      some ⟨.error (.webSocket e), written, (handled router makeCtx frame.payload w).2, reads⟩
  rw [← hreply, serveWithContext]
  rcases hdata with hdata | hdata <;> rw [hdata] <;> rfl

theorem serveWithContextShutdown_data (hdata : frame.IsData) (shutdown : Bool) (polls : List Poll)
    (written : List Frame) (w : World B C σ) :
    serveWithContextShutdown router makeCtx write (⟨some (.ok frame), shutdown⟩ :: polls) written w =
      serveWithContextShutdown router makeCtx write polls
        (written ++ textFrames [(Http.dispatchNext router makeCtx frame.payload w).1])
        (Http.dispatchNext router makeCtx frame.payload w).2 := by
  have hreply := match_reply_eq hwrite router makeCtx frame.payload written w
    (serveWithContextShutdown router makeCtx write polls) fun e =>
      some ⟨.error (.webSocket e), written, (handled router makeCtx frame.payload w).2, polls⟩
  rw [← hreply, serveWithContextShutdown]
  rcases hdata with hdata | hdata <;> rw [hdata] <;> rfl

/-! ## Runs of the loops -/

/-- Frames before the close frame are answered as the HTTP dispatch answers their messages. -/
theorem serveWithContext_append {frames : List Frame} (hopen : ∀ frame ∈ frames, frame.opcode ≠ .close)
    (reads : List Inbound) (written : List Frame) (w : World B C σ) :
    serveWithContext router makeCtx write (frames.map .ok ++ reads) written w =
      serveWithContext router makeCtx write reads
        (written ++ textFrames (viaHttp router makeCtx frames w).1)
        (viaHttp router makeCtx frames w).2 := by
  induction frames generalizing written w with
  | nil =>
    rw [show textFrames (viaHttp router makeCtx [] w).1 = [] from rfl, List.append_nil]
    rfl
  | cons frame frames ih =>
    obtain ⟨hfirst, hrest⟩ := List.forall_mem_cons.1 hopen
    rw [List.map_cons, List.cons_append]
    by_cases hdata : frame.IsData
    · obtain ⟨htext, hworld⟩ := viaHttp_data router makeCtx hdata frames w
      rw [serveWithContext_data hwrite hdata, ih hrest, htext, hworld, List.append_assoc]
    · rw [serveWithContext_skip hdata hfirst, ih hrest, viaHttp_skip hdata]

/-- The loop with a shutdown stops at the close frame or when the shutdown is ready and no frame is, and
has answered the messages that it has read as the HTTP dispatch answers them. -/
theorem exists_serveWithContextShutdown (router : Router B C σ) (makeCtx : MakeContext C σ)
    {close : Frame} (hclose : close.opcode = .close) {polls : List Poll} {frames : List Frame}
    (hopen : ∀ frame ∈ frames, frame.opcode ≠ .close)
    (hpolls : polls.filterMap Poll.frame = frames.map .ok ++ [.ok close]) (written : List Frame)
    (w : World B C σ) :
    ∃ made rest closing, polls = made ++ rest ∧ (closing = [] ∨ closing = [goodbye]) ∧
      Stops made closing ∧ serveWithContextShutdown router makeCtx write polls written w =
        some ⟨.ok (), written ++ textFrames (viaHttp router makeCtx (framesRead made) w).1 ++ closing,
          (viaHttp router makeCtx (framesRead made) w).2, rest⟩ := by
  induction polls generalizing frames written w with
  | nil => simp at hpolls
  | cons poll polls ih =>
    obtain ⟨inbound, shutdown⟩ := poll
    cases inbound with
    | none =>
      cases shutdown with
      | true =>
        refine ⟨[⟨none, true⟩], polls, [goodbye], rfl, .inr rfl, .single rfl, ?_⟩
        have hnone : textFrames (viaHttp router makeCtx (framesRead [⟨none, true⟩]) w).1 = [] := rfl
        rw [serveWithContextShutdown, hwrite, hnone, List.append_nil]
        rfl
      | false =>
        obtain ⟨made, rest, closing, rfl, hclosing, hstops, hserve⟩ := ih hopen hpolls written w
        refine ⟨⟨none, false⟩ :: made, rest, closing, rfl, hclosing, hstops.cons rfl, ?_⟩
        rw [serveWithContextShutdown, hserve]
        rfl
    | some inbound =>
      have hpolls : inbound :: polls.filterMap Poll.frame = frames.map .ok ++ [.ok close] := hpolls
      cases frames with
      | nil =>
        obtain ⟨rfl, -⟩ := List.cons.inj hpolls
        have hstop : (⟨some (.ok close), shutdown⟩ : Poll).closing = some [] := if_pos hclose
        refine ⟨[⟨some (.ok close), shutdown⟩], polls, [], rfl, .inl rfl, .single hstop, ?_⟩
        have hskip : framesRead [⟨some (.ok close), shutdown⟩] = [close] := rfl
        have hdata : ¬ close.IsData := by
          unfold Frame.IsData
          rw [hclose]
          decide
        rw [serveWithContextShutdown, hclose, hskip, viaHttp_skip hdata, List.append_nil]
        rw [show textFrames (viaHttp router makeCtx [] w).1 = [] from rfl, List.append_nil]
        rfl
      | cons frame frames =>
        obtain ⟨rfl, htail⟩ := List.cons.inj hpolls
        obtain ⟨hfirst, hrest⟩ := List.forall_mem_cons.1 hopen
        have hgoesOn : (⟨some (.ok frame), shutdown⟩ : Poll).closing = none := if_neg hfirst
        have hread (made : List Poll) :
            framesRead (⟨some (.ok frame), shutdown⟩ :: made) = frame :: framesRead made := rfl
        by_cases hdata : frame.IsData
        · rw [serveWithContextShutdown_data hwrite hdata]
          obtain ⟨made, rest, closing, rfl, hclosing, hstops, hserve⟩ := ih hrest htail
            (written ++ textFrames [(Http.dispatchNext router makeCtx frame.payload w).1])
            (Http.dispatchNext router makeCtx frame.payload w).2
          obtain ⟨htext, hworld⟩ := viaHttp_data router makeCtx hdata (framesRead made) w
          refine ⟨⟨some (.ok frame), shutdown⟩ :: made, rest, closing, rfl, hclosing,
            hstops.cons hgoesOn, ?_⟩
          rw [hserve, hread, htext, hworld, ← List.append_assoc]
        · rw [serveWithContextShutdown_skip hdata hfirst]
          obtain ⟨made, rest, closing, rfl, hclosing, hstops, hserve⟩ := ih hrest htail written w
          refine ⟨⟨some (.ok frame), shutdown⟩ :: made, rest, closing, rfl, hclosing,
            hstops.cons hgoesOn, ?_⟩
          rw [hserve, hread, viaHttp_skip hdata]

end Loop

/-- Both loops answer the messages that they read, up to the close frame or up to the shutdown, as the
HTTP dispatch answers them one after another; the loop with a shutdown stops at the first poll that
brings the close frame, or no frame while the shutdown is ready, and writes at most its close frame
besides, and last. -/
theorem adapters_agree (router : Router B C σ) (makeCtx : MakeContext C σ) (write : Write)
    (hwrite : ∀ written frame, write written frame = .ok ()) (frames : List Frame)
    (hopen : ∀ frame ∈ frames, frame.opcode ≠ .close) (close : Frame)
    (hclose : close.opcode = .close) (w : World B C σ) :
    (∃ served, serveWithContext router makeCtx write (frames.map .ok ++ [.ok close]) [] w =
        some served ∧ served.rest = [] ∧ served.Agrees router makeCtx frames [] w) ∧
    ∀ polls : List Poll, polls.filterMap Poll.frame = frames.map .ok ++ [.ok close] →
      ∃ served made closing, serveWithContextShutdown router makeCtx write polls [] w = some served ∧
        polls = made ++ served.rest ∧ (closing = [] ∨ closing = [goodbye]) ∧ Stops made closing ∧
          served.Agrees router makeCtx (framesRead made) closing w := by
  constructor
  · have hserve : serveWithContext router makeCtx write (frames.map .ok ++ [.ok close]) [] w =
        some ⟨.ok (), textFrames (viaHttp router makeCtx frames w).1,
          (viaHttp router makeCtx frames w).2, []⟩ := by
      rw [serveWithContext_append hwrite hopen, serveWithContext, hclose]
      rfl
    exact ⟨_, hserve, rfl, rfl, (List.append_nil _).symm, rfl⟩
  · intro polls hpolls
    obtain ⟨made, rest, closing, hmade, hclosing, hstops, hserve⟩ :=
      exists_serveWithContextShutdown hwrite router makeCtx hclose hopen hpolls [] w
    exact ⟨_, made, closing, hserve, hmade, hclosing, hstops, rfl, rfl, rfl⟩

/-- A method that counts its calls. -/
def counter : Router JsonText.backend Unit ℕ :=
  { methods := [("count", .handler fun _ n => (.ok (JsonText.backend.int (.ofNat n)), n + 1))] }

/-- A request to count. -/
def countRequest : Frame :=
  .text (ascii "\x7b\"jsonrpc\":\"2.0\",\"method\":\"count\",\"id\":1\x7d")

/-- A request that is ready together with the shutdown, a ping, and the shutdown before the close
frame. -/
def countThenStop : List Poll :=
  [⟨none, false⟩, ⟨some (.ok countRequest), true⟩, ⟨some (.ok ⟨.ping, []⟩), true⟩, ⟨none, true⟩,
    ⟨some (.ok (.close 1000 [])), true⟩]

/-- The reply to it. -/
def countReply : Frame :=
  .text (ascii "\x7b\"jsonrpc\":\"2.0\",\"result\":0,\"id\":1\x7d")

/-- The request is answered, and the shutdown is taken at the fourth poll. -/
theorem adapters_agree_countThenStop :
    ∃ served, serveWithContextShutdown counter (fun n => ((), n)) (fun _ _ => .ok ())
        countThenStop [] ⟨0, []⟩ = some served ∧ served.written = [countReply, goodbye] ∧
      countThenStop = countThenStop.take 4 ++ served.rest ∧
        Stops (countThenStop.take 4) [goodbye] ∧
          served.Agrees counter (fun n => ((), n)) (framesRead (countThenStop.take 4)) [goodbye]
            ⟨0, []⟩ := by
  obtain ⟨served, made, closing, hserve, hmade, -, hstops, hagrees⟩ :=
    (adapters_agree counter (fun n => ((), n)) (fun _ _ => .ok ()) (fun _ _ => rfl)
      [countRequest, ⟨.ping, []⟩] (by decide) (.close 1000 []) rfl ⟨0, []⟩).2 countThenStop rfl
  have hresult : (serveWithContextShutdown counter (fun n => ((), n)) (fun _ _ => .ok ())
      countThenStop [] ⟨0, []⟩).map (fun served => (served.written, served.rest.length)) =
        some ([countReply, goodbye], 1) := by
    decide +kernel
  rw [hserve] at hresult
  obtain ⟨hwritten, hrest⟩ := Prod.mk.inj (Option.some.inj hresult)
  obtain rfl : made = countThenStop.take 4 := by
    have hlength : made.length = 4 := by
      have hlength := congrArg List.length hmade
      rw [List.length_append, hrest] at hlength
      exact (Nat.succ.inj hlength).symm
    rw [hmade, ← hlength, List.take_left]
  obtain ⟨before, last, hlast, -, hclosing⟩ := id hstops
  have htake : countThenStop.take 4 = countThenStop.take 3 ++ [⟨none, true⟩] := rfl
  obtain ⟨-, hlast⟩ := List.append_inj' (htake.symm.trans hlast) rfl
  obtain rfl := (List.cons.inj hlast).1
  obtain rfl : [goodbye] = closing := Option.some.inj hclosing
  exact ⟨served, hserve, hwritten, hmade, hstops, hagrees⟩

end WebSocket

end Jasonrpc
