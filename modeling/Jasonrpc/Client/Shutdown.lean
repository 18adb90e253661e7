import Jasonrpc.Client.Multiplex
import Jasonrpc.Json.Text

/-!
# The end of a multiplexed connection

When the reader ends it drops every pending sender, so that no call waits forever.  This holds as
long as no sender is inserted after that (`noneStranded`); the test of `connected` does not exclude
it, since the reader can end between the test and the insertion (`exists_stranded`).
-/

namespace Jasonrpc

open ByteString Machine

namespace MultiplexTransport

variable {B : Backend} {f : Framing}

/-- Once the reader has returned, the sender of no waiting call is in the map, and the channel of
every waiting call resolves. -/
def NoneStranded (B : Backend) (f : Framing) (s : MultiplexTransport) : Prop :=
  s.reader = .returned → ∀ c call, s.calls c = some call → call.phase = .waiting →
    (∀ id, s.pending id ≠ some c) ∧ ∃ s', s.step B f (.call c .receive) = some s'

/-- A step does not insert a sender after the reader has returned. -/
def InsertsBeforeReturn (s : MultiplexTransport) : Action → Prop
  | .call _ .insert => s.reader ≠ .returned
  | _ => True

instance (s : MultiplexTransport) (a : Action) : Decidable (s.InsertsBeforeReturn a) := by
  unfold InsertsBeforeReturn
  split <;> infer_instance

/-- Once the reader has returned, the map is empty. -/
def ClearedAtReturn (s : MultiplexTransport) : Prop :=
  s.reader = .returned → ∀ id, s.pending id = none

theorem ClearedAtReturn.step {s s' : MultiplexTransport} {a : Action} (h : s.ClearedAtReturn)
    (hok : s.InsertsBeforeReturn a) (hstep : s.step B f a = some s') : s'.ClearedAtReturn := by
  intro hreturned id
  cases Step.of_step hstep with
  | start => exact h hreturned id
  | call hcall hcallStep =>
    cases hcallStep with
    | insert => exact absurd hreturned hok
    | @unguard id' r =>
      show Function.update s.pending id' none id = none
      rw [Function.update_apply, h hreturned id, ite_self]
    | _ => exact h hreturned id
  | reader hreaderStep =>
    cases hreaderStep with
    | clear => rfl
    | stray => exact h hreturned id
    | _ => cases hreturned

/-- With an empty map and no reader, the channel of a waiting call resolves. -/
theorem exists_step_receive {s : MultiplexTransport} {c : ℕ} {call : Call}
    (hcall : s.calls c = some call) (hwaiting : call.phase = .waiting)
    (hreader : s.reader = .returned) (hpending : ∀ id, s.pending id = none) :
    ∃ s', s.step B f (.call c .receive) = some s' := by
  have hdropped : s.senderAlive B c call = false := by
    rw [senderAlive, hreader]
    cases call.id B <;> simp [hpending, ReaderTask.holds]
  rw [step, hcall, Option.bind_some, callStep, if_pos hwaiting]
  cases s.replies c with
  | some frame => exact ⟨_, rfl⟩
  | none => exact ⟨_, by rw [hdropped]; rfl⟩

/-- In a run that inserts no sender after the reader has returned, no call is stranded. -/
theorem noneStranded (B : Backend) (f : Framing) (s : MultiplexTransport)
    (hreach : Reach (step B f) InsertsBeforeReturn new s) : s.NoneStranded B f := by
  have hcleared : s.ClearedAtReturn :=
    hreach.invariant (fun h => by cases h) fun _ _ _ h hok hstep => h.step hok hstep
  intro hreturned c call hcall hwaiting
  refine ⟨fun id hid => ?_, ?_⟩
  · rw [hcleared hreturned id] at hid
    cases hid
  · exact exists_step_receive hcall hwaiting hreturned (hcleared hreturned)

/-! ## Two runs of one call -/

section Sample

/-- A request with id 1. -/
def sampleRequest : Bytes := ascii "\x7b\"id\":1\x7d"

/-- The reader ends while the call waits. -/
def closedWhileWaiting : List Action :=
  [.start 0 .roundTrip sampleRequest, .call 0 .check, .call 0 .insert, .call 0 .acquire,
    .call 0 (.write 9), .call 0 .flushed, .reader .stop, .reader .clear]

theorem noneStranded_closedWhileWaiting :
    ∃ s, run (step JsonText.backend Newline) InsertsBeforeReturn new closedWhileWaiting = some s ∧
      s.reader = .returned ∧ s.NoneStranded JsonText.backend Newline :=
  ⟨_, rfl, rfl, noneStranded _ _ _ (reach_of_run closedWhileWaiting rfl)⟩

/-- The reader ends between the test and the insertion. -/
def closedAfterCheck : List Action :=
  [.start 0 .roundTrip sampleRequest, .call 0 .check, .reader .stop, .reader .clear,
    .call 0 .insert, .call 0 .acquire, .call 0 (.write 9), .call 0 .flushed]

/-- The call then waits forever. -/
theorem exists_stranded : ∃ s, Reach (step JsonText.backend Newline) always new s ∧
    ¬ s.NoneStranded JsonText.backend Newline := by
  refine ⟨_, reach_of_run closedAfterCheck rfl, fun h => ?_⟩
  exact (h rfl 0 _ rfl rfl).1 (.number 1) rfl

end Sample

end MultiplexTransport

end Jasonrpc
