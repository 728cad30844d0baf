import GuardrailPlatform.DedupLog
import GuardrailPlatform.Envelope

/-!
# Durable publishes

Commands and events leave a process through `publish`, under a message id the
stream remembers for its window.  The stream acknowledges an id it remembers
without storing the message again, and no caller looks at the acknowledgement.
-/

namespace Guardrail

open Js DedupLog

/-- `duplicate_window`, in milliseconds. -/
def duplicateWindowMs : ℤ := 2 * 60 * 1000

/-- A stream: its messages by id, each with its subject and its JSON. -/
abbrev Stream := List (Entry JSString (JSString × Json))

/-- Does the stream remember the id? -/
def Stream.remembers (stream : Stream) (now : ℤ) (msgID : JSString) : Bool :=
  holds (inWindow duplicateWindowMs now) stream msgID

/-- The server's side of a publish. -/
def Stream.store (stream : Stream) (now : ℤ) (subject msgID : JSString) (raw : Json) : Stream :=
  offer (inWindow duplicateWindowMs now) stream
    { key := msgID, body := (subject, raw), storedAt := now }

/-- How a publish ends for its caller. -/
inductive PublishOutcome
  | acknowledged
  /-- It threw; the message may have reached the stream. -/
  | threw (reached : Bool)

def PublishOutcome.returned : PublishOutcome → Bool
  | .acknowledged => true
  | .threw _ => false

def PublishOutcome.reached : PublishOutcome → Bool
  | .acknowledged => true
  | .threw reached => reached

/-- `stream.publish`: the stream afterwards, and whether the publish returned. -/
def publish (stream : Stream) (now : ℤ) (subject msgID : JSString) (e : Envelope)
    (outcome : PublishOutcome) : Stream × Bool :=
  match encode e.toValue with
  | none => (stream, false)
  | some raw =>
    (if outcome.reached then stream.store now subject msgID raw else stream, outcome.returned)

/-- Durable command: a retried publish is deduped by its request id. -/
def publishCommand (stream : Stream) (now : ℤ) (subject : JSString) (e : Envelope)
    (outcome : PublishOutcome) : Stream × Bool :=
  publish stream now subject e.requestMeta.requestId e outcome

/-- The message id of an event. -/
def eventId (requestId : JSString) : JSString := requestId ++ str ":evt"

/-- A fact that already happened. -/
def publishEvent (stream : Stream) (now : ℤ) (subject : JSString) (e : Envelope)
    (outcome : PublishOutcome) : Stream × Bool :=
  publish stream now subject (eventId e.requestMeta.requestId) e outcome

/-! ## What a publish does -/

variable {stream : Stream} {now : ℤ} {subject msgID : JSString} {raw : Json} {e : Envelope}
  {outcome : PublishOutcome}

/-- An envelope that has JSON is stored where the message reached the server. -/
theorem publish_of_encode (hraw : encode e.toValue = some raw) :
    publish stream now subject msgID e outcome =
      (if outcome.reached then stream.store now subject msgID raw else stream,
        outcome.returned) := by
  rw [publish, hraw]

theorem suffix_publish : stream <:+ (publish stream now subject msgID e outcome).1 := by
  unfold publish
  split
  · exact List.suffix_rfl
  · split
    · exact suffix_offer _ _ _
    · exact List.suffix_rfl

/-- A message that did not reach the server leaves the stream as it was. -/
theorem publish_of_unreached (h : outcome.reached = false) :
    (publish stream now subject msgID e outcome).1 = stream := by
  unfold publish
  split
  · rfl
  · rw [h]
    rfl

/-- A publish that returned has reached the server, which stored it or dropped it as a
repeat. -/
theorem PublishOutcome.reached_of_returned {outcome : PublishOutcome}
    (h : outcome.returned = true) : outcome.reached = true := by
  cases outcome with
  | acknowledged => rfl
  | threw reached => cases h

/-- A message id that was never stored is not remembered, however long the window is. -/
theorem remembers_of_fresh (h : ∀ old ∈ stream, old.key ≠ msgID) :
    stream.remembers now msgID = false := by
  refine Bool.eq_false_iff.mpr ?_
  intro hholds
  obtain ⟨old, hold, hkey, -⟩ := holds_iff.mp hholds
  exact h old hold hkey

/-- A message whose id the stream does not remember is stored, under that id and at that
time. -/
theorem store_of_fresh (h : stream.remembers now msgID = false) :
    stream.store now subject msgID raw =
      { key := msgID, body := (subject, raw), storedAt := now } :: stream :=
  offer_of_fresh h

end Guardrail
