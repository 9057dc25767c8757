import Orbiter.Data.JsonDecoder
import Orbiter.Inputs

/-!
# Max-deliveries advisories

`parse_advisory` on what `json.loads` makes of the raw bytes. The two integer fields go through
Python's `int()`, which converts more than JSON integers: booleans, floats and decimal texts. It
catches what it names — `KeyError`, `TypeError`, `ValueError` — and lets everything else through, so
the parser is a partial function of three outcomes: an advisory, `None`, or an exception.

The two text fields go through `str()`; a string is its own text, and of any other value only the
value it was rendered from is kept.

* `pyInt`, `pyStr` — the two conversions on a JSON value, with the exceptions of the first;
* `buildAdvisory`, `isMaxDeliver`, `parseAdvisory` — the construction, the test of the type field
  that stands before it, and the function with its `except` clause;
* `brokerAdvisory` — what the broker itself stores, and `parseAdvisory_brokerAdvisory`: it is parsed
  to the numbers it was made from.

Which documents and which bytes are treated how is the subject of `Dlq.Parsing`.
-/

namespace Orbiter

/-- The exceptions of the conversions. -/
inductive PyError
  | keyError
  | typeError
  | valueError
  | overflowError
  /-- Raised by the decoder itself, and not as a decoding error: an integer literal with too many
  digits, nesting too deep. -/
  | decoder
  deriving DecidableEq

/-! ### `int()` and `str()` -/

/-- `int(v)`. A float is truncated towards zero. -/
def pyInt : Json → Except PyError ℤ
  | .int n => .ok n
  | .bool b => .ok (if b then 1 else 0)
  | .float (.finite q) => .ok (q.num.tdiv q.den)
  | .float .posInf | .float .negInf => .error .overflowError
  | .float .nan => .error .valueError
  | .str s =>
    match intOfText s with
    | some n => .ok n
    | none => .error .valueError
  | .null | .arr _ | .obj _ => .error .typeError

/-- `str(v)`. -/
inductive PyStr
  | text (s : String)
  /-- The rendering of a value that is not a string. -/
  | rendered (v : Json)

def pyStr : Json → PyStr
  | .str s => .text s
  | v => .rendered v

/-! ### The parser -/

/-- `_ADVISORY_TYPE`. -/
def advisoryType : String := "io.nats.jetstream.advisory.v1.max_deliver"

structure MaxDeliveriesAdvisory where
  stream : PyStr
  consumer : PyStr
  streamSeq : ℤ
  deliveries : ℤ

/-- `data[key]`. -/
def Json.getItem (v : Json) (key : String) : Except PyError Json :=
  match v.get? key with
  | some w => .ok w
  | none => .error .keyError

/-- The construction inside the second `try`. -/
def buildAdvisory (data : Json) : Except PyError MaxDeliveriesAdvisory := do
  let stream ← data.getItem "stream"
  let consumer ← data.getItem "consumer"
  let streamSeq ← pyInt (← data.getItem "stream_seq")
  let deliveries ← pyInt (← data.getItem "deliveries")
  return ⟨pyStr stream, pyStr consumer, streamSeq, deliveries⟩

/-- `data.get("type") != _ADVISORY_TYPE`, negated; `false` for what is not an object. -/
def isMaxDeliver (data : Json) : Bool :=
  match data.get? "type" with
  | some (.str s) => s = advisoryType
  | _ => false

def parseAdvisory (raw : Loaded) : Except PyError (Option MaxDeliveriesAdvisory) :=
  match raw with
  | .undecodable => .ok none
  | .raised => .error .decoder
  | .value data =>
    if isMaxDeliver data then
      match buildAdvisory data with
      | .ok adv => .ok (some adv)
      | .error .keyError | .error .typeError | .error .valueError => .ok none
      | .error e => .error e
    else .ok none

/-- The advisory, where there is one. -/
def advisory? (raw : Loaded) : Option MaxDeliveriesAdvisory := (parseAdvisory raw).toOption.join

/-- An advisory was parsed exactly when the parser returned one. -/
theorem advisory?_eq_some {raw : Loaded} {adv : MaxDeliveriesAdvisory} :
    advisory? raw = some adv ↔ parseAdvisory raw = .ok (some adv) := by
  rw [advisory?]
  rcases parseAdvisory raw with e | _ | adv' <;> simp [Except.toOption]

/-- The advisory the broker stores when it gives up on a message. -/
def brokerAdvisory (cfg : Settings) (streamSeq deliveries : ℕ) : Loaded :=
  .value (.obj [("type", .str advisoryType), ("stream", .str cfg.streamName),
    ("consumer", .str cfg.consumerDurable), ("stream_seq", .int streamSeq),
    ("deliveries", .int deliveries)])

/-- The broker's own advisories parse, to what they say. -/
theorem parseAdvisory_brokerAdvisory (cfg : Settings) (streamSeq deliveries : ℕ) :
    parseAdvisory (brokerAdvisory cfg streamSeq deliveries) =
      .ok (some ⟨.text cfg.streamName, .text cfg.consumerDurable, streamSeq, deliveries⟩) := by
  have htype : isMaxDeliver (.obj [("type", .str advisoryType), ("stream", .str cfg.streamName),
      ("consumer", .str cfg.consumerDurable), ("stream_seq", .int streamSeq),
      ("deliveries", .int deliveries)]) = true := by
    simp [isMaxDeliver, Json.get?]
  rw [brokerAdvisory, parseAdvisory, if_pos htype]
  rfl

end Orbiter
