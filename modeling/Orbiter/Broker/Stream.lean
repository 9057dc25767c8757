import Mathlib.Data.List.Basic
import Orbiter.Db.Schema
import Orbiter.Inputs

/-!
# The work stream

What the code relies on of JetStream. A published message gets the next sequence number and stays
until an acknowledgement, a termination or a deletion removes it; it is delivered at most
`max_deliver` times, and when the broker gives up on it, it stores one advisory. A publish under a
message id the broker remembers is dropped; how long it remembers is its own affair, so the caller
says.

The stream is a list of all messages ever stored, in the order of their sequence numbers, which
start at one. Removal is a flag: sequence numbers are never used again.

* `StreamMsg` — a message with what the broker keeps about it: how often it was delivered, when it
  may be delivered again, whether it is still there, and the advisory stored for it;
* `publish`, `deliver`, `nak`, `remove`, `exhaust` — what the broker does. Whether it may is decided
  where the steps of the system are, `Pipeline.System`;
* `msg?`, `stored?` — the message under a number, ever and now. `msg?_update`,
  `msg?_publish_of_some` and `msg?_publish_eq_some` say what they show after each of the above.
-/

namespace Orbiter

/-- A message of the work stream. -/
structure StreamMsg where
  subject : String
  /-- The outbox id in its `Nats-Msg-Id`. -/
  msgId : ℕ
  data : Message SubmitRequest
  /-- Neither acknowledged, terminated nor deleted. -/
  present : Bool := true
  /-- How often it was delivered. -/
  delivered : ℕ := 0
  /-- When the last delivery was made, until that is negatively acknowledged. -/
  outstanding : Option ℕ := none
  /-- The advisory stored when the broker gave up on it. -/
  advisory : Option ℕ := none

/-- The stream, in the order of the sequence numbers. -/
abbrev WorkStream : Type := List StreamMsg

namespace WorkStream

/-- The message with a sequence number, removed or not. -/
def msg? (stream : WorkStream) : ℤ → Option StreamMsg
  | .ofNat (n + 1) => stream[n]?
  | _ => none

/-- The message with a sequence number, if it was not removed. -/
def stored? (stream : WorkStream) (seq : ℤ) : Option StreamMsg :=
  (stream.msg? seq).filter StreamMsg.present

/-- Change one message. -/
def update (stream : WorkStream) (seq : ℤ) (f : StreamMsg → StreamMsg) : WorkStream :=
  match seq with
  | .ofNat (n + 1) => stream.modify n f
  | _ => stream

/-- `js.publish` under a message id. `remembered` says whether the broker still knows an id it has
stored before. -/
def publish (stream : WorkStream) (subject : String) (msgId : ℕ) (data : Message SubmitRequest)
    (remembered : Bool) : WorkStream :=
  if remembered && stream.any (fun m ↦ m.msgId = msgId) then stream
  else stream ++ [{ subject := subject, msgId := msgId, data := data }]

/-- An acknowledgement or a termination of any delivery, or a deletion. -/
def remove (stream : WorkStream) (seq : ℤ) : WorkStream :=
  stream.update seq fun m ↦ { m with present := false }

/-- A negative acknowledgement. -/
def nak (stream : WorkStream) (seq : ℤ) : WorkStream :=
  stream.update seq fun m ↦ { m with outstanding := none }

/-- A delivery. -/
def deliver (stream : WorkStream) (seq : ℤ) (now : ℕ) : WorkStream :=
  stream.update seq fun m ↦ { m with delivered := m.delivered + 1, outstanding := some now }

/-- The broker gives up on a message and stores the advisory with this number. -/
def exhaust (stream : WorkStream) (seq : ℤ) (advisory : ℕ) : WorkStream :=
  stream.update seq fun m ↦ { m with advisory := some advisory }

/-! ### What the messages show -/

theorem exists_of_msg? {stream : WorkStream} {seq : ℤ} {m : StreamMsg}
    (h : stream.msg? seq = some m) : ∃ n : ℕ, seq = ((n + 1 : ℕ) : ℤ) ∧ stream[n]? = some m := by
  match seq with
  | .ofNat (n + 1) => exact ⟨n, rfl, h⟩
  | .ofNat 0 | .negSucc n => exact absurd h (by simp [msg?])

/-- A message can be read as long as it has not been removed. -/
theorem stored?_eq_some {stream : WorkStream} {seq : ℤ} {m : StreamMsg} :
    stream.stored? seq = some m ↔ stream.msg? seq = some m ∧ m.present = true := by
  rw [stored?, Option.filter_eq_some_iff]

/-- A message that cannot be read any more was removed. -/
theorem present_of_stored?_none {stream : WorkStream} {seq : ℤ} {m : StreamMsg}
    (h : stream.stored? seq = none) (hm : stream.msg? seq = some m) : m.present = false := by
  cases hp : m.present with
  | false => rfl
  | true => exact absurd (stored?_eq_some.2 ⟨hm, hp⟩) (by rw [h]; simp)

/-- An update changes the message under one number. -/
theorem msg?_update (stream : WorkStream) (seq seq' : ℤ) (f : StreamMsg → StreamMsg) :
    (stream.update seq f).msg? seq' =
      (stream.msg? seq').map fun m ↦ if seq = seq' then f m else m := by
  match seq' with
  | .ofNat 0 | .negSucc k => exact rfl
  | .ofNat (k + 1) =>
    show (stream.update seq f)[k]? = stream[k]?.map _
    match seq with
    | .ofNat (n + 1) =>
      show (stream.modify n f)[k]? = _
      rw [List.getElem?_modify]
      by_cases h : n = k
      · simp [h]
      · simp [h]
    | .ofNat 0 =>
      show stream[k]? = _
      simp [show (0 : ℤ) ≠ (k : ℤ) + 1 by omega]
    | .negSucc n =>
      show stream[k]? = _
      simp [show Int.negSucc n ≠ (k : ℤ) + 1 by omega]

/-- A publish keeps what is stored. -/
theorem msg?_publish_of_some {stream : WorkStream} {seq : ℤ} {m : StreamMsg}
    (h : stream.msg? seq = some m) (subject : String) (msgId : ℕ) (data : Message SubmitRequest)
    (remembered : Bool) : (stream.publish subject msgId data remembered).msg? seq = some m := by
  rw [publish]
  split
  · exact h
  · obtain ⟨n, rfl, hn⟩ := exists_of_msg? h
    show (stream ++ _)[n]? = some m
    rw [List.getElem?_append_left (List.getElem?_eq_some_iff.1 hn).1, hn]

/-- And stores at most the one message. -/
theorem msg?_publish_eq_some {stream : WorkStream} {seq : ℤ} {m' : StreamMsg} {subject : String}
    {msgId : ℕ} {data : Message SubmitRequest} {remembered : Bool}
    (h : (stream.publish subject msgId data remembered).msg? seq = some m') :
    stream.msg? seq = some m' ∨
      seq = ((stream.length + 1 : ℕ) : ℤ) ∧
        m' = { subject := subject, msgId := msgId, data := data } := by
  rw [publish] at h
  split at h
  · exact .inl h
  · obtain ⟨n, rfl, hn⟩ := exists_of_msg? h
    rw [List.getElem?_append] at hn
    split at hn
    · exact .inl hn
    · next hlen =>
      rw [List.getElem?_singleton] at hn
      split at hn
      · next h0 => exact .inr ⟨by omega, (Option.some.inj hn).symm⟩
      · exact absurd hn (by simp)

/-- After it, a message with its id has been stored: this one or an earlier one. -/
theorem exists_msgId_publish (stream : WorkStream) (subject : String) (msgId : ℕ)
    (data : Message SubmitRequest) (remembered : Bool) :
    ∃ seq m, (stream.publish subject msgId data remembered).msg? seq = some m ∧
      m.msgId = msgId := by
  rw [publish]
  split
  · next h =>
    simp only [Bool.and_eq_true, List.any_eq_true, decide_eq_true_eq] at h
    obtain ⟨-, m, hm, hid⟩ := h
    obtain ⟨n, hn⟩ := List.mem_iff_getElem?.1 hm
    exact ⟨((n + 1 : ℕ) : ℤ), m, hn, hid⟩
  · refine ⟨((stream.length + 1 : ℕ) : ℤ), { subject := subject, msgId := msgId, data := data },
      ?_, rfl⟩
    show (stream ++ _)[stream.length]? = _
    exact List.getElem?_concat_length

end WorkStream

end Orbiter
