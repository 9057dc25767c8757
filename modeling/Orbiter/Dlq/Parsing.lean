import Orbiter.Data.JsonEncoder
import Orbiter.Dlq.Quarantine

/-!
# What the advisory parser accepts, and what escapes it

`parse_advisory` converts where it could check. `int()` turns booleans, floats and decimal texts
into integers, and `str()` turns anything into a text, so the parser accepts documents that are no
advisories: a sequence number of `42.9` is read as 42, and the quarantine that follows removes a
message the document did not name. And it lists the exceptions it expects, which leaves out what
`int()` raises at an infinity and what the decoder raises at a number or at nesting it refuses.

## Main results

* `buildAdvisory_eq_ok_iff`, `buildAdvisory_eq_overflowError_iff` — the construction, for every
  document: what it needs, and when it raises what is not caught. They are put together from one
  lemma for each field access and conversion;
* `accepts_iff` — the documents that are read as an advisory, and `parsed_exactly_iff` — **when the
  parser treats a document exactly**: if it is read as an advisory only when it is one. With it
  comes that every advisory as `json.dumps` prints it is parsed to its own fields;
* `deletes_parsed` — the quarantine deletes the message under the number parsed, so a number read
  wrongly is a message lost;
* `survives_iff` — **when the loop of the listener gets past a message**: when its bytes are
  harmless, a condition on what the decoder makes of them. The parser returns exactly then, and the
  advisory is acknowledged exactly then.

The two fixed documents at the ends of the sections, `42.9` and an infinity, are the smallest of
their kind.
-/

namespace Orbiter

/-! ### `int()` -/

/-- An infinite float. -/
def Json.isInfinite : Json → Bool
  | .float .posInf | .float .negInf => true
  | _ => false

/-- An integer, a boolean, a finite float, or a text that spells an integer. -/
def Json.readsAsInt : Json → Bool
  | .int _ | .bool _ | .float (.finite _) => true
  | .str s => (intOfText s).isSome
  | _ => false

theorem exists_pyInt_iff {v : Json} : (∃ n, pyInt v = .ok n) ↔ v.readsAsInt = true := by
  rcases v with _ | b | n | (q | _ | _ | _) | s | l | l <;> simp [pyInt, Json.readsAsInt]
  cases intOfText s <;> simp

theorem pyInt_eq_overflowError_iff {v : Json} :
    pyInt v = .error .overflowError ↔ v.isInfinite = true := by
  rcases v with _ | b | n | (q | _ | _ | _) | s | l | l <;> simp [pyInt, Json.isInfinite]
  cases intOfText s <;> simp

/-- `int()` raises what the parser catches, or `OverflowError`. -/
theorem pyInt_error {v : Json} {e : PyError} (h : pyInt v = .error e) :
    e = .typeError ∨ e = .valueError ∨ e = .overflowError := by
  rcases v with _ | b | n | (q | _ | _ | _) | s | l | l <;> simp [pyInt] at h
  all_goals try exact .inl h.symm
  all_goals try exact .inr (.inr h.symm)
  · exact .inr (.inl h.symm)
  · cases hs : intOfText s <;> simp [hs] at h
    exact .inr (.inl h.symm)

/-! ### The construction -/

theorem getItem_eq_ok_iff {data v : Json} {key : String} :
    data.getItem key = .ok v ↔ data.get? key = some v := by
  rw [Json.getItem]
  cases data.get? key <;> simp

theorem getItem_error {data : Json} {key : String} {e : PyError} (h : data.getItem key = .error e) :
    e = .keyError := by
  rw [Json.getItem] at h
  cases hk : data.get? key <;> simp [hk] at h
  exact h.symm

/-- `int(data[key])`. -/
def Json.getInt (data : Json) (key : String) : Except PyError ℤ := (data.getItem key).bind pyInt

theorem bind_eq_ok_iff {ε α β : Type} {x : Except ε α} {f : α → Except ε β} {b : β} :
    x.bind f = .ok b ↔ ∃ a, x = .ok a ∧ f a = .ok b := by
  cases x <;> simp [Except.bind]

/-- A sequence raises what its first part raises, or its second. -/
theorem bind_eq_error_iff {ε α β : Type} {x : Except ε α} {f : α → Except ε β} {e : ε} :
    x.bind f = .error e ↔ x = .error e ∨ ∃ a, x = .ok a ∧ f a = .error e := by
  cases x <;> simp [Except.bind]

/-- The four conversions, in the order in which they are made. -/
theorem buildAdvisory_eq (data : Json) : buildAdvisory data =
    (data.getItem "stream").bind fun stream ↦ (data.getItem "consumer").bind fun consumer ↦
      (data.getInt "stream_seq").bind fun streamSeq ↦
        (data.getInt "deliveries").bind fun deliveries ↦
          .ok ⟨pyStr stream, pyStr consumer, streamSeq, deliveries⟩ := by
  rw [buildAdvisory, Json.getInt, Json.getInt]
  cases data.getItem "stream" with
  | error e => rfl
  | ok stream =>
    cases data.getItem "consumer" with
    | error e => rfl
    | ok consumer =>
      cases data.getItem "stream_seq" with
      | error e => rfl
      | ok seq =>
        cases hseq : pyInt seq with
        | error e => simp [Except.bind, hseq, bind]
        | ok n =>
          cases data.getItem "deliveries" with
          | error e => simp [Except.bind, hseq, bind]
          | ok d => cases hd : pyInt d <;> simp [Except.bind, hseq, hd, bind, pure, Except.pure]

theorem getInt_eq_ok_iff {data : Json} {key : String} {n : ℤ} :
    data.getInt key = .ok n ↔ ∃ v, data.get? key = some v ∧ pyInt v = .ok n := by
  simp only [Json.getInt, bind_eq_ok_iff, getItem_eq_ok_iff]

/-- A field is read as an integer when it is there and `int()` converts it. -/
theorem exists_getInt_iff {data : Json} {key : String} :
    (∃ n, data.getInt key = .ok n) ↔ ∃ v, data.get? key = some v ∧ v.readsAsInt = true := by
  simp only [getInt_eq_ok_iff, ← exists_pyInt_iff]
  exact ⟨fun ⟨n, v, hv, hn⟩ ↦ ⟨v, hv, n, hn⟩, fun ⟨v, hv, n, hn⟩ ↦ ⟨n, v, hv, hn⟩⟩

/-- A field overflows when it is there and infinite. -/
theorem getInt_eq_overflowError_iff {data : Json} {key : String} :
    data.getInt key = .error .overflowError ↔
      ∃ v, data.get? key = some v ∧ v.isInfinite = true := by
  rw [Json.getInt, bind_eq_error_iff]
  constructor
  · rintro (h | ⟨v, hv, h⟩)
    · exact absurd (getItem_error h) (by simp)
    · exact ⟨v, getItem_eq_ok_iff.1 hv, pyInt_eq_overflowError_iff.1 h⟩
  · rintro ⟨v, hv, h⟩
    exact .inr ⟨v, getItem_eq_ok_iff.2 hv, pyInt_eq_overflowError_iff.2 h⟩

/-- A field access never raises what the decoder raises. -/
theorem getInt_ne_decoder {data : Json} {key : String} : data.getInt key ≠ .error .decoder := by
  intro h
  rcases bind_eq_error_iff.1 h with h | ⟨v, -, h⟩
  · exact absurd (getItem_error h) (by simp)
  · rcases pyInt_error h with h | h | h <;> exact absurd h (by simp)

/-- **When an advisory is built**, and what it holds. -/
theorem buildAdvisory_eq_ok_iff {data : Json} {adv : MaxDeliveriesAdvisory} :
    buildAdvisory data = .ok adv ↔ ∃ stream consumer, data.get? "stream" = some stream ∧
      data.get? "consumer" = some consumer ∧ data.getInt "stream_seq" = .ok adv.streamSeq ∧
      data.getInt "deliveries" = .ok adv.deliveries ∧ adv.stream = pyStr stream ∧
      adv.consumer = pyStr consumer := by
  simp only [buildAdvisory_eq, bind_eq_ok_iff, getItem_eq_ok_iff]
  constructor
  · rintro ⟨stream, hs, consumer, hc, n, hn, m, hm, h⟩
    obtain rfl := Except.ok.inj h
    exact ⟨stream, consumer, hs, hc, hn, hm, rfl, rfl⟩
  · rintro ⟨stream, consumer, hs, hc, hn, hm, hss, hcc⟩
    exact ⟨stream, hs, consumer, hc, _, hn, _, hm, by rw [← hss, ← hcc]⟩

/-- What the construction lets through is an `OverflowError`. -/
theorem buildAdvisory_eq_overflowError_iff {data : Json} :
    buildAdvisory data = .error .overflowError ↔
      (data.get? "stream").isSome = true ∧ (data.get? "consumer").isSome = true ∧
      ∃ seq, data.get? "stream_seq" = some seq ∧ (seq.isInfinite = true ∨
        seq.readsAsInt = true ∧ ∃ d, data.get? "deliveries" = some d ∧ d.isInfinite = true) := by
  have hitem {key : String} : data.getItem key ≠ .error .overflowError :=
    fun h ↦ absurd (getItem_error h) (by simp)
  simp only [buildAdvisory_eq, bind_eq_error_iff, hitem, false_or, getItem_eq_ok_iff,
    getInt_eq_overflowError_iff, Option.isSome_iff_exists]
  constructor
  · rintro ⟨stream, hs, consumer, hc, ⟨v, hv, hinf⟩ | ⟨n, hn, ⟨d, hd, hinf⟩ | ⟨m, -, h⟩⟩⟩
    · exact ⟨⟨stream, hs⟩, ⟨consumer, hc⟩, v, hv, .inl hinf⟩
    · obtain ⟨v, hv, hr⟩ := exists_getInt_iff.1 ⟨n, hn⟩
      exact ⟨⟨stream, hs⟩, ⟨consumer, hc⟩, v, hv, .inr ⟨hr, d, hd, hinf⟩⟩
    · exact absurd h (by simp)
  · rintro ⟨⟨stream, hs⟩, ⟨consumer, hc⟩, v, hv, hinf | ⟨hr, d, hd, hinf⟩⟩
    · exact ⟨stream, hs, consumer, hc, .inl ⟨v, hv, hinf⟩⟩
    · obtain ⟨n, hn⟩ := exists_getInt_iff.2 ⟨v, hv, hr⟩
      exact ⟨stream, hs, consumer, hc, .inr ⟨n, hn, .inl ⟨d, hd, hinf⟩⟩⟩

/-- The construction never raises what the decoder raises. -/
theorem buildAdvisory_ne_decoder {data : Json} : buildAdvisory data ≠ .error .decoder := by
  have hitem {key : String} : data.getItem key ≠ .error .decoder :=
    fun h ↦ absurd (getItem_error h) (by simp)
  simp [buildAdvisory_eq, bind_eq_error_iff, hitem, getInt_ne_decoder]

/-! ### The parser -/

/-- The parser returns an advisory when the type is right and one is built. -/
theorem parseAdvisory_eq_some_iff {data : Json} {adv : MaxDeliveriesAdvisory} :
    parseAdvisory (.value data) = .ok (some adv) ↔
      isMaxDeliver data = true ∧ buildAdvisory data = .ok adv := by
  rw [parseAdvisory]
  by_cases ht : isMaxDeliver data = true
  · rw [if_pos ht]
    rcases buildAdvisory data with (_ | _ | _ | _ | _) | _ <;> simp [ht]
  · rw [if_neg ht]
    simp [ht]

/-- The parser raises at what the decoder lets through, and at an infinity it converts. -/
theorem parseAdvisory_raises_iff {raw : Loaded} :
    (∃ e, parseAdvisory raw = .error e) ↔ raw = .raised ∨ ∃ data, raw = .value data ∧
      isMaxDeliver data = true ∧ buildAdvisory data = .error .overflowError := by
  cases raw with
  | undecodable => simp [parseAdvisory]
  | raised => simp [parseAdvisory]
  | value data =>
    rw [parseAdvisory]
    have hdec := @buildAdvisory_ne_decoder data
    by_cases ht : isMaxDeliver data = true
    · rw [if_pos ht]
      rcases hb : buildAdvisory data with (_ | _ | _ | _ | _) | _ <;> simp [ht, hb] at hdec ⊢
    · rw [if_neg ht]
      simp [ht]

/-! ### Documents that are treated exactly -/

/-- An object of the advisory type with strings and integers where an advisory has them. -/
def Json.IsAdvisory (doc : Json) : Prop :=
  isMaxDeliver doc = true ∧ (∃ s, doc.get? "stream" = some (.str s)) ∧
    (∃ s, doc.get? "consumer" = some (.str s)) ∧ (∃ n, doc.get? "stream_seq" = some (.int n)) ∧
    ∃ n, doc.get? "deliveries" = some (.int n)

/-- An object of the advisory type with all four fields, two of which Python can convert. -/
def Json.ReadsAsAdvisory (doc : Json) : Prop :=
  isMaxDeliver doc = true ∧ (doc.get? "stream").isSome = true ∧
    (doc.get? "consumer").isSome = true ∧
    (∃ v, doc.get? "stream_seq" = some v ∧ v.readsAsInt = true) ∧
    ∃ v, doc.get? "deliveries" = some v ∧ v.readsAsInt = true

/-- Every field is the document's value, unchanged. -/
def MaxDeliveriesAdvisory.Matches (adv : MaxDeliveriesAdvisory) (doc : Json) : Prop :=
  (∃ s, doc.get? "stream" = some (.str s) ∧ adv.stream = .text s) ∧
    (∃ s, doc.get? "consumer" = some (.str s) ∧ adv.consumer = .text s) ∧
    doc.get? "stream_seq" = some (.int adv.streamSeq) ∧
    doc.get? "deliveries" = some (.int adv.deliveries)

/-- The parser accepts the document if it is an advisory and not otherwise, changes nothing in it,
and what the listener deletes on account of it is what it names. -/
structure ParsedExactly (doc : Json) : Prop where
  accepts : (∃ adv, parseAdvisory (.value doc) = .ok (some adv)) ↔ doc.IsAdvisory
  unchanged : ∀ adv, parseAdvisory (.value doc) = .ok (some adv) → adv.Matches doc
  deletes : ∀ n, (Listener.processAdvisory (.value doc)).Makes (.deleteMsg n) →
    doc.get? "stream_seq" = some (.int n)

/-- The parser accepts what Python can read as an advisory. -/
theorem accepts_iff {doc : Json} :
    (∃ adv, parseAdvisory (.value doc) = .ok (some adv)) ↔ doc.ReadsAsAdvisory := by
  simp only [parseAdvisory_eq_some_iff, buildAdvisory_eq_ok_iff]
  constructor
  · rintro ⟨adv, ht, stream, consumer, hs, hc, hn, hm, -, -⟩
    exact ⟨ht, by rw [hs]; rfl, by rw [hc]; rfl, exists_getInt_iff.1 ⟨_, hn⟩,
      exists_getInt_iff.1 ⟨_, hm⟩⟩
  · rintro ⟨ht, hs, hc, hn, hm⟩
    obtain ⟨stream, hs⟩ := Option.isSome_iff_exists.1 hs
    obtain ⟨consumer, hc⟩ := Option.isSome_iff_exists.1 hc
    obtain ⟨n, hn⟩ := exists_getInt_iff.2 hn
    obtain ⟨m, hm⟩ := exists_getInt_iff.2 hm
    exact ⟨⟨pyStr stream, pyStr consumer, n, m⟩, ht, stream, consumer, hs, hc, hn, hm, rfl, rfl⟩

theorem readsAsAdvisory_of_isAdvisory {doc : Json} (h : doc.IsAdvisory) : doc.ReadsAsAdvisory := by
  obtain ⟨ht, ⟨s, hs⟩, ⟨c, hc⟩, ⟨n, hn⟩, m, hm⟩ := h
  exact ⟨ht, by rw [hs]; rfl, by rw [hc]; rfl, ⟨_, hn, rfl⟩, _, hm, rfl⟩

/-- An advisory is read as it stands. -/
theorem matches_of_isAdvisory {doc : Json} (h : doc.IsAdvisory) {adv : MaxDeliveriesAdvisory}
    (hp : parseAdvisory (.value doc) = .ok (some adv)) : adv.Matches doc := by
  obtain ⟨-, ⟨s, hs⟩, ⟨c, hc⟩, ⟨n, hn⟩, m, hm⟩ := h
  obtain ⟨-, hb⟩ := parseAdvisory_eq_some_iff.1 hp
  obtain ⟨stream, consumer, hs', hc', hn', hm', hstream, hconsumer⟩ := buildAdvisory_eq_ok_iff.1 hb
  have hint {key : String} {a b : ℤ} (ha : doc.get? key = some (.int a))
      (hb : doc.getInt key = .ok b) : doc.get? key = some (.int b) := by
    obtain ⟨v, hv, hvb⟩ := getInt_eq_ok_iff.1 hb
    obtain rfl := Option.some.inj (ha.symm.trans hv)
    obtain rfl := Except.ok.inj hvb
    exact ha
  obtain rfl := Option.some.inj (hs.symm.trans hs')
  obtain rfl := Option.some.inj (hc.symm.trans hc')
  exact ⟨⟨s, hs, hstream⟩, ⟨c, hc, hconsumer⟩, hint hn hn', hint hm hm'⟩

/-- The record deletes nothing. -/
theorem not_makes_recordDeadLettered {adv : MaxDeliveriesAdvisory} {m : Message SubmitRequest}
    {n : ℤ} (h : (Listener.recordDeadLettered adv m).Makes (.deleteMsg n)) : False := by
  rcases Prog.makes_tryExcept h with h | ⟨e, h⟩
  · rcases Prog.makes_bind h with h | ⟨-, h⟩
    · exact ListenerCall.noConfusion (Prog.makes_await h)
    · exact nomatch h
  · split at h
    · exact nomatch h
    · exact nomatch h

/-- A quarantine deletes the message of its advisory and no other. -/
theorem makes_quarantine {adv : MaxDeliveriesAdvisory} {n : ℤ}
    (h : (Listener.quarantine adv).Makes (.deleteMsg n)) : n = adv.streamSeq := by
  rcases Prog.makes_bind h with h | ⟨m, h⟩
  · exact ListenerCall.noConfusion (Prog.makes_await h)
  · rcases Prog.makes_bind h with h | ⟨-, h⟩
    · exact ListenerCall.noConfusion (Prog.makes_await h)
    · rcases Prog.makes_bind h with h | ⟨-, h⟩
      · exact (not_makes_recordDeadLettered h).elim
      · exact ListenerCall.deleteMsg.inj (Prog.makes_await h)

/-- The listener deletes under the sequence number of the advisory it parsed. -/
theorem deletes_parsed {raw : Loaded} {n : ℤ}
    (h : (Listener.processAdvisory raw).Makes (.deleteMsg n)) :
    ∃ adv, parseAdvisory raw = .ok (some adv) ∧ n = adv.streamSeq := by
  have hack {p : Listener.ListenerProg Unit} (hp : p = Prog.await ListenerCall.ack)
      (hm : p.Makes (.deleteMsg n)) : False :=
    ListenerCall.noConfusion (Prog.makes_await (hp ▸ hm))
  rw [Listener.processAdvisory] at h
  rcases hparse : parseAdvisory raw with e | (_ | adv)
  · rw [hparse] at h
    contradiction
  · rw [hparse] at h
    exact (hack rfl h).elim
  · rw [hparse] at h
    refine ⟨adv, rfl, ?_⟩
    rcases Prog.makes_bind h with h | ⟨-, h⟩
    · rcases Prog.makes_tryExcept h with h | ⟨e, h⟩
      · exact makes_quarantine h
      · contradiction
    · exact (hack rfl h).elim

/-- A document is treated exactly if it is read as an advisory only when it is one. -/
theorem parsedExactly_iff {doc : Json} :
    ParsedExactly doc ↔ (doc.ReadsAsAdvisory → doc.IsAdvisory) := by
  constructor
  · exact fun h hr ↦ h.accepts.1 (accepts_iff.2 hr)
  · intro h
    have hmatch {adv : MaxDeliveriesAdvisory}
        (hp : parseAdvisory (.value doc) = .ok (some adv)) : adv.Matches doc :=
      matches_of_isAdvisory (h (accepts_iff.1 ⟨adv, hp⟩)) hp
    have haccepts : (∃ adv, parseAdvisory (.value doc) = .ok (some adv)) ↔ doc.IsAdvisory :=
      ⟨fun hp ↦ h (accepts_iff.1 hp), fun ha ↦ accepts_iff.2 (readsAsAdvisory_of_isAdvisory ha)⟩
    refine ⟨haccepts, fun adv hp ↦ hmatch hp, fun n hn ↦ ?_⟩
    obtain ⟨adv, hp, rfl⟩ := deletes_parsed hn
    exact (hmatch hp).2.2.1

/-- The fields of an encoded advisory, with any further ones. -/
def advisoryFields (stream consumer : String) (streamSeq deliveries : ℤ)
    (extra : List (String × JsonEncoder.Scalar)) : List (String × JsonEncoder.Scalar) :=
  ("type", .str advisoryType) :: ("stream", .str stream) :: ("consumer", .str consumer) ::
    ("stream_seq", .int streamSeq) :: ("deliveries", .int deliveries) :: extra

/-- **Round trip.** An encoded advisory is parsed to that advisory. -/
theorem parseAdvisory_encodeAdvisory {depth : ℕ} (hdepth : 0 < depth) {stream consumer : String}
    {streamSeq deliveries : ℤ} {extra : List (String × JsonEncoder.Scalar)}
    (hkeys : ((advisoryFields stream consumer streamSeq deliveries extra).map Prod.fst).Nodup)
    {raw : List UInt8}
    (h : JsonEncoder.dumps (advisoryFields stream consumer streamSeq deliveries extra) = some raw) :
    parseAdvisory (loads depth raw) =
      .ok (some ⟨.text stream, .text consumer, streamSeq, deliveries⟩) := by
  obtain ⟨doc, hdoc, hget⟩ := JsonEncoder.loads_dumps hdepth hkeys h
  have htype : doc.get? "type" = some (.str advisoryType) := by
    rw [hget]
    rfl
  have hstream : doc.get? "stream" = some (.str stream) := by
    rw [hget]
    rfl
  have hconsumer : doc.get? "consumer" = some (.str consumer) := by
    rw [hget]
    rfl
  have hseq : doc.get? "stream_seq" = some (.int streamSeq) := by
    rw [hget]
    rfl
  have hdeliveries : doc.get? "deliveries" = some (.int deliveries) := by
    rw [hget]
    rfl
  rw [hdoc, parseAdvisory_eq_some_iff, isMaxDeliver, htype]
  exact ⟨by simp, buildAdvisory_eq_ok_iff.2 ⟨_, _, hstream, hconsumer,
    getInt_eq_ok_iff.2 ⟨_, hseq, rfl⟩, getInt_eq_ok_iff.2 ⟨_, hdeliveries, rfl⟩, rfl, rfl⟩⟩

/-- **When the parser is strict and exact.** A document is treated exactly if and only if, should
Python be able to read it as an advisory, it is one as it stands; and encodings are. -/
theorem parsed_exactly_iff (doc : Json) :
    (ParsedExactly doc ↔ (doc.ReadsAsAdvisory → doc.IsAdvisory)) ∧
    ∀ (depth : ℕ) (stream consumer : String) (streamSeq deliveries : ℤ)
      (extra : List (String × JsonEncoder.Scalar)) (raw : List UInt8), 0 < depth →
      ((advisoryFields stream consumer streamSeq deliveries extra).map Prod.fst).Nodup →
      JsonEncoder.dumps (advisoryFields stream consumer streamSeq deliveries extra) = some raw →
      parseAdvisory (loads depth raw) =
        .ok (some ⟨.text stream, .text consumer, streamSeq, deliveries⟩) :=
  ⟨parsedExactly_iff, fun _ _ _ _ _ _ _ hdepth hkeys h ↦
    parseAdvisory_encodeAdvisory hdepth hkeys h⟩

/-- An advisory whose sequence number is 42.9. -/
def fractionalSequence : Json :=
  .obj [("type", .str advisoryType), ("stream", .str "ORBITER_JOBS"), ("consumer", .str "workers"),
    ("stream_seq", .float (.finite (429 / 10))), ("deliveries", .int 3)]

/-- It is read as 42, the message the listener then deletes. -/
theorem fractionalSequence_not_exact :
    parseAdvisory (.value fractionalSequence) =
        .ok (some ⟨.text "ORBITER_JOBS", .text "workers", 42, 3⟩) ∧
      ¬fractionalSequence.IsAdvisory ∧ ¬ParsedExactly fractionalSequence := by
  have hseq : fractionalSequence.get? "stream_seq" = some (.float (.finite (429 / 10))) := rfl
  have htruncated : pyInt (.float (.finite (429 / 10))) = .ok 42 :=
    congrArg Except.ok (by decide +kernel)
  have hparse : parseAdvisory (.value fractionalSequence) =
      .ok (some ⟨.text "ORBITER_JOBS", .text "workers", 42, 3⟩) :=
    parseAdvisory_eq_some_iff.2 ⟨by decide +kernel, buildAdvisory_eq_ok_iff.2 ⟨_, _, rfl, rfl,
      getInt_eq_ok_iff.2 ⟨_, hseq, htruncated⟩, getInt_eq_ok_iff.2 ⟨_, rfl, rfl⟩, rfl, rfl⟩⟩
  have hno : ¬fractionalSequence.IsAdvisory := by
    rintro ⟨-, -, -, ⟨n, hn⟩, -⟩
    exact absurd (hseq.symm.trans hn) (by simp)
  exact ⟨hparse, hno, fun h ↦ hno (h.accepts.1 ⟨_, hparse⟩)⟩

/-! ### Messages that stop the listener -/

/-- What the listener gets past: the decoder raises decoding errors only, and neither integer field
of an advisory is an infinity — as far as the parser gets, which is up to the first field that is
missing or refused. -/
def Harmless : Loaded → Prop
  | .undecodable => True
  | .raised => False
  | .value data => isMaxDeliver data = true → (data.get? "stream").isSome = true →
      (data.get? "consumer").isSome = true → ∀ seq, data.get? "stream_seq" = some seq →
        seq.isInfinite = false ∧ (seq.readsAsInt = true →
          ∀ d, data.get? "deliveries" = some d → d.isInfinite = false)

/-- The parser returns on harmless input, and on no other. -/
theorem parseAdvisory_returns_iff {raw : Loaded} :
    (∃ r, parseAdvisory raw = .ok r) ↔ Harmless raw := by
  have hraises : (∃ r, parseAdvisory raw = .ok r) ↔ ¬∃ e, parseAdvisory raw = .error e := by
    cases parseAdvisory raw <;> simp
  rw [hraises, parseAdvisory_raises_iff]
  cases raw with
  | undecodable => simp [Harmless]
  | raised => simp [Harmless]
  | value data =>
    simp only [buildAdvisory_eq_overflowError_iff, Harmless, reduceCtorEq, false_or,
      Loaded.value.injEq, exists_eq_left']
    constructor
    · intro h ht hs hc seq hseq
      refine ⟨?_, fun hr d hd ↦ ?_⟩
      · by_contra hinf
        exact h ⟨ht, hs, hc, seq, hseq, .inl (by simpa using hinf)⟩
      · by_contra hinf
        exact h ⟨ht, hs, hc, seq, hseq, .inr ⟨hr, d, hd, by simpa using hinf⟩⟩
    · rintro h ⟨ht, hs, hc, seq, hseq, hinf | ⟨hr, d, hd, hinf⟩⟩
      · simp [(h ht hs hc seq hseq).1] at hinf
      · simp [(h ht hs hc seq hseq).2 hr d hd] at hinf

/-- The loop acknowledges a message whatever its quarantine does, unless the parser raised. -/
theorem comes_ack_iff {raw : Loaded} :
    (Listener.processAdvisory raw).Comes (· = .ack) ↔ ∃ r, parseAdvisory raw = .ok r := by
  have hack : (Prog.await ListenerCall.ack : Listener.ListenerProg Unit).Comes (· = .ack) :=
    Prog.Comes.await rfl
  rw [Listener.processAdvisory]
  rcases parseAdvisory raw with e | (_ | adv)
  · simp [Prog.not_comes_raise]
  · exact iff_of_true hack ⟨none, rfl⟩
  · exact iff_of_true (Prog.Comes.of_tryExcept (fun _ ↦ hack) () (Listener.quarantine adv))
      ⟨some adv, rfl⟩

/-- **What the listener survives.** For every message, the parser raises nothing and the iteration
reaches its acknowledgement if and only if the message is harmless. -/
theorem survives_iff (depth : ℕ) (raw : List UInt8) :
    (∃ r, parseAdvisory (loads depth raw) = .ok r) ∧
      (Listener.processAdvisory (loads depth raw)).Comes (· = .ack) ↔
    Harmless (loads depth raw) := by
  rw [comes_ack_iff, and_self, parseAdvisory_returns_iff]

/-- An advisory whose sequence number is `Infinity`. -/
def infiniteSequence : List UInt8 :=
  ("\x7b\"type\": \"io.nats.jetstream.advisory.v1.max_deliver\", \"stream\": \"ORBITER_JOBS\", " ++
    "\"consumer\": \"workers\", \"stream_seq\": Infinity, \"deliveries\": 3\x7d").toList.map
      fun c ↦ c.toNat.toUInt8

/-- The test for the one exception. -/
def raisesOverflow : Except PyError (Option MaxDeliveriesAdvisory) → Bool
  | .error .overflowError => true
  | _ => false

theorem eq_of_raisesOverflow {x : Except PyError (Option MaxDeliveriesAdvisory)}
    (h : raisesOverflow x = true) : x = .error .overflowError := by
  rcases x with (_ | _ | _ | _ | _) | _ <;> simp [raisesOverflow] at h
  rfl

/-- `int()` raises `OverflowError`, which is no `ValueError`, and the message is not
acknowledged. -/
theorem infiniteSequence_stops_listener :
    parseAdvisory (loads 1000 infiniteSequence) = .error .overflowError ∧
      ¬((∃ r, parseAdvisory (loads 1000 infiniteSequence) = .ok r) ∧
        (Listener.processAdvisory (loads 1000 infiniteSequence)).Comes (· = .ack)) := by
  have hraise : parseAdvisory (loads 1000 infiniteSequence) = .error .overflowError :=
    eq_of_raisesOverflow (by decide +kernel)
  refine ⟨hraise, ?_⟩
  rintro ⟨⟨r, hr⟩, -⟩
  exact absurd (hraise.symm.trans hr) (by simp)

end Orbiter
