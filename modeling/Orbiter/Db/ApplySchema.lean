import Orbiter.Foundation.Possibility
import Orbiter.Foundation.Records

/-!
# `apply_schema`: every service, at once

Each service applies the schema when it starts, in one transaction, and any number of services start
at the same time. `CREATE … IF NOT EXISTS` looks a name up and then creates it, and between the two
another session may create it as well: the second to do so waits for the first, and raises when the
first commits. The advisory lock taken before the statements is what prevents this.

A session is a machine of control points over its script, with what it has created and not committed
yet; a session that raises or loses its connection rolls back.

## Contents

* `schemaSql` — the statements of the schema by the names they create and refer to. The script
  enters the proofs only through `Supplied`: no name twice, and nothing before what it refers to;
* `SchemaServer`, `SchemaStep` — the names that are committed, the sessions, and what a session can
  do: take the lock, look a name up, create it, commit. `Locking` says that every session begins
  with the lock;
* `Orderly` — the invariant: where the one session that holds the lock stands. Its own creations and
  the names still to come make up the schema, or the schema was there before. There is one lemma for
  each action of a session;
* `left`, `Orderly.progress` — how many steps a session has still to make, and that some session can
  always make one;
* `schema_applied` — **no session raises, the schema is there completely or not at all, whoever has
  returned finds it, and everybody can return.**

`collides_without_lock` is the comment in the source: two sessions that skip the lock collide.
-/

namespace Orbiter

/-- A statement `CREATE … IF NOT EXISTS name` that refers to the relations in `needs`. -/
structure DdlStatement where
  name : String
  needs : List String

/-- `schema.sql`. -/
def schemaSql : List DdlStatement :=
  [⟨"jobs", []⟩, ⟨"job_events", ["jobs"]⟩, ⟨"job_events_job_id_idx", ["job_events"]⟩,
    ⟨"outbox", ["jobs"]⟩, ⟨"outbox_unpublished_idx", ["outbox"]⟩]

/-- What a statement raises. -/
inductive DdlError
  /-- Somebody else's name, found only when it was created. -/
  | uniqueViolation (name : String)
  | undefinedTable (name : String)

/-- Where a session is suspended. -/
inductive SchemaPc
  /-- `SELECT pg_advisory_xact_lock($1)`. -/
  | lock
  /-- About to look up the name of the next statement, or to commit when there is none. -/
  | look (todo : List DdlStatement)
  /-- The name was missing. -/
  | create (st : DdlStatement) (rest : List DdlStatement)
  | finished
  | raised (e : DdlError)

/-- A call of `apply_schema`. -/
structure SchemaSession where
  pc : SchemaPc
  /-- Created in this transaction. -/
  own : List String := []
  /-- Its connection lives. -/
  alive : Bool := true

/-- The session is past the lock and its transaction not at its end. -/
def SchemaSession.inside (x : SchemaSession) : Bool :=
  x.alive && match x.pc with
    | .look _ | .create _ _ => true
    | _ => false

/-- What is committed, and the sessions. -/
structure SchemaServer where
  names : List String
  sessions : List SchemaSession

/-- The steps of the server. -/
inductive SchemaStep
  /-- A service starts. `locking`: it takes the lock first. -/
  | start (locking : Bool)
  /-- A session goes on. -/
  | run (sid : ℕ)
  /-- A connection is lost. -/
  | die (sid : ℕ)

namespace SchemaServer

/-- A session becomes another. -/
def put (s : SchemaServer) (sid : ℕ) (x : SchemaSession) : SchemaServer :=
  { s with sessions := s.sessions.set sid x }

/-- Another transaction that is not at its end has created the name. -/
def pending (s : SchemaServer) (sid : ℕ) (name : String) : Bool :=
  (s.sessions.eraseIdx sid).any fun y ↦ name ∈ y.own

/-- `CREATE`, for a name that was missing. -/
def create (s : SchemaServer) (sid : ℕ) (x : SchemaSession) (st : DdlStatement)
    (rest : List DdlStatement) : Option SchemaServer :=
  if s.pending sid st.name then none
  else if st.name ∈ s.names ++ x.own then
    some (s.put sid { x with pc := .raised (.uniqueViolation st.name), own := [] })
  else
    match st.needs.find? fun n ↦ n ∉ s.names ++ x.own with
    | some n => some (s.put sid { x with pc := .raised (.undefinedTable n), own := [] })
    | none => some (s.put sid { x with pc := .look rest, own := x.own ++ [st.name] })

/-- A session goes on. -/
def go (script : List DdlStatement) (s : SchemaServer) (sid : ℕ) (x : SchemaSession) :
    Option SchemaServer :=
  match x.pc with
  | .lock =>
    if s.sessions.any SchemaSession.inside then none
    else some (s.put sid { x with pc := .look script })
  | .look [] =>
    some { names := s.names ++ x.own
           sessions := s.sessions.set sid { x with pc := .finished, own := [] } }
  | .look (st :: rest) =>
    some (s.put sid
      { x with pc := if st.name ∈ s.names ++ x.own then .look rest else .create st rest })
  | .create st rest => s.create sid x st rest
  | .finished | .raised _ => none

/-- The step function. -/
def step (script : List DdlStatement) (s : SchemaServer) : SchemaStep → Option SchemaServer
  | .start locking =>
    some { s with
      sessions := s.sessions ++ [{ pc := if locking then .lock else .look script }] }
  | .run sid =>
    match s.sessions[sid]? with
    | none => none
    | some x => if x.alive then s.go script sid x else none
  | .die sid =>
    some { s with sessions := s.sessions.modify sid fun x ↦ { x with own := [], alive := false } }

/-- All runs from the empty database. -/
def system (script : List DdlStatement) : TransitionSystem SchemaServer SchemaStep where
  init s := s = ⟨[], []⟩
  step := step script

/-- Every service takes the lock, as the source has it. -/
def Locking (_ : SchemaServer) (a : SchemaStep) : Prop := a ≠ .start false

end SchemaServer

/-! ### The script -/

/-- The names a script creates. -/
def namesOf (script : List DdlStatement) : List String := script.map DdlStatement.name

/-- After what is there, each statement finds its name free and its needs there. -/
def Supplied : List String → List DdlStatement → Prop
  | _, [] => True
  | there, st :: rest => st.name ∉ there ∧ (∀ n ∈ st.needs, n ∈ there) ∧
      Supplied (there ++ [st.name]) rest

/-- The schema's own script names nothing twice, and refers only to what stands before. -/
theorem supplied_schemaSql : Supplied [] schemaSql := by
  simp [Supplied, schemaSql]

namespace SchemaServer

variable {script : List DdlStatement} {s s' : SchemaServer} {a : SchemaStep}

/-! ### Where the sessions stand -/

/-- Where a session inside stands: it creates the schema from the first statement to the last, or
finds all of it. -/
def Placed (script : List DdlStatement) (names : List String) (x : SchemaSession) : Prop :=
  match x.pc with
  | .look todo =>
    (names = [] ∧ Supplied x.own todo ∧ x.own ++ namesOf todo = namesOf script) ∨
    (names = namesOf script ∧ x.own = [] ∧ namesOf todo ⊆ names)
  | .create st rest =>
    names = [] ∧ Supplied x.own (st :: rest) ∧ x.own ++ namesOf (st :: rest) = namesOf script
  | _ => True

/-- What is known of one session. -/
structure SessionOk (script : List DdlStatement) (names : List String) (x : SchemaSession) :
    Prop where
  placed : x.inside = true → Placed script names x
  own : x.inside = false → x.own = []
  finished : x.pc = .finished → names = namesOf script
  unraised : ∀ e, x.pc ≠ .raised e

/-- The schema is there or not, and at most one session is at work on it. -/
structure Orderly (script : List DdlStatement) (s : SchemaServer) : Prop where
  names : s.names = [] ∨ s.names = namesOf script
  session : ∀ (i : ℕ) (x : SchemaSession), s.sessions[i]? = some x →
    SessionOk script s.names x
  alone : ∀ (i k : ℕ) (x y : SchemaSession), s.sessions[i]? = some x → s.sessions[k]? = some y →
    x.inside = true → y.inside = true → i = k

/-- A session goes on, and what is committed stays. -/
theorem Orderly.put (ho : s.Orderly script) {sid : ℕ} {x : SchemaSession}
    (hx : SessionOk script s.names x)
    (halone : x.inside = true → ∀ (k : ℕ) (y : SchemaSession), s.sessions[k]? = some y →
      y.inside = true → sid = k) : (s.put sid x).Orderly script where
  names := ho.names
  session i y hy := by
    rcases List.getElem?_set_eq_some hy with ⟨-, rfl⟩ | ⟨-, hold⟩
    · exact hx
    · exact ho.session i y hold
  alone i k y z hy hz hiny hinz := by
    rcases List.getElem?_set_eq_some hy with ⟨rfl, rfl⟩ | ⟨-, hold⟩
    · rcases List.getElem?_set_eq_some hz with ⟨rfl, rfl⟩ | ⟨-, hold'⟩
      · rfl
      · exact halone hiny k z hold' hinz
    · rcases List.getElem?_set_eq_some hz with ⟨rfl, rfl⟩ | ⟨-, hold'⟩
      · exact (halone hinz i y hold hiny).symm
      · exact ho.alone i k y z hold hold' hiny hinz

/-- A session that was inside goes on inside. -/
theorem Orderly.put_inside (ho : s.Orderly script) {sid : ℕ} {x x' : SchemaSession}
    (hget : s.sessions[sid]? = some x) (hin : x.inside = true)
    (hx' : SessionOk script s.names x') : (s.put sid x').Orderly script :=
  ho.put hx' fun _ k y hy hiny ↦ ho.alone sid k x y hget hy hin hiny

/-- What the session inside creates, nobody else has. -/
theorem Orderly.not_pending (ho : s.Orderly script) {sid : ℕ} {x : SchemaSession}
    (hget : s.sessions[sid]? = some x) (hin : x.inside = true) (name : String) :
    s.pending sid name = false := by
  rw [pending, List.any_eq_false]
  intro y hy
  obtain ⟨k, hne, hk⟩ := List.mem_eraseIdx_iff_getElem?.1 hy
  have hout : y.inside = false :=
    Bool.eq_false_iff.2 fun hiny ↦ hne (ho.alone sid k x y hget hk hin hiny).symm
  rw [(ho.session k y hk).own hout]
  simp

/-! ### Each action of a session -/

variable {sid : ℕ} {x : SchemaSession}

/-- The lock is taken when nobody has it. -/
theorem Orderly.lock (ho : s.Orderly script) (hs : Supplied [] script)
    (hget : s.sessions[sid]? = some x) (hpc : x.pc = .lock)
    (hfree : s.sessions.any SchemaSession.inside = false) :
    (s.put sid { x with pc := .look script }).Orderly script := by
  have hout : x.inside = false := by simp [SchemaSession.inside, hpc]
  have hown := (ho.session sid x hget).own hout
  refine ho.put ⟨fun _ ↦ ?_, fun _ ↦ hown, by simp, by simp⟩ fun _ k y hy hiny ↦ ?_
  · rcases ho.names with hnames | hnames
    · refine .inl ⟨hnames, ?_, ?_⟩
      · rwa [hown]
      · rw [hown, List.nil_append]
    · exact .inr ⟨hnames, hown, by rw [hnames]; exact List.Subset.refl _⟩
  · exact absurd hiny (List.any_eq_false.1 hfree y (List.mem_of_getElem? hy))

/-- The commit. -/
theorem Orderly.commit (ho : s.Orderly script) (hget : s.sessions[sid]? = some x)
    (hin : x.inside = true) (hpc : x.pc = .look []) :
    ({ names := s.names ++ x.own
       sessions := s.sessions.set sid { x with pc := .finished, own := [] } } :
      SchemaServer).Orderly script := by
  have hplaced := (ho.session sid x hget).placed hin
  rw [Placed, hpc] at hplaced
  have hfull : s.names ++ x.own = namesOf script := by
    rcases hplaced with ⟨hnames, -, hown⟩ | ⟨hnames, hown, -⟩
    · rw [hnames, List.nil_append, ← hown, namesOf, List.map_nil, List.append_nil]
    · rw [hnames, hown, List.append_nil]
  have hother : ∀ (i : ℕ) (y : SchemaSession), s.sessions[i]? = some y → sid ≠ i →
      y.inside = false := fun i y hy hne ↦
    Bool.eq_false_iff.2 fun hiny ↦ hne (ho.alone sid i x y hget hy hin hiny)
  refine ⟨.inr hfull, fun i y hy ↦ ?_, fun i k y z hy hz hiny hinz ↦ ?_⟩
  · dsimp only
    rw [hfull]
    rcases List.getElem?_set_eq_some hy with ⟨-, rfl⟩ | ⟨hne, hold⟩
    · exact ⟨by simp [SchemaSession.inside], fun _ ↦ rfl, fun _ ↦ rfl, by simp⟩
    · have hout := hother i y hold hne
      have hy := ho.session i y hold
      exact ⟨fun hiny ↦ absurd hiny (by simp [hout]), hy.own, fun _ ↦ rfl, hy.unraised⟩
  · rcases List.getElem?_set_eq_some hy with ⟨-, rfl⟩ | ⟨hne, hold⟩
    · exact absurd hiny (by simp [SchemaSession.inside])
    · exact absurd hiny (by simp [hother i y hold hne])

/-- A name is looked up. -/
theorem Orderly.look (ho : s.Orderly script) (hget : s.sessions[sid]? = some x)
    (hin : x.inside = true) {st : DdlStatement} {rest : List DdlStatement}
    (hpc : x.pc = .look (st :: rest)) :
    (s.put sid { x with
      pc := if st.name ∈ s.names ++ x.own then .look rest else .create st rest }).Orderly
        script := by
  have hx := ho.session sid x hget
  have hplaced := hx.placed hin
  have halive : x.alive = true := (Bool.and_eq_true_iff.1 hin).1
  rw [Placed, hpc] at hplaced
  rcases hplaced with ⟨hnames, hs, hown⟩ | ⟨hnames, hown, hsub⟩
  · have hfree : st.name ∉ s.names ++ x.own := by
      rw [hnames]
      exact hs.1
    rw [if_neg hfree]
    exact ho.put_inside hget hin ⟨fun _ ↦ ⟨hnames, hs, hown⟩,
      fun hout ↦ absurd hout (by simp [SchemaSession.inside, halive]), by simp, by simp⟩
  · have hthere : st.name ∈ s.names ++ x.own :=
      List.mem_append_left _ (hsub List.mem_cons_self)
    rw [if_pos hthere]
    exact ho.put_inside hget hin ⟨fun _ ↦ .inr ⟨hnames, hown,
      fun n hn ↦ hsub (List.mem_cons_of_mem _ hn)⟩, fun _ ↦ hown, by simp, by simp⟩

/-- **A creation succeeds**: it waits for nobody, finds its name free and its needs there. -/
theorem Orderly.create (ho : s.Orderly script) (hget : s.sessions[sid]? = some x)
    (hin : x.inside = true) {st : DdlStatement} {rest : List DdlStatement}
    (hpc : x.pc = .create st rest) :
    s.create sid x st rest =
        some (s.put sid { x with pc := .look rest, own := x.own ++ [st.name] }) ∧
      (s.put sid { x with pc := .look rest, own := x.own ++ [st.name] }).Orderly script := by
  have hplaced := (ho.session sid x hget).placed hin
  have halive : x.alive = true := (Bool.and_eq_true_iff.1 hin).1
  rw [Placed, hpc] at hplaced
  obtain ⟨hnames, ⟨hfree, hneeds, hs⟩, hown⟩ := hplaced
  have hnone : (st.needs.find? fun n ↦ n ∉ s.names ++ x.own) = none := by
    refine List.find?_eq_none.2 fun n hn ↦ ?_
    simpa [hnames] using hneeds n hn
  constructor
  · rw [SchemaServer.create, ho.not_pending hget hin, if_neg Bool.false_ne_true,
      if_neg (by rwa [hnames]), hnone]
  · refine ho.put_inside hget hin ⟨fun _ ↦ .inl ⟨hnames, hs, ?_⟩,
      fun hout ↦ absurd hout (by simp [SchemaSession.inside, halive]), by simp, by simp⟩
    rw [List.append_assoc]
    exact hown

/-- **A session goes on** where the schema is orderly, and it stays so. -/
theorem Orderly.go (ho : s.Orderly script) (hs : Supplied [] script)
    (hget : s.sessions[sid]? = some x) (halive : x.alive = true)
    (h : s.go script sid x = some s') : s'.Orderly script := by
  rw [SchemaServer.go] at h
  split at h
  · next hpc =>
    split at h
    · contradiction
    · next hfree =>
      obtain rfl := Option.some.inj h
      exact ho.lock hs hget hpc (Bool.eq_false_iff.2 hfree)
  · next hpc =>
    obtain rfl := Option.some.inj h
    exact ho.commit hget (by simp [SchemaSession.inside, halive, hpc]) hpc
  · next st rest hpc =>
    obtain rfl := Option.some.inj h
    exact ho.look hget (by simp [SchemaSession.inside, halive, hpc]) hpc
  · next st rest hpc =>
    obtain ⟨hcreate, ho'⟩ := ho.create hget (by simp [SchemaSession.inside, halive, hpc]) hpc
    obtain rfl := Option.some.inj (hcreate.symm.trans h)
    exact ho'
  · contradiction
  · contradiction

/-- Every step of a session that takes the lock keeps the sessions in order. -/
theorem Orderly.step (ho : s.Orderly script) (hs : Supplied [] script) (hg : Locking s a)
    (h : s.step script a = some s') : s'.Orderly script := by
  cases a with
  | start locking =>
    have hlocking : locking = true := by
      cases locking with
      | false => exact absurd rfl hg
      | true => rfl
    obtain rfl := Option.some.inj h
    rw [if_pos hlocking]
    have hnew : ∀ {i : ℕ} {x : SchemaSession}, (s.sessions ++ [⟨.lock, [], true⟩])[i]? = some x →
        s.sessions[i]? = some x ∨ x = ⟨.lock, [], true⟩ := fun hx ↦
      (List.getElem?_concat_eq_some hx).imp_right fun hx ↦ hx.2.2
    refine ⟨ho.names, fun i x hx ↦ ?_, fun i k x y hx hy hinx hiny ↦ ?_⟩
    · rcases hnew hx with hx | rfl
      · exact ho.session i x hx
      · exact ⟨fun _ ↦ trivial, fun _ ↦ rfl, by simp, by simp⟩
    · rcases hnew hx with hx | rfl
      · rcases hnew hy with hy | rfl
        · exact ho.alone i k x y hx hy hinx hiny
        · contradiction
      · contradiction
  | run sid =>
    rw [SchemaServer.step] at h
    split at h
    · contradiction
    · next x hget =>
      split at h
      · next halive => exact ho.go hs hget halive h
      · contradiction
  | die sid =>
    obtain rfl := Option.some.inj h
    refine ⟨ho.names, fun i x hx ↦ ?_, fun i k x y hx hy hinx hiny ↦ ?_⟩
    · obtain ⟨y, hy, ⟨-, rfl⟩ | ⟨-, rfl⟩⟩ := List.getElem?_modify_eq_some hx
      · have hy := ho.session i y hy
        exact ⟨fun hin ↦ absurd hin (by simp [SchemaSession.inside]), fun _ ↦ rfl, hy.finished,
          hy.unraised⟩
      · exact ho.session i _ hy
    · obtain ⟨x', hx', ⟨-, rfl⟩ | ⟨-, rfl⟩⟩ := List.getElem?_modify_eq_some hx
      · exact absurd hinx (by simp [SchemaSession.inside])
      · obtain ⟨y', hy', ⟨-, rfl⟩ | ⟨-, rfl⟩⟩ := List.getElem?_modify_eq_some hy
        · exact absurd hiny (by simp [SchemaSession.inside])
        · exact ho.alone i k _ _ hx' hy' hinx hiny

/-- When every session takes the lock, the sessions stand in order after any run. -/
theorem orderly_of_reachable (hs : Supplied [] script)
    (h : (system script).Reachable Locking s) : s.Orderly script := by
  refine h.induct (I := fun s ↦ s.Orderly script) (fun s hinit ↦ ?_) fun s a s' _ ih hg hstep ↦
    ih.step hs hg hstep
  rw [hinit]
  exact ⟨.inl rfl, fun i x hx ↦ absurd hx (by simp), fun i k x y hx ↦ absurd hx (by simp)⟩

/-! ### Everybody gets through -/

/-- How many times a session has still to go on. -/
def left (script : List DdlStatement) (x : SchemaSession) : ℕ :=
  if x.alive then
    match x.pc with
    | .lock => 2 * script.length + 2
    | .look todo => 2 * todo.length + 1
    | .create _ rest => 2 * rest.length + 2
    | .finished | .raised _ => 0
  else 0

/-- The living sessions have returned. -/
def Returned (s : SchemaServer) : Prop :=
  ∀ x ∈ s.sessions, x.alive = true → x.pc = .finished

/-- Sessions go on, and nothing else happens. -/
def OnlyRuns (_ : SchemaServer) (a : SchemaStep) : Prop := ∃ sid, a = .run sid

/-- Who has the lock can go on, and when nobody has it, who waits for it. -/
theorem Orderly.exists_go (ho : s.Orderly script) (hget : s.sessions[sid]? = some x)
    (halive : x.alive = true) (hpc : x.pc ≠ .finished)
    (hfree : x.pc = .lock → s.sessions.any SchemaSession.inside = false) :
    ∃ s' x', s.go script sid x = some s' ∧ s'.sessions = s.sessions.set sid x' ∧
      left script x' < left script x := by
  cases h : x.pc with
  | lock =>
    have hgo : s.go script sid x = some (s.put sid { x with pc := .look script }) := by
      rw [SchemaServer.go, h]
      dsimp only
      rw [hfree h, if_neg Bool.false_ne_true]
    refine ⟨_, { x with pc := .look script }, hgo, rfl, ?_⟩
    simp [left, halive, h]
  | look todo =>
    cases todo with
    | nil =>
      refine ⟨_, { x with pc := .finished, own := [] }, by rw [SchemaServer.go, h], rfl, ?_⟩
      simp [left, halive, h]
    | cons st rest =>
      refine ⟨_, _, by rw [SchemaServer.go, h], rfl, ?_⟩
      split
      · simp [left, halive, h]
      · simp only [left, halive, h, if_true, List.length_cons]
        omega
  | create st rest =>
    have hin : x.inside = true := by simp [SchemaSession.inside, halive, h]
    have hgo : s.go script sid x =
        some (s.put sid { x with pc := .look rest, own := x.own ++ [st.name] }) := by
      rw [SchemaServer.go, h]
      exact (ho.create hget hin h).1
    refine ⟨_, { x with pc := .look rest, own := x.own ++ [st.name] }, hgo, rfl, ?_⟩
    simp [left, halive, h]
  | finished => exact absurd h hpc
  | raised e => exact absurd h ((ho.session sid x hget).unraised e)

/-- As long as some session has not returned, one can go on. -/
theorem Orderly.progress (ho : s.Orderly script) (hs : Supplied [] script)
    (hleft : ¬ s.Returned) : ∃ s', (system script).Leads OnlyRuns s s' ∧ s'.Orderly script ∧
      (s'.sessions.map (left script)).sum < (s.sessions.map (left script)).sum := by
  have hgo : ∀ (sid : ℕ) (x : SchemaSession), s.sessions[sid]? = some x → x.alive = true →
      x.pc ≠ .finished → (x.pc = .lock → s.sessions.any SchemaSession.inside = false) →
      ∃ s', (system script).Leads OnlyRuns s s' ∧ s'.Orderly script ∧
        (s'.sessions.map (left script)).sum < (s.sessions.map (left script)).sum := by
    intro sid x hget halive hpc hfree
    obtain ⟨s', x', hstep, hsessions, hlt⟩ := ho.exists_go hget halive hpc hfree
    refine ⟨s', .single (a := .run sid) ⟨sid, rfl⟩ ?_, ho.go hs hget halive hstep, ?_⟩
    · show s.step script (.run sid) = some s'
      rw [SchemaServer.step, hget]
      simp only [halive, if_true]
      exact hstep
    · rw [hsessions]
      exact List.sum_map_set_lt hget hlt
  cases hany : s.sessions.any SchemaSession.inside with
  | true =>
    obtain ⟨x, hx, hin⟩ := List.any_eq_true.1 hany
    obtain ⟨sid, hget⟩ := List.mem_iff_getElem?.1 hx
    refine hgo sid x hget (Bool.and_eq_true_iff.1 hin).1 (fun hpc ↦ ?_) fun hpc ↦ ?_
    · exact absurd hin (by simp [SchemaSession.inside, hpc])
    · exact absurd hin (by simp [SchemaSession.inside, hpc])
  | false =>
    obtain ⟨x, hx, halive, hpc⟩ : ∃ x ∈ s.sessions, x.alive = true ∧ x.pc ≠ .finished := by
      simpa [Returned] using hleft
    obtain ⟨sid, hget⟩ := List.mem_iff_getElem?.1 hx
    exact hgo sid x hget halive hpc fun _ ↦ hany

/-- **The schema is applied**, however many services start at once, in whatever order they go on,
and whichever connections are lost. No session raises; what is committed is nothing or the whole
schema, and the whole schema once a session has returned; and from every state the sessions alone
can go on until all living ones have returned. -/
theorem schema_applied (h : (system schemaSql).Reachable Locking s) :
    (∀ x ∈ s.sessions, ∀ e, x.pc ≠ .raised e) ∧
    (s.names = [] ∨ s.names = namesOf schemaSql) ∧
    (∀ x ∈ s.sessions, x.pc = .finished → s.names = namesOf schemaSql) ∧
    (system schemaSql).CanReach OnlyRuns Returned s := by
  have ho := orderly_of_reachable supplied_schemaSql h
  refine ⟨fun x hx ↦ ?_, ho.names, fun x hx ↦ ?_, ?_⟩
  · obtain ⟨sid, hget⟩ := List.mem_iff_getElem?.1 hx
    exact (ho.session sid x hget).unraised
  · obtain ⟨sid, hget⟩ := List.mem_iff_getElem?.1 hx
    exact (ho.session sid x hget).finished
  · refine (TransitionSystem.CanReach.of_rank (I := fun s ↦ s.Orderly schemaSql)
      (fun s : SchemaServer ↦ (s.sessions.map (left schemaSql)).sum)
      (fun s ho hleft ↦ ho.progress supplied_schemaSql hleft) ho).mono (fun _ _ h ↦ h)
      fun _ _ h ↦ h.2

/-- A test for `Locking`. -/
def locks : SchemaStep → Bool
  | .start locking => locking
  | _ => true

theorem locking_of_locks (h : locks a = true) : Locking s a := by
  rintro rfl
  contradiction

/-- The first session creates two tables and is lost; the second does it all, and the third, which
waited for it, finds everything there. -/
def appliesTwice : List SchemaStep :=
  [.start true, .start true] ++ List.replicate 5 (.run 0) ++ [.die 0] ++
    List.replicate 12 (.run 1) ++ [.start true] ++ List.replicate 7 (.run 2)

/-- Three services start, the first one loses its connection halfway, and the schema is applied. -/
theorem schema_applied_of_lost : ∃ s : SchemaServer,
    (system schemaSql).Reachable Locking s ∧ s.names = namesOf schemaSql ∧
    s.sessions.map SchemaSession.alive = [false, true, true] ∧
    ∀ x ∈ s.sessions, ∀ e, x.pc ≠ .raised e := by
  have hrun : ((system schemaSql).execGuarded (fun _ a ↦ locks a) ⟨[], []⟩ appliesTwice).any
      (fun s ↦ s.names = namesOf schemaSql &&
        s.sessions.map SchemaSession.alive = [false, true, true]) = true := by
    rfl
  obtain ⟨s, hl, hp⟩ := TransitionSystem.exists_leads_of_execGuarded
    (fun _ _ hg ↦ locking_of_locks hg) hrun
  obtain ⟨hnames, halive⟩ := Bool.and_eq_true_iff.1 hp
  have hr : (system schemaSql).Reachable Locking s := ⟨_, rfl, hl⟩
  exact ⟨s, hr, of_decide_eq_true hnames, of_decide_eq_true halive, (schema_applied hr).1⟩

/-- The session has failed on somebody else's name. -/
def collided (x : SchemaSession) : Bool :=
  match x.pc with
  | .raised (.uniqueViolation _) => true
  | _ => false

/-- **Without the lock two sessions collide**: both find a name missing, and the second creates it
after the first has committed. -/
theorem collides_without_lock : ∃ s : SchemaServer,
    (system schemaSql).Reachable TransitionSystem.anyStep s ∧
    ∃ x ∈ s.sessions, collided x = true := by
  have hrun : ((system schemaSql).exec ⟨[], []⟩ ([.start false, .start false, .run 1] ++
      List.replicate 11 (.run 0) ++ [.run 1])).any
      (fun s ↦ s.sessions.any collided) = true := by
    rfl
  obtain ⟨s, hl, hp⟩ := TransitionSystem.exists_leads_of_exec hrun
  exact ⟨s, ⟨_, rfl, hl⟩, List.any_eq_true.1 hp⟩

end SchemaServer

end Orbiter
