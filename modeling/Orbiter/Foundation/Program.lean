import Mathlib.Init

/-!
# Programs that make calls, raise and catch

A coroutine of an asynchronous program is the tree of the calls it awaits: it returns, raises, or
makes a call and continues with the answer, which is a response or an exception. Sequencing, `try …
except` and `try … finally` are functions on such trees, so control flow can be written down the way
the source writes it, exceptions raised inside a handler included.

Reasoning about interleavings needs the other view: a coroutine suspended between two calls is a
*control point*, plain data. `Follows view p prog` says that a machine of control points, given by
its one-step `view`, standing at `p`, behaves exactly as the program `prog` from here on, whatever
the answers are.

## Contents

* `Prog`, with `bind`, `await`, `tryExcept`, `tryFinally` — programs, and the constructs of the
  source on them. `liftCalls` embeds a program into one over a larger set of calls;
* `Makes` — the calls a program can come to make, over all answers. One lemma per construct says
  what a composed program can make, so which keys or tables it touches is read off its parts;
* `Comes` — a program that makes a call of some kind on every path, or never ends;
* `View`, `Follows` — the machine of control points, and that it is the program. `Follows.of_call`
  is the rule for one call: the answer and the exception are two obligations.

A program of one kind of calls is data of the size of its text: nothing here runs it. Runs are the
subject of `Interleaving`, for programs as they stand, and of the systems that step control points.
-/

/-- Programs over calls `C` with responses `R`, exceptions `ε` and result `α`. -/
inductive Prog (C : Type) (R : C → Type) (ε α : Type) : Type
  | ret (a : α)
  | raise (e : ε)
  | call (c : C) (k : Except ε (R c) → Prog C R ε α)

namespace Prog

variable {C : Type} {R : C → Type} {ε α β : Type}

/-- Sequencing: a raise skips the rest. -/
def bind : Prog C R ε α → (α → Prog C R ε β) → Prog C R ε β
  | ret a, f => f a
  | raise e, _ => raise e
  | call c k, f => call c fun r ↦ (k r).bind f

instance : Monad (Prog C R ε) where
  pure := ret
  bind := bind

/-- Await one call: its response is the value, its exception is raised. -/
def await (c : C) : Prog C R ε (R c) :=
  call c fun
    | .ok r => ret r
    | .error e => raise e

/-- `try p except h`: the handler sees what `p` raises; what the handler raises leaves the
statement. -/
def tryExcept : Prog C R ε α → (ε → Prog C R ε α) → Prog C R ε α
  | ret a, _ => ret a
  | raise e, h => h e
  | call c k, h => call c fun r ↦ (k r).tryExcept h

/-- `try p finally q`: `q` runs on both exits, and the exit is then resumed. -/
def tryFinally : Prog C R ε α → Prog C R ε β → Prog C R ε α
  | ret a, q => q.bind fun _ ↦ ret a
  | raise e, q => q.bind fun _ ↦ raise e
  | call c k, q => call c fun r ↦ (k r).tryFinally q

/-- Make the calls of a program through another interface. -/
def liftCalls {C' : Type} {R' : C' → Type} (f : C → C') (g : ∀ c, R' (f c) → R c) :
    Prog C R ε α → Prog C' R' ε α
  | ret a => ret a
  | raise e => raise e
  | call c k => call (f c) fun r ↦ (k (r.map (g c))).liftCalls f g

/-- The calls a program can make, whatever the answers are. -/
inductive Makes : Prog C R ε α → C → Prop
  | first (c : C) (k : Except ε (R c) → Prog C R ε α) : Makes (call c k) c
  | later {c c' : C} {k : Except ε (R c) → Prog C R ε α} {r : Except ε (R c)}
      (h : Makes (k r) c') : Makes (call c k) c'

theorem not_makes_ret {a : α} {c : C} (h : Makes (ret a : Prog C R ε α) c) : False := nomatch h

/-- What a program that is about to make a call can make: that call, or what follows some answer. -/
theorem makes_call {c c' : C} {k : Except ε (R c) → Prog C R ε α} (h : Makes (call c k) c') :
    c' = c ∨ ∃ r, Makes (k r) c' := by
  rcases h with _ | h
  · exact .inl rfl
  · exact .inr ⟨_, h⟩

theorem makes_await {c c' : C} (h : Makes (await c : Prog C R ε (R c)) c') : c' = c := by
  rcases makes_call h with h | ⟨_ | _, h⟩
  · exact h
  · exact nomatch h
  · exact nomatch h

/-- A sequence makes the calls of its first part and those of what follows it. -/
theorem makes_bind {p : Prog C R ε α} {f : α → Prog C R ε β} {c : C} (h : Makes (p.bind f) c) :
    Makes p c ∨ ∃ a, Makes (f a) c := by
  induction p with
  | ret a => exact .inr ⟨a, h⟩
  | raise e => exact nomatch h
  | call c' k ih =>
    rcases makes_call h with rfl | ⟨r, h⟩
    · exact .inl (.first c k)
    · exact (ih r h).imp .later id

/-- The handler's calls are among those of `try … except`. -/
theorem makes_tryExcept {p : Prog C R ε α} {f : ε → Prog C R ε α} {c : C}
    (h : Makes (p.tryExcept f) c) : Makes p c ∨ ∃ e, Makes (f e) c := by
  induction p with
  | ret a => exact nomatch h
  | raise e => exact .inr ⟨e, h⟩
  | call c' k ih =>
    rcases makes_call h with rfl | ⟨r, h⟩
    · exact .inl (.first c k)
    · exact (ih r h).imp .later id

/-- The program comes to a call in `T`, whatever the answers are. -/
inductive Comes (T : C → Prop) : Prog C R ε α → Prop
  | now {c : C} {k : Except ε (R c) → Prog C R ε α} (h : T c) : Comes T (call c k)
  | later {c : C} {k : Except ε (R c) → Prog C R ε α} (h : ∀ r, Comes T (k r)) : Comes T (call c k)

theorem Comes.await {T : C → Prop} {c : C} (h : T c) : Comes T (await c : Prog C R ε (R c)) :=
  .now h

theorem not_comes_raise {T : C → Prop} {e : ε} : ¬Comes T (raise e : Prog C R ε α) :=
  fun h ↦ nomatch h

/-- What comes after a `try` whose handler returns is reached on every path. -/
theorem Comes.of_tryExcept {T : C → Prop} {f : α → Prog C R ε β} (hf : ∀ a, Comes T (f a)) (a : α)
    (p : Prog C R ε α) : Comes T ((p.tryExcept fun _ ↦ ret a).bind f) := by
  induction p with
  | ret b => exact hf b
  | raise e => exact hf a
  | call c k ih => exact .later fun r ↦ ih r

/-- What a control point does next: end with a result or an exception, or make a call and move on
with the answer. -/
abbrev View (C : Type) (R : C → Type) (ε α P : Type) : Type :=
  P → Except ε α ⊕ (Σ c : C, Except ε (R c) → P)

/-- The machine at control point `p` behaves as the program. -/
def Follows {P : Type} (view : View C R ε α P) : P → Prog C R ε α → Prop
  | p, ret a => view p = .inl (.ok a)
  | p, raise e => view p = .inl (.error e)
  | p, call c k => ∃ k', view p = .inr ⟨c, k'⟩ ∧ ∀ r, Follows view (k' r) (k r)

/-- **The rule for one call.** The machine makes the call the program makes, and follows it after
every answer and every exception. -/
theorem Follows.of_call {P : Type} {view : View C R ε α P} {p : P} {prog : Prog C R ε α} {c : C}
    {k' : Except ε (R c) → P} {k : Except ε (R c) → Prog C R ε α} (hv : view p = .inr ⟨c, k'⟩)
    (hp : prog = call c k) (hok : ∀ r, Follows view (k' (.ok r)) (k (.ok r)))
    (herr : ∀ e, Follows view (k' (.error e)) (k (.error e))) : Follows view p prog := by
  subst hp
  exact ⟨k', hv, fun
    | .ok r => hok r
    | .error e => herr e⟩

end Prog
