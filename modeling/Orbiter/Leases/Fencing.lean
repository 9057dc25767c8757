import Mathlib.Data.List.Basic
import Orbiter.Data.Uuid
import Orbiter.Kv.Store

/-!
# Leases with fencing tokens

`acquire` draws a token from a counter that only grows and then tries to take the lease entry;
`release` deletes the entry only if it still holds the value this very lease wrote. The two are
programs of calls to the store, and other callers run between the calls.

* `LeaseManager.acquire`, `LeaseManager.release` — the programs. A token that was drawn for a lease
  that is then not granted is lost, and the next one is larger;
* `FencedWriter` — the rule on the other side, a resource that refuses a token older than the newest
  one it has accepted;
* `leaseKey`, `tokenKey`, `leaseValue` — the keys and the text of an entry. The value is
  `holder:token`. A token has no colon in it, so the text determines both parts whatever the holder
  string is (`leaseValue_inj`), and the compare-and-delete of one lease never matches the entry of
  another.
-/

namespace Orbiter

/-- A write refused because a newer holder has already written. -/
structure StaleLeaseError where
  resource : String
  token : ℤ
  newestSeen : ℤ
  deriving DecidableEq

/-- A lease, as its holder remembers it. -/
structure Lease where
  resource : String
  holder : String
  token : ℕ
  deriving DecidableEq

/-- The newest token accepted for each resource, `0` before the first. -/
structure FencedWriter where
  newestAccepted : String → ℤ

namespace FencedWriter

/-- Nothing accepted yet. -/
def empty : FencedWriter := ⟨fun _ ↦ 0⟩

/-- Accept `token >= newest accepted`, reject older. -/
def check (writer : FencedWriter) (resource : String) (token : ℤ) :
    Except StaleLeaseError FencedWriter :=
  if token < writer.newestAccepted resource then
    .error ⟨resource, token, writer.newestAccepted resource⟩
  else .ok ⟨fun r ↦ if r = resource then token else writer.newestAccepted r⟩

end FencedWriter

namespace LeaseManager

variable {τ ε : Type}

def leaseKey (resource : String) : String := "orbiter:lease:" ++ resource

def tokenKey (resource : String) : String := "orbiter:lease:" ++ resource ++ ":token"

/-- The entry a holder writes: `f"{holder}:{token}"`. -/
def leaseValue (holder : String) (token : ℕ) : String := holder ++ ":" ++ token.repr

/-- The counter is incremented *before* the set, so a failed acquire burns a token. -/
def acquire (ttlS : τ) (resource holder : String) :
    KvProg τ ε (Option Lease) := do
  let token ← KeyValueStore.incr (tokenKey resource)
  let acquired ← KeyValueStore.setIfAbsent (leaseKey resource) (leaseValue holder token) ttlS
  if acquired then return some ⟨resource, holder, token⟩ else return none

/-- Release only if we still hold it. -/
def release (lease : Lease) : KvProg τ ε Bool :=
  KeyValueStore.compareAndDelete (leaseKey lease.resource) (leaseValue lease.holder lease.token)

/-! ### Keys and values -/

theorem leaseKey_inj {r r' : String} : leaseKey r = leaseKey r' ↔ r = r' :=
  String.append_right_inj _

theorem colon_not_mem_repr (n : ℕ) : ':' ∉ n.repr.toList := by
  intro h
  rw [Nat.toList_repr] at h
  exact absurd (Nat.isDigit_of_mem_toDigits (by decide) (by decide) h) (by decide)

/-- A list splits at its last separator in one way only. -/
theorem append_cons_inj {α : Type} {c : α} {a b d e : List α} (hd : c ∉ d) (he : c ∉ e)
    (h : a ++ c :: d = b ++ c :: e) : a = b ∧ d = e := by
  rcases List.append_eq_append_iff.1 h with ⟨x, hb, hx⟩ | ⟨x, ha, hx⟩
  · cases x with
    | nil => simp_all
    | cons y x =>
      obtain ⟨-, rfl⟩ := List.cons.inj hx
      exact absurd (by simp) hd
  · cases x with
    | nil => simp_all
    | cons y x =>
      obtain ⟨-, rfl⟩ := List.cons.inj hx
      exact absurd (by simp) he

/-- **Ownership is in the text.** Holder and token can be read back from the entry. -/
theorem leaseValue_inj {h h' : String} {t t' : ℕ} (heq : leaseValue h t = leaseValue h' t') :
    h = h' ∧ t = t' := by
  have hl := congrArg String.toList heq
  simp only [leaseValue, String.toList_append, List.append_assoc] at hl
  obtain ⟨hh, ht⟩ := append_cons_inj (colon_not_mem_repr t) (colon_not_mem_repr t') hl
  have hd := congrArg (fun ds ↦ Nat.ofDigitChars 10 ds 0) ht
  simp only [Nat.toList_repr, Nat.ofDigitChars_ten_toDigits] at hd
  exact ⟨String.toList_inj.1 hh, hd⟩

end LeaseManager

end Orbiter
