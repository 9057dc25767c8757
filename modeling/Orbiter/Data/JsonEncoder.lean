import Mathlib.Data.Nat.Digits.Lemmas
import Orbiter.Data.JsonDecoder
import Orbiter.Data.Uuid

/-!
# `json.dumps`, and reading it back

The encoder for objects whose values are strings and integers, as Python writes them by default:
pure ASCII, everything else escaped, characters beyond the basic plane as two escapes. Python
refuses to print an integer of more than 4300 digits, so encoding is partial. What it prints, the
decoder reads back: a lookup in the document read finds the value encoded (`loads_dumps`).

## How the round trip is proved

The decoder is a fold over characters, so each piece of the output has a lemma that says what it
does to the machine, whatever stands on the stack:

* `foldlM_escapeChar`, `foldlM_dumpStr` — a string, through escapes and surrogate pairs;
* `foldlM_dumpNat`, `foldlM_dumpInt` — an integer below the print limit, which leaves the machine
  inside a number: only the character after it ends it, hence `EndsField`;
* `foldlM_scalar`, `foldlM_field`, `foldlM_dumpFields` — a value with what ends it, a field, and the
  fields one after the other. The induction is on the list of fields, the accumulator is what has
  been read so far;
* `decodeUtf8_ascii`, `detectEncoding_brace` — the bytes are ASCII and start with a brace, so they
  are taken for UTF-8 and decoded to the characters printed.

`lookup_setFields` then turns the accumulator into what a caller asks: with distinct keys, every
field is found under its key.
-/

namespace Orbiter

namespace JsonEncoder

open JsonDecoder

/-- A string or an integer. -/
inductive Scalar
  | str (s : String)
  | int (n : ℤ)

def Scalar.json : Scalar → Json
  | str s => .str s
  | int n => .int n

/-- `\uXXXX`. -/
def escapeUnit (n : ℕ) : List Char :=
  ['\\', 'u', hexDigit (n / 4096), hexDigit (n / 256 % 16), hexDigit (n / 16 % 16),
    hexDigit (n % 16)]

def escapeChar (c : Char) : List Char :=
  if c = '"' then ['\\', '"']
  else if c = '\\' then ['\\', '\\']
  else if c = '\n' then ['\\', 'n']
  else if c = '\r' then ['\\', 'r']
  else if c = '\t' then ['\\', 't']
  else if c = '\x0c' then ['\\', 'f']
  else if c = '\x08' then ['\\', 'b']
  else if 0x20 ≤ c.toNat ∧ c.toNat ≤ 0x7E then [c]
  else if c.toNat < 0x10000 then escapeUnit c.toNat
  else escapeUnit (0xD800 + (c.toNat - 0x10000) / 0x400) ++
    escapeUnit (0xDC00 + (c.toNat - 0x10000) % 0x400)

def dumpStr (s : String) : List Char := '"' :: s.toList.flatMap escapeChar ++ ['"']

def dumpNat (n : ℕ) : List Char :=
  if n = 0 then ['0'] else (Nat.digits 10 n).reverse.map hexDigit

def dumpInt (n : ℤ) : List Char := if n < 0 then '-' :: dumpNat n.natAbs else dumpNat n.natAbs

def Scalar.dump : Scalar → List Char
  | str s => dumpStr s
  | int n => dumpInt n

/-- Python prints integers of at most 4300 digits. -/
def printLimit : ℕ := 10 ^ 4300

def Scalar.printable : Scalar → Bool
  | str _ => true
  | int n => n.natAbs < printLimit

def dumpFields : List (String × Scalar) → List Char
  | [] => []
  | [(key, v)] => dumpStr key ++ ':' :: ' ' :: v.dump
  | (key, v) :: f :: fs =>
    dumpStr key ++ ':' :: ' ' :: (v.dump ++ ',' :: ' ' :: dumpFields (f :: fs))

/-- `json.dumps(fields).encode()`; `none` is `ValueError`. -/
def dumps (fields : List (String × Scalar)) : Option (List UInt8) :=
  if fields.all fun f ↦ f.2.printable then
    some (('\x7b' :: dumpFields fields ++ ['\x7d']).map fun c ↦ c.toNat.toUInt8)
  else none

/-! ### Reading strings -/

/-- A fold over two texts is the second one's, from where the first one leads. -/
theorem foldlM_append_of_ok {σ α ε : Type} {f : σ → α → Except ε σ} {l l' : List α} {s s' : σ}
    (h : l.foldlM f s = .ok s') : (l ++ l').foldlM f s = l'.foldlM f s' := by
  rw [List.foldlM_append, h]
  rfl

theorem hexDigit?_hexDigit {d : ℕ} (h : d < 16) : hexDigit? (hexDigit d) = some d := by
  have key : ∀ d : Fin 16, hexDigit? (hexDigit d) = some d.val := by decide
  exact key ⟨d, h⟩

theorem charOf_toNat (c : Char) : charOf c.toNat = c := by
  rw [charOf, if_pos (show c.toNat.isValidChar from c.valid), Char.ofNat_toNat]

/-- An escape is read as its code unit. -/
theorem foldlM_escapeUnit (depth : ℕ) (stack : List Frame) (isKey : Bool) (high : Option ℕ)
    (acc : List Char) {n : ℕ} (h : n < 0x10000) :
    (escapeUnit n).foldlM (step depth) ⟨stack, .text isKey high acc⟩ =
      .ok ⟨stack, .text isKey (escapedUnit high acc n).1 (escapedUnit high acc n).2⟩ := by
  have h₁ := hexDigit?_hexDigit (d := n / 4096) (by omega)
  have h₂ := hexDigit?_hexDigit (d := n / 256 % 16) (by omega)
  have h₃ := hexDigit?_hexDigit (d := n / 16 % 16) (by omega)
  have h₄ := hexDigit?_hexDigit (d := n % 16) (by omega)
  have hn : ((n / 4096 * 16 + n / 256 % 16) * 16 + n / 16 % 16) * 16 + n % 16 = n := by omega
  simp [escapeUnit, List.foldlM_cons, step, h₁, h₂, h₃, h₄, hn, bind, Except.bind, pure,
    Except.pure]

/-- Characters are no surrogates. -/
theorem not_surrogate (c : Char) : c.toNat < 0xD800 ∨ 0xE000 ≤ c.toNat ∧ c.toNat < 0x110000 := by
  have h : c.toNat.isValidChar := c.valid
  rw [Nat.isValidChar] at h
  omega

theorem escapedUnit_high {n : ℕ} (acc : List Char) (h : isHighSurrogate n = true) :
    escapedUnit none acc n = (some n, acc) := by
  simp [escapedUnit, h]

/-- A low surrogate after a high one makes the character of both. -/
theorem escapedUnit_low {m n : ℕ} (acc : List Char) (h : isLowSurrogate n = true) :
    escapedUnit (some m) acc n = (none, charOf (joinSurrogates m n) :: acc) := by
  simp [escapedUnit, h]

/-- A character of the basic plane, escaped, is read back. -/
theorem escapedUnit_toNat (acc : List Char) (c : Char) :
    escapedUnit none acc c.toNat = (none, c :: acc) := by
  have hno := not_surrogate c
  have hhigh : isHighSurrogate c.toNat = false := by
    simp [isHighSurrogate]
    omega
  rw [escapedUnit, hhigh, charOf_toNat]
  rfl

theorem joinSurrogates_add (q r : ℕ) :
    joinSurrogates (0xD800 + q) (0xDC00 + r) = 0x10000 + q * 0x400 + r := by
  have cancel (a b : ℕ) :
      0x10000 + (a + q - a) * 0x400 + (b + r - b) = 0x10000 + q * 0x400 + r := by
    rw [Nat.add_sub_cancel_left, Nat.add_sub_cancel_left]
  exact cancel 0xD800 0xDC00

/-- A character beyond the basic plane is the pair of its escapes. -/
theorem escapedUnit_pair (acc : List Char) {c : Char} (h : 0x10000 ≤ c.toNat) :
    escapedUnit (escapedUnit none acc (0xD800 + (c.toNat - 0x10000) / 0x400)).1
        (escapedUnit none acc (0xD800 + (c.toNat - 0x10000) / 0x400)).2
        (0xDC00 + (c.toNat - 0x10000) % 0x400) = (none, c :: acc) := by
  have hno := not_surrogate c
  have hhigh : isHighSurrogate (0xD800 + (c.toNat - 0x10000) / 0x400) = true := by
    simp [isHighSurrogate]
    omega
  have hlow : isLowSurrogate (0xDC00 + (c.toNat - 0x10000) % 0x400) = true := by
    simp [isLowSurrogate]
    omega
  have hjoin : joinSurrogates (0xD800 + (c.toNat - 0x10000) / 0x400)
      (0xDC00 + (c.toNat - 0x10000) % 0x400) = c.toNat := by
    rw [joinSurrogates_add]
    omega
  rw [escapedUnit_high acc hhigh, escapedUnit_low acc hlow, hjoin, charOf_toNat]

/-- A character is read back, escaped or not. -/
theorem foldlM_escapeChar (depth : ℕ) (stack : List Frame) (isKey : Bool) (acc : List Char)
    (c : Char) : (escapeChar c).foldlM (step depth) ⟨stack, .text isKey none acc⟩ =
      .ok ⟨stack, .text isKey none (c :: acc)⟩ := by
  have hshort {d e : Char} (hd : d ≠ 'u') (he : shortEscape? d = some e) :
      ['\\', d].foldlM (step depth) ⟨stack, .text isKey none acc⟩ =
        .ok ⟨stack, .text isKey none (e :: acc)⟩ := by
    simp [List.foldlM_cons, step, hd, he, flush, bind, Except.bind, pure, Except.pure]
  rw [escapeChar]
  split
  · next h =>
    subst h
    exact hshort (by decide) (by decide)
  split
  · next h =>
    subst h
    exact hshort (by decide) (by decide)
  split
  · next h =>
    subst h
    exact hshort (by decide) (by decide)
  split
  · next h =>
    subst h
    exact hshort (by decide) (by decide)
  split
  · next h =>
    subst h
    exact hshort (by decide) (by decide)
  split
  · next h =>
    subst h
    exact hshort (by decide) (by decide)
  split
  · next h =>
    subst h
    exact hshort (by decide) (by decide)
  split
  · next hq hb _ _ _ _ _ hplain =>
    have hctrl : ¬c.toNat ≤ 0x1F := by omega
    simp [List.foldlM_cons, step, hq, hb, hctrl, flush, bind, Except.bind, pure, Except.pure]
  split
  · next h => rw [foldlM_escapeUnit depth stack isKey none acc h, escapedUnit_toNat]
  · next h =>
    have hno := not_surrogate c
    rw [foldlM_append_of_ok (foldlM_escapeUnit depth stack isKey none acc (by omega)),
      foldlM_escapeUnit depth stack isKey _ _ (by omega), escapedUnit_pair acc (by omega)]

/-- The characters of a string are read in order, so they lie reversed on the accumulator. -/
theorem foldlM_flatMap_escapeChar (depth : ℕ) (stack : List Frame) (isKey : Bool) (acc : List Char)
    (cs : List Char) : (cs.flatMap escapeChar).foldlM (step depth) ⟨stack, .text isKey none acc⟩ =
      .ok ⟨stack, .text isKey none (cs.reverse ++ acc)⟩ := by
  induction cs generalizing acc with
  | nil => rfl
  | cons c cs ih =>
    rw [List.flatMap_cons, foldlM_append_of_ok (foldlM_escapeChar depth stack isKey acc c), ih,
      List.reverse_cons, List.append_assoc, List.singleton_append]

/-- A string is read from its opening quote on. -/
theorem foldlM_dumpStr {depth : ℕ} {r : Reader} {isKey : Bool} {stack : List Frame}
    (hr : step depth r '"' = .ok ⟨stack, .text isKey none []⟩) (s : String) :
    (dumpStr s).foldlM (step depth) r = completeText isKey s.toList.reverse stack := by
  have hopen : ['"'].foldlM (step depth) r = .ok ⟨stack, .text isKey none []⟩ := by
    simp [List.foldlM_cons, hr, bind, Except.bind, pure, Except.pure]
  rw [dumpStr, List.cons_append, ← List.singleton_append, foldlM_append_of_ok hopen,
    foldlM_append_of_ok (foldlM_flatMap_escapeChar depth stack isKey [] s.toList), List.append_nil]
  cases h : completeText isKey s.toList.reverse stack <;>
    simp [List.foldlM_cons, step, flush, h, bind, Except.bind, pure, Except.pure]

/-! ### Reading integers -/

theorem digit?_hexDigit {d : ℕ} (h : d < 10) : digit? (hexDigit d) = some d := by
  have key : ∀ d : Fin 10, digit? (hexDigit d) = some d.val := by decide
  exact key ⟨d, h⟩

/-- Digits are added to a number. -/
theorem foldlM_digits (depth : ℕ) (stack : List Frame) (x : Number) {ds : List ℕ}
    (h : ∀ d ∈ ds, d < 10) :
    (ds.map hexDigit).foldlM (step depth) ⟨stack, .number .int x⟩ =
      .ok ⟨stack, .number .int { x with int := ds.reverse ++ x.int }⟩ := by
  induction ds generalizing x with
  | nil => rfl
  | cons d ds ih =>
    have hd := digit?_hexDigit (h d List.mem_cons_self)
    have hstep : [hexDigit d].foldlM (step depth) ⟨stack, .number .int x⟩ =
        .ok ⟨stack, .number .int { x with int := d :: x.int }⟩ := by
      simp [List.foldlM_cons, step, stepNumber, hd, bind, Except.bind, pure, Except.pure]
    rw [List.map_cons, ← List.singleton_append, foldlM_append_of_ok hstep,
      ih _ fun e he ↦ h e (List.mem_cons_of_mem d he)]
    simp

/-- Reading the decimal digits of a number gives the number. -/
theorem ofDigits_digits (n : ℕ) : ofDigits (Nat.digits 10 n) = n := by
  rw [ofDigits]
  conv_rhs => rw [← Nat.ofDigits_digits 10 n, Nat.ofDigits_eq_foldr]
  congr 1
  funext d m
  simp [Nat.add_comm]

/-- A natural number is read from a reader that takes a digit as its first. -/
theorem foldlM_dumpNat {depth : ℕ} {r : Reader} {stack : List Frame} {neg : Bool}
    (hr : ∀ d < 10, step depth r (hexDigit d) =
      .ok ⟨stack, .number (if d = 0 then .zero else .int) { neg := neg, int := [d] }⟩) (n : ℕ) :
    ∃ part x, (dumpNat n).foldlM (step depth) r = .ok ⟨stack, .number part x⟩ ∧
      (part = .zero ∨ part = .int) ∧ x.neg = neg ∧ ofDigits x.int = n ∧
      (n < printLimit → x.int.length ≤ 4300) := by
  have hfirst {d : ℕ} (hd : d < 10) : [hexDigit d].foldlM (step depth) r =
      .ok ⟨stack, .number (if d = 0 then .zero else .int) { neg := neg, int := [d] }⟩ := by
    simp [List.foldlM_cons, hr d hd, bind, Except.bind, pure, Except.pure]
  rw [dumpNat]
  split
  · next h0 =>
    exact ⟨_, _, hfirst (d := 0) (by decide), .inl rfl, rfl, h0.symm, fun _ ↦ by simp⟩
  · next h0 =>
    rcases List.eq_nil_or_concat (Nat.digits 10 n) with hnil | ⟨ds, d, hds⟩
    · exact absurd (Nat.digits_eq_nil_iff_eq_zero.1 hnil) h0
    · rw [List.concat_eq_append] at hds
      have hlt : ∀ e ∈ Nat.digits 10 n, e < 10 := fun e he ↦ Nat.digits_lt_base (by decide) he
      have hd : d ≠ 0 := by
        have hlast := Nat.getLast_digit_ne_zero 10 h0
        simpa [hds] using hlast
      have hd10 : d < 10 := hlt d (by simp [hds])
      have hds10 : ∀ e ∈ ds.reverse, e < 10 := fun e he ↦ hlt e (by
        rw [hds, List.mem_append]
        exact .inl (List.mem_reverse.1 he))
      have hint : ds.reverse.reverse ++ [d] = Nat.digits 10 n := by rw [List.reverse_reverse, hds]
      rw [show (Nat.digits 10 n).reverse.map hexDigit =
          [hexDigit d] ++ ds.reverse.map hexDigit by simp [hds],
        foldlM_append_of_ok (hfirst hd10), if_neg hd, foldlM_digits depth stack _ hds10]
      refine ⟨_, _, rfl, .inr rfl, rfl, ?_, fun hn ↦ ?_⟩
      · rw [hint, ofDigits_digits]
      · rw [hint]
        exact (Nat.digits_length_le_iff (by decide) n).2 hn

/-- An integer is read up to the character that ends it. -/
theorem foldlM_dumpInt (depth : ℕ) (stack : List Frame) {n : ℤ} (h : n.natAbs < printLimit) :
    ∃ part x, (dumpInt n).foldlM (step depth) ⟨stack, .value⟩ = .ok ⟨stack, .number part x⟩ ∧
      (part = .zero ∨ part = .int) ∧ x.integer = .ok (.int n) := by
  have hvalue : ∀ d < 10, step depth ⟨stack, .value⟩ (hexDigit d) =
      .ok ⟨stack, .number (if d = 0 then .zero else .int) { neg := false, int := [d] }⟩ := by
    intro d hd
    interval_cases d <;> rfl
  have hminus : ∀ d < 10, step depth ⟨stack, .number .minus { neg := true }⟩ (hexDigit d) =
      .ok ⟨stack, .number (if d = 0 then .zero else .int) { neg := true, int := [d] }⟩ := by
    intro d hd
    interval_cases d <;> rfl
  rw [dumpInt]
  split
  · next hneg =>
    have hopen : ['-'].foldlM (step depth) ⟨stack, .value⟩ =
        .ok ⟨stack, .number .minus { neg := true }⟩ := rfl
    obtain ⟨part, x, hx, hpart, hxneg, hval, hlen⟩ := foldlM_dumpNat hminus n.natAbs
    refine ⟨part, x, ?_, hpart, ?_⟩
    · rw [← List.singleton_append, foldlM_append_of_ok hopen, hx]
    · have hlen := hlen h
      rw [Number.integer, if_neg (by omega), hxneg, hval, if_pos rfl,
        show -(n.natAbs : ℤ) = n by omega]
  · next hpos =>
    obtain ⟨part, x, hx, hpart, hxneg, hval, hlen⟩ := foldlM_dumpNat hvalue n.natAbs
    refine ⟨part, x, hx, hpart, ?_⟩
    have hlen := hlen h
    rw [Number.integer, if_neg (by omega), hxneg, hval, if_neg (by simp),
      show (n.natAbs : ℤ) = n by omega]

/-! ### Reading objects -/

/-- What ends a field. -/
def EndsField (c : Char) : Prop := c = ',' ∨ c = '\x7d'

/-- After a complete value, a character that is not white space is judged by the frame it stands
in. -/
theorem step_complete (depth : ℕ) {c : Char} (hc : isWhite c = false) (v : Json)
    (stack : List Frame) : step depth (complete v stack) c =
      stepAfter (complete v stack).stack c := by
  rcases stack with _ | ⟨items | ⟨fields, key⟩, stack⟩ <;> simp [complete, step, hc, stepAfter]

theorem foldlM_singleton (depth : ℕ) (r : Reader) (c : Char) :
    [c].foldlM (step depth) r = step depth r c := by
  rw [List.foldlM_cons]
  cases step depth r c <;> rfl

/-- A value is read together with the character after it. -/
theorem foldlM_scalar (depth : ℕ) (stack : List Frame) {v : Scalar} (hv : v.printable = true)
    {c : Char} (hc : EndsField c) : (v.dump ++ [c]).foldlM (step depth) ⟨stack, .value⟩ =
      step depth (complete v.json stack) c := by
  cases v with
  | str s =>
    have hread : (dumpStr s).foldlM (step depth) ⟨stack, .value⟩ =
        .ok (complete (.str s) stack) := by
      have hopen : step depth ⟨stack, .value⟩ '"' = .ok ⟨stack, .text false none []⟩ := rfl
      rw [foldlM_dumpStr hopen, completeText, List.reverse_reverse, String.ofList_toList]
    rw [Scalar.dump, foldlM_append_of_ok hread, foldlM_singleton]
    rfl
  | int n =>
    obtain ⟨part, x, hx, hpart, hint⟩ :=
      foldlM_dumpInt depth stack (n := n) (by simpa [Scalar.printable] using hv)
    have hfinish : x.finish part = .ok (.int n) := by
      rcases hpart with rfl | rfl <;> exact hint
    have hends : stepNumber x part c = none := by
      rcases hpart with rfl | rfl <;> rcases hc with rfl | rfl <;> rfl
    have hwhite : isWhite c = false := by
      rcases hc with rfl | rfl <;> rfl
    rw [Scalar.dump, foldlM_append_of_ok hx, foldlM_singleton, step]
    rw [step_complete depth hwhite]
    simp [hends, hfinish, hwhite, bind, Except.bind, Scalar.json]

/-- A field is read together with the character after it. -/
theorem foldlM_field {depth : ℕ} {r : Reader} {acc : List (String × Json)} {k₀ : String}
    (hr : step depth r '"' = .ok ⟨[.obj acc k₀], .text true none []⟩) (key : String) {v : Scalar}
    (hv : v.printable = true) {c : Char} (hc : EndsField c) :
    (dumpStr key ++ ':' :: ' ' :: (v.dump ++ [c])).foldlM (step depth) r =
      stepAfter [.obj (setField key v.json acc) key] c := by
  have hkey : (dumpStr key).foldlM (step depth) r = .ok ⟨[.obj acc key], .colon⟩ := by
    rw [foldlM_dumpStr hr, completeText, List.reverse_reverse, String.ofList_toList]
  have hcolon : [':', ' '].foldlM (step depth) ⟨[.obj acc key], .colon⟩ =
      .ok ⟨[.obj acc key], .value⟩ := rfl
  have hwhite : isWhite c = false := by
    rcases hc with rfl | rfl <;> rfl
  rw [foldlM_append_of_ok hkey,
    show ':' :: ' ' :: (v.dump ++ [c]) = [':', ' '] ++ (v.dump ++ [c]) from rfl,
    foldlM_append_of_ok hcolon, foldlM_scalar depth _ hv hc, step_complete depth hwhite]
  rfl

/-- The dictionary of a list of fields. -/
def setFields (fields : List (String × Scalar)) (acc : List (String × Json)) :
    List (String × Json) :=
  fields.foldl (fun acc f ↦ setField f.1 f.2.json acc) acc

/-- **The fields of an object are read back in order**, up to its closing brace. -/
theorem foldlM_dumpFields (depth : ℕ) (f : String × Scalar) (fs : List (String × Scalar))
    (hf : ∀ g ∈ f :: fs, g.2.printable = true) {r : Reader} {acc : List (String × Json)}
    {k₀ : String} (hr : step depth r '"' = .ok ⟨[.obj acc k₀], .text true none []⟩) :
    (dumpFields (f :: fs) ++ ['\x7d']).foldlM (step depth) r =
      .ok ⟨[], .done (.obj (setFields (f :: fs) acc))⟩ := by
  induction fs generalizing f r acc k₀ with
  | nil =>
    have hread := foldlM_field hr f.1 (hf f List.mem_cons_self) (c := '\x7d') (.inr rfl)
    have htext : dumpFields [f] ++ ['\x7d'] =
        dumpStr f.1 ++ ':' :: ' ' :: (f.2.dump ++ ['\x7d']) := by
      simp [dumpFields]
    rw [htext, hread]
    rfl
  | cons g gs ih =>
    have hread : (dumpStr f.1 ++ ':' :: ' ' :: (f.2.dump ++ [','])).foldlM (step depth) r =
        .ok ⟨[.obj (setField f.1 f.2.json acc) f.1], .key⟩ := by
      rw [foldlM_field hr f.1 (hf f List.mem_cons_self) (.inl rfl)]
      rfl
    have hblank : [' '].foldlM (step depth) ⟨[.obj (setField f.1 f.2.json acc) f.1], .key⟩ =
        .ok ⟨[.obj (setField f.1 f.2.json acc) f.1], .key⟩ := rfl
    have htext : dumpFields (f :: g :: gs) ++ ['\x7d'] =
        (dumpStr f.1 ++ ':' :: ' ' :: (f.2.dump ++ [','])) ++
          ([' '] ++ (dumpFields (g :: gs) ++ ['\x7d'])) := by
      simp [dumpFields]
    rw [htext, foldlM_append_of_ok hread, foldlM_append_of_ok hblank]
    exact ih g (fun x hx ↦ hf x (List.mem_cons_of_mem f hx)) rfl

/-- An encoded object is read as the dictionary of its fields. -/
theorem read_dumpFields {depth : ℕ} (hdepth : 0 < depth) {fields : List (String × Scalar)}
    (hf : ∀ f ∈ fields, f.2.printable = true) :
    read depth ('\x7b' :: dumpFields fields ++ ['\x7d']) = .ok (.obj (setFields fields [])) := by
  have hopen : ['\x7b'].foldlM (step depth) ⟨[], .value⟩ = .ok ⟨[.obj [] ""], .firstKey⟩ := by
    simp [step, isWhite, beginValue, hdepth]
  have hbody : (dumpFields fields ++ ['\x7d']).foldlM (step depth) ⟨[.obj [] ""], .firstKey⟩ =
      .ok ⟨[], .done (.obj (setFields fields []))⟩ := by
    cases fields with
    | nil => rfl
    | cons f fs => exact foldlM_dumpFields depth f fs hf rfl
  rw [JsonDecoder.read, List.cons_append, ← List.singleton_append, foldlM_append_of_ok hopen, hbody]
  rfl

/-! ### Lookups -/

/-- Setting a field changes the lookup of its key and no other. -/
theorem lookup_setField (key k : String) (v : Json) (acc : List (String × Json)) :
    (setField k v acc).lookup key = if key = k then some v else acc.lookup key := by
  rw [setField, List.lookup_cons]
  by_cases h : key = k
  · simp [h]
  · have hbeq : (key == k) = false := by simpa using h
    rw [hbeq, if_neg h]
    show (acc.filter fun f ↦ f.1 ≠ k).lookup key = acc.lookup key
    induction acc with
    | nil => rfl
    | cons f acc ih =>
      rw [List.filter_cons]
      by_cases hf : f.1 = k
      · rw [if_neg (by simpa using hf), ih, List.lookup_cons]
        have hne : (key == f.1) = false := by
          rw [hf]
          exact hbeq
        rw [hne]
      · rw [if_pos (by simpa using hf), List.lookup_cons, List.lookup_cons, ih]

/-- With every key once, a lookup finds the value encoded. -/
theorem lookup_setFields {fields : List (String × Scalar)} (h : (fields.map Prod.fst).Nodup)
    (key : String) (acc : List (String × Json)) : (setFields fields acc).lookup key =
      ((fields.lookup key).map Scalar.json).or (acc.lookup key) := by
  induction fields generalizing acc with
  | nil => rfl
  | cons f fs ih =>
    obtain ⟨hf, hfs⟩ := List.nodup_cons.1 h
    show (setFields fs (setField f.1 f.2.json acc)).lookup key = _
    rw [ih hfs, lookup_setField, List.lookup_cons]
    by_cases hk : key = f.1
    · have hnone : fs.lookup key = none := by
        rw [List.lookup_eq_none_iff]
        intro g hg
        have hne : g.1 ≠ f.1 := fun he ↦ hf (List.mem_map.2 ⟨g, hg, he⟩)
        simpa [hk] using fun he : f.1 = g.1 ↦ hne he.symm
      rw [hnone, if_pos hk, beq_iff_eq.2 hk]
      rfl
    · have hbeq : (key == f.1) = false := by simpa using hk
      rw [if_neg hk, hbeq]

/-! ### Bytes -/

theorem hexDigit_ascii {d : ℕ} (h : d < 16) : (hexDigit d).toNat < 0x80 := by
  have key : ∀ d : Fin 16, (hexDigit d).toNat < 0x80 := by decide
  exact key ⟨d, h⟩

/-- Only ASCII characters. -/
def Ascii (cs : List Char) : Prop := ∀ c ∈ cs, c.toNat < 0x80

theorem Ascii.cons {c : Char} {cs : List Char} (hc : c.toNat < 0x80) (h : Ascii cs) :
    Ascii (c :: cs) := by
  intro d hd
  rcases List.mem_cons.1 hd with rfl | hd
  · exact hc
  · exact h d hd

theorem Ascii.append {cs ds : List Char} (h : Ascii cs) (h' : Ascii ds) : Ascii (cs ++ ds) :=
  fun c hc ↦ (List.mem_append.1 hc).elim (h c) (h' c)

theorem ascii_nil : Ascii [] := fun _ hc ↦ absurd hc List.not_mem_nil

theorem ascii_escapeUnit {n : ℕ} (h : n < 0x10000) : Ascii (escapeUnit n) :=
  .cons (by decide) <| .cons (by decide) <| .cons (hexDigit_ascii (by omega)) <|
    .cons (hexDigit_ascii (by omega)) <| .cons (hexDigit_ascii (by omega)) <|
      .cons (hexDigit_ascii (by omega)) ascii_nil

theorem ascii_escapeChar (c : Char) : Ascii (escapeChar c) := by
  have hshort {d : Char} (hd : d.toNat < 0x80) : Ascii ['\\', d] :=
    .cons (by decide) (.cons hd ascii_nil)
  have hno := not_surrogate c
  rw [escapeChar]
  split
  · exact hshort (by decide)
  split
  · exact hshort (by decide)
  split
  · exact hshort (by decide)
  split
  · exact hshort (by decide)
  split
  · exact hshort (by decide)
  split
  · exact hshort (by decide)
  split
  · exact hshort (by decide)
  split
  · exact .cons (by omega) ascii_nil
  split
  · next h => exact ascii_escapeUnit h
  · exact (ascii_escapeUnit (by omega)).append (ascii_escapeUnit (by omega))

theorem ascii_dumpStr (s : String) : Ascii (dumpStr s) := by
  refine Ascii.append (.cons (by decide) fun c hc ↦ ?_) (.cons (by decide) ascii_nil)
  obtain ⟨d, -, hd⟩ := List.mem_flatMap.1 hc
  exact ascii_escapeChar d c hd

theorem ascii_dumpNat (n : ℕ) : Ascii (dumpNat n) := by
  rw [dumpNat]
  split
  · exact .cons (by decide) ascii_nil
  · intro c hc
    obtain ⟨d, hd, rfl⟩ := List.mem_map.1 hc
    have hlt := Nat.digits_lt_base (b := 10) (by decide) (List.mem_reverse.1 hd)
    exact hexDigit_ascii (by omega)

theorem ascii_dump (v : Scalar) : Ascii v.dump := by
  cases v with
  | str s => exact ascii_dumpStr s
  | int n =>
    rw [Scalar.dump, dumpInt]
    split
    · exact .cons (by decide) (ascii_dumpNat _)
    · exact ascii_dumpNat _

theorem ascii_dumpFields (fields : List (String × Scalar)) : Ascii (dumpFields fields) := by
  induction fields with
  | nil => exact ascii_nil
  | cons f fs ih =>
    cases fs with
    | nil =>
      exact (ascii_dumpStr f.1).append (.cons (by decide) (.cons (by decide) (ascii_dump f.2)))
    | cons g gs =>
      exact (ascii_dumpStr f.1).append (.cons (by decide) (.cons (by decide)
        ((ascii_dump f.2).append (.cons (by decide) (.cons (by decide) ih)))))

theorem decodeUtf8_cons {b : UInt8} (h : b < 0x80) (bs : List UInt8) :
    decodeUtf8 (b :: bs) = (decodeUtf8 bs).map (charOf b.toNat :: ·) := by
  rw [decodeUtf8.eq_def]
  simp only [if_pos h]

/-- ASCII bytes are the characters. -/
theorem decodeUtf8_ascii {cs : List Char} (h : Ascii cs) :
    decodeUtf8 (cs.map fun c ↦ c.toNat.toUInt8) = some cs := by
  induction cs with
  | nil => rfl
  | cons c cs ih =>
    have hc : c.toNat < 0x80 := h c List.mem_cons_self
    have hbyte : c.toNat.toUInt8.toNat = c.toNat := by
      rw [Nat.toUInt8_eq, UInt8.toNat_ofNat', Nat.mod_eq_of_lt (by omega)]
    have hlt : c.toNat.toUInt8 < 0x80 := by
      rw [UInt8.lt_iff_toNat_lt, hbyte]
      exact hc
    rw [List.map_cons, decodeUtf8_cons hlt, ih fun d hd ↦ h d (List.mem_cons_of_mem c hd), hbyte,
      charOf_toNat]
    rfl

/-- Text that begins with a brace is taken for UTF-8. -/
theorem detectEncoding_brace {b : UInt8} (hb : b ≠ 0) (bs : List UInt8) :
    detectEncoding (0x7B :: b :: bs) = (.utf8, 0x7B :: b :: bs) := by
  match bs with
  | [] =>
    show (if (0x7B : UInt8) = 0 then Encoding.utf16be else if b = 0 then .utf16le else .utf8,
      [0x7B, b]) = _
    rw [if_neg (by decide), if_neg hb]
  | [c] => rfl
  | c :: d :: bs =>
    show (if (0x7B : UInt8) = 0 then (if b = 0 then Encoding.utf32be else .utf16be,
        0x7B :: b :: c :: d :: bs)
      else if b = 0 then (if c = 0 ∧ d = 0 then .utf32le else .utf16le, 0x7B :: b :: c :: d :: bs)
      else (.utf8, 0x7B :: b :: c :: d :: bs)) = _
    rw [if_neg (by decide), if_neg hb]

/-- **Round trip.** The decoder reads what the encoder has written, field by field. -/
theorem loads_dumps {depth : ℕ} (hdepth : 0 < depth) {fields : List (String × Scalar)}
    (hkeys : (fields.map Prod.fst).Nodup) {raw : List UInt8} (h : dumps fields = some raw) :
    ∃ doc, loads depth raw = .value doc ∧
      ∀ key, doc.get? key = (fields.lookup key).map Scalar.json := by
  rw [dumps] at h
  split at h
  · next hf =>
    obtain rfl := Option.some.inj h
    have hread := read_dumpFields hdepth fun f hmem ↦ List.all_eq_true.1 hf f hmem
    have hascii : Ascii ('\x7b' :: dumpFields fields ++ ['\x7d']) :=
      Ascii.append (.cons (by decide) (ascii_dumpFields fields)) (.cons (by decide) ascii_nil)
    have hutf8 : detectEncoding
        (('\x7b' :: dumpFields fields ++ ['\x7d']).map fun c ↦ c.toNat.toUInt8) =
          (.utf8, ('\x7b' :: dumpFields fields ++ ['\x7d']).map fun c ↦ c.toNat.toUInt8) := by
      match fields with
      | [] => rfl
      | [f] => exact detectEncoding_brace (b := 0x22) (by decide) _
      | f :: g :: gs => exact detectEncoding_brace (b := 0x22) (by decide) _
    have htext := decodeUtf8_ascii hascii
    refine ⟨.obj (setFields fields []), ?_, fun key ↦ ?_⟩
    · rw [loads, decodeText, hutf8]
      simp only [htext, hread]
    · rw [Json.get?, lookup_setFields hkeys]
      simp
  · exact absurd h (by simp)

end JsonEncoder

end Orbiter
