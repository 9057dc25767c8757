import Mathlib.Algebra.Group.Nat.Defs
import Orbiter.Data.Values

/-!
# `json.loads`

Python's decoder on raw bytes: guess the encoding, decode the bytes, read one JSON document. The
reader is a machine that takes one character at a time, with the open arrays and objects on a stack,
so it needs no recursion on nested values. Three things it does beyond the standard matter to its
callers: it accepts `NaN`, `Infinity` and `-Infinity`; it reads a number with a fraction or an
exponent as a binary double, which may round to an infinity; and it can raise something other than a
decoding error — `ValueError` at an integer of more than 4300 digits, `RecursionError` at nesting
deeper than the interpreter allows. The limit on nesting is the parameter `depth`.

## Contents

* `detectEncoding`, `decodeText` — the encoding guessed from the first bytes and marks, and the
  characters of the text, or nothing where Python raises `UnicodeDecodeError`;
* `Number`, `nearestDouble` — a number as it is read part by part, and the double nearest to a
  decimal, ties to the even one;
* `Reader`, `step`, `finish` — the machine: a stack of frames and what is being read at the top;
* `loads` — the whole function, with the exceptions kept apart: `LoadError.decode` is the one a
  caller may expect, the others are the ones that surprise it.

`read` is a fold of `step` over the characters, so a statement about a text is proved from what each
of its parts does to the machine. A Python string may hold a lone surrogate, a string here cannot:
it holds U+FFFD in its place.
-/

namespace Orbiter

namespace JsonDecoder

/-- How decoding fails. -/
inductive LoadError
  /-- `JSONDecodeError`. -/
  | decode
  /-- `ValueError`: exceeds the limit for integer string conversion. -/
  | digits
  /-- `RecursionError`. -/
  | recursion
  deriving DecidableEq

/-! ### From bytes to characters -/

inductive Encoding
  | utf8
  | utf16be
  | utf16le
  | utf32be
  | utf32le
  deriving DecidableEq

/-- `detect_encoding`, with the byte order mark taken off. -/
def detectEncoding : List UInt8 → Encoding × List UInt8
  | 0x00 :: 0x00 :: 0xFE :: 0xFF :: bs => (.utf32be, bs)
  | 0xFF :: 0xFE :: 0x00 :: 0x00 :: bs => (.utf32le, bs)
  | 0xFE :: 0xFF :: bs => (.utf16be, bs)
  | 0xFF :: 0xFE :: bs => (.utf16le, bs)
  | 0xEF :: 0xBB :: 0xBF :: bs => (.utf8, bs)
  | b :: c :: d :: e :: bs =>
    if b = 0 then (if c = 0 then .utf32be else .utf16be, b :: c :: d :: e :: bs)
    else if c = 0 then (if d = 0 ∧ e = 0 then .utf32le else .utf16le, b :: c :: d :: e :: bs)
    else (.utf8, b :: c :: d :: e :: bs)
  | [b, c] => (if b = 0 then .utf16be else if c = 0 then .utf16le else .utf8, [b, c])
  | bs => (.utf8, bs)

/-- The character of a code point; a surrogate has none. -/
def charOf (n : ℕ) : Char := if n.isValidChar then Char.ofNat n else '\uFFFD'

def isHighSurrogate (n : ℕ) : Bool := 0xD800 ≤ n && n < 0xDC00

def isLowSurrogate (n : ℕ) : Bool := 0xDC00 ≤ n && n < 0xE000

def joinSurrogates (high low : ℕ) : ℕ := 0x10000 + (high - 0xD800) * 0x400 + (low - 0xDC00)

/-- A continuation byte of UTF-8. -/
def continuation? (b : UInt8) : Option ℕ :=
  if 0x80 ≤ b ∧ b < 0xC0 then some (b.toNat - 0x80) else none

/-- UTF-8 with the error handler `surrogatepass`: shortest forms only, surrogates allowed. -/
def decodeUtf8 : List UInt8 → Option (List Char)
  | [] => some []
  | b :: bs =>
    if b < 0x80 then (decodeUtf8 bs).map (charOf b.toNat :: ·)
    else if b < 0xC2 then none
    else if b < 0xE0 then
      match bs with
      | c :: bs => do
        let n := (b.toNat - 0xC0) * 0x40 + (← continuation? c)
        (decodeUtf8 bs).map (charOf n :: ·)
      | _ => none
    else if b < 0xF0 then
      match bs with
      | c :: d :: bs => do
        let n := ((b.toNat - 0xE0) * 0x40 + (← continuation? c)) * 0x40 + (← continuation? d)
        if n < 0x800 then none else (decodeUtf8 bs).map (charOf n :: ·)
      | _ => none
    else if b < 0xF5 then
      match bs with
      | c :: d :: e :: bs => do
        let n := (((b.toNat - 0xF0) * 0x40 + (← continuation? c)) * 0x40 +
          (← continuation? d)) * 0x40 + (← continuation? e)
        if n < 0x10000 ∨ 0x10FFFF < n then none else (decodeUtf8 bs).map (charOf n :: ·)
      | _ => none
    else none

/-- The 16-bit units, most significant byte first; an odd byte at the end is an error. -/
def units16 (bigEndian : Bool) : List UInt8 → Option (List ℕ)
  | [] => some []
  | [_] => none
  | b :: c :: bs =>
    (units16 bigEndian bs).map
      ((if bigEndian then b.toNat * 0x100 + c.toNat else c.toNat * 0x100 + b.toNat) :: ·)

/-- UTF-16 with `surrogatepass`: pairs are joined, single surrogates allowed. -/
def joinPairs : List ℕ → List Char
  | [] => []
  | [n] => [charOf n]
  | m :: n :: ns =>
    if isHighSurrogate m && isLowSurrogate n then charOf (joinSurrogates m n) :: joinPairs ns
    else charOf m :: joinPairs (n :: ns)

/-- UTF-32 with `surrogatepass`. -/
def decodeUtf32 (bigEndian : Bool) : List UInt8 → Option (List Char)
  | [] => some []
  | b :: c :: d :: e :: bs =>
    let n := if bigEndian
      then ((b.toNat * 0x100 + c.toNat) * 0x100 + d.toNat) * 0x100 + e.toNat
      else ((e.toNat * 0x100 + d.toNat) * 0x100 + c.toNat) * 0x100 + b.toNat
    if 0x10FFFF < n then none else (decodeUtf32 bigEndian bs).map (charOf n :: ·)
  | _ => none

/-- `raw.decode(detect_encoding(raw), "surrogatepass")`; `none` is `UnicodeDecodeError`. -/
def decodeText (raw : List UInt8) : Option (List Char) :=
  match detectEncoding raw with
  | (.utf8, bs) => decodeUtf8 bs
  | (.utf16be, bs) => (units16 true bs).map joinPairs
  | (.utf16le, bs) => (units16 false bs).map joinPairs
  | (.utf32be, bs) => decodeUtf32 true bs
  | (.utf32le, bs) => decodeUtf32 false bs

/-! ### Numbers -/

/-- `n / d / 2 ^ e` as a fraction. -/
def scale (n d : ℕ) (e : ℤ) : ℕ × ℕ :=
  if 0 ≤ e then (n, d * 2 ^ e.toNat) else (n * 2 ^ (-e).toNat, d)

def roundHalfEven (n d : ℕ) : ℕ :=
  if 2 * (n % d) < d then n / d
  else if d < 2 * (n % d) then n / d + 1
  else n / d + n / d % 2

/-- The double nearest to `n / d`, ties to even; `none` when it is infinite. -/
def nearestDouble (n d : ℕ) : Option ℚ :=
  if n = 0 then some 0
  else
    -- The exponent of the leading bit, up to one, and then exactly.
    let k : ℤ := (n.log2 : ℤ) - d.log2
    let k := if (scale n d k).1 < (scale n d k).2 then k - 1 else k
    -- 53 bits, or as many as are left above the smallest subnormal.
    let e := max (-1074) (k - 52)
    let m := roundHalfEven (scale n d e).1 (scale n d e).2
    if 971 < e ∨ e = 971 ∧ 2 ^ 53 ≤ m then none
    else some ((m : ℚ) * if 0 ≤ e then (2 ^ e.toNat : ℚ) else 1 / (2 ^ (-e).toNat : ℚ))

/-- A number under way; the digits read last come first. -/
structure Number where
  neg : Bool
  int : List ℕ := []
  frac : List ℕ := []
  expNeg : Bool := false
  exp : List ℕ := []

def ofDigits (ds : List ℕ) : ℕ := ds.foldr (fun d n ↦ 10 * n + d) 0

/-- An integer; CPython converts at most 4300 digits. -/
def Number.integer (x : Number) : Except LoadError Json :=
  if 4300 < x.int.length then .error .digits
  else .ok (.int (if x.neg then -(ofDigits x.int : ℤ) else ofDigits x.int))

/-- A float: the decimal fraction, rounded. -/
def Number.float (x : Number) : Json :=
  let n := ofDigits (x.frac ++ x.int)
  let e : ℤ := (if x.expNeg then -(ofDigits x.exp : ℤ) else ofDigits x.exp) - x.frac.length
  .float (match nearestDouble (n * 10 ^ e.toNat) (10 ^ (-e).toNat), x.neg with
    | some q, neg => .finite (if neg then -q else q)
    | none, false => .posInf
    | none, true => .negInf)

/-- Where in a number the reader is. -/
inductive NumberPart
  | minus
  | zero
  | int
  | dot
  | frac
  | exp
  | expSign
  | expDigits
  deriving DecidableEq

/-- A decimal digit. -/
def digit? (c : Char) : Option ℕ :=
  if '0' ≤ c ∧ c ≤ '9' then some (c.toNat - '0'.toNat) else none

/-- The end of a number. What does not belong to it is left to the reader, which refuses a `.` or an
`e` — after the integer before it has been converted. -/
def Number.finish (x : Number) : NumberPart → Except LoadError Json
  | .minus => .error .decode
  | .zero | .int => x.integer
  | .frac | .expDigits => .ok x.float
  | .dot => x.integer.bind fun _ ↦ .error .decode
  | .exp | .expSign =>
    if x.frac = [] then x.integer.bind fun _ ↦ .error .decode else .error .decode

/-! ### The reader -/

/-- An open array or object; what was read last comes first. -/
inductive Frame
  | arr (items : List Json)
  /-- With the key whose value comes next, or came last. -/
  | obj (fields : List (String × Json)) (key : String)

/-- What the reader expects. -/
inductive Mode
  | value
  /-- After `[`. -/
  | firstItem
  /-- After `\x7b`. -/
  | firstKey
  | key
  | colon
  /-- After a value inside an array or object. -/
  | after
  /-- Inside a string; `high` is the escaped high surrogate just before. -/
  | text (isKey : Bool) (high : Option ℕ) (acc : List Char)
  | escape (isKey : Bool) (high : Option ℕ) (acc : List Char)
  /-- Inside a `\u` escape, with the digits read so far. -/
  | hex (isKey : Bool) (high : Option ℕ) (acc : List Char) (ds : List ℕ)
  | literal (rest : List Char) (v : Json)
  | number (part : NumberPart) (x : Number)
  /-- After the document. -/
  | done (v : Json)

structure Reader where
  stack : List Frame
  mode : Mode

def isWhite (c : Char) : Bool := c = ' ' || c = '\t' || c = '\n' || c = '\r'

/-- A dictionary keeps the last value of a key. -/
def setField (key : String) (v : Json) (fields : List (String × Json)) : List (String × Json) :=
  (key, v) :: fields.filter fun f ↦ f.1 ≠ key

/-- A value is complete. -/
def complete (v : Json) : List Frame → Reader
  | [] => ⟨[], .done v⟩
  | .arr items :: fs => ⟨.arr (v :: items) :: fs, .after⟩
  | .obj fields key :: fs => ⟨.obj (setField key v fields) key :: fs, .after⟩

/-- A string is complete: a key, or a value. -/
def completeText (isKey : Bool) (acc : List Char) (stack : List Frame) :
    Except LoadError Reader :=
  match isKey, stack with
  | false, _ => .ok (complete (.str (String.ofList acc.reverse)) stack)
  | true, .obj fields _ :: fs => .ok ⟨.obj fields (String.ofList acc.reverse) :: fs, .colon⟩
  | true, _ => .error .decode

/-- The first character of a value. -/
def beginValue (depth : ℕ) (stack : List Frame) (c : Char) : Except LoadError Reader :=
  if c = '"' then .ok ⟨stack, .text false none []⟩
  else if c = '\x7b' then
    if stack.length < depth then .ok ⟨.obj [] "" :: stack, .firstKey⟩ else .error .recursion
  else if c = '[' then
    if stack.length < depth then .ok ⟨.arr [] :: stack, .firstItem⟩ else .error .recursion
  else if c = 'n' then .ok ⟨stack, .literal ['u', 'l', 'l'] .null⟩
  else if c = 't' then .ok ⟨stack, .literal ['r', 'u', 'e'] (.bool true)⟩
  else if c = 'f' then .ok ⟨stack, .literal ['a', 'l', 's', 'e'] (.bool false)⟩
  else if c = 'N' then .ok ⟨stack, .literal ['a', 'N'] (.float .nan)⟩
  else if c = 'I' then
    .ok ⟨stack, .literal ['n', 'f', 'i', 'n', 'i', 't', 'y'] (.float .posInf)⟩
  else if c = '-' then .ok ⟨stack, .number .minus { neg := true }⟩
  else
    match digit? c with
    | some 0 => .ok ⟨stack, .number .zero { neg := false, int := [0] }⟩
    | some d => .ok ⟨stack, .number .int { neg := false, int := [d] }⟩
    | none => .error .decode

/-- The character after a value. -/
def stepAfter (stack : List Frame) (c : Char) : Except LoadError Reader :=
  match stack with
  | [] => .error .decode
  | .arr items :: fs =>
    if c = ',' then .ok ⟨.arr items :: fs, .value⟩
    else if c = ']' then .ok (complete (.arr items.reverse) fs)
    else .error .decode
  | .obj fields key :: fs =>
    if c = ',' then .ok ⟨.obj fields key :: fs, .key⟩
    else if c = '\x7d' then .ok (complete (.obj fields) fs)
    else .error .decode

/-- A character that goes on with a number. -/
def stepNumber (x : Number) : NumberPart → Char → Option Mode
  | .minus, c =>
    if c = 'I' then
      some (.literal ['n', 'f', 'i', 'n', 'i', 't', 'y'] (.float .negInf))
    else (digit? c).map fun d ↦
      .number (if d = 0 then .zero else .int) { x with int := [d] }
  | .zero, c => stepPoint c
  | .int, c =>
    match digit? c with
    | some d => some (.number .int { x with int := d :: x.int })
    | none => stepPoint c
  | .dot, c => (digit? c).map fun d ↦ .number .frac { x with frac := [d] }
  | .frac, c =>
    match digit? c with
    | some d => some (.number .frac { x with frac := d :: x.frac })
    | none => stepExponent c
  | .exp, c =>
    if c = '+' then some (.number .expSign x)
    else if c = '-' then some (.number .expSign { x with expNeg := true })
    else (digit? c).map fun d ↦ .number .expDigits { x with exp := [d] }
  | .expSign, c | .expDigits, c =>
    (digit? c).map fun d ↦ .number .expDigits { x with exp := d :: x.exp }
where
  stepExponent (c : Char) : Option Mode :=
    if c = 'e' ∨ c = 'E' then some (.number .exp x) else none
  stepPoint (c : Char) : Option Mode :=
    if c = '.' then some (.number .dot x) else stepExponent c

/-- A pending high surrogate that has found no partner. -/
def flush (high : Option ℕ) (acc : List Char) : List Char :=
  match high with
  | none => acc
  | some n => charOf n :: acc

/-- A code unit of a `\u` escape: the second half of a pair, the first half, or a character. -/
def escapedUnit (high : Option ℕ) (acc : List Char) (n : ℕ) : Option ℕ × List Char :=
  match high with
  | some m =>
    if isLowSurrogate n then (none, charOf (joinSurrogates m n) :: acc)
    else if isHighSurrogate n then (some n, charOf m :: acc)
    else (none, charOf n :: charOf m :: acc)
  | none => if isHighSurrogate n then (some n, acc) else (none, charOf n :: acc)

def hexDigit? (c : Char) : Option ℕ :=
  if '0' ≤ c ∧ c ≤ '9' then some (c.toNat - '0'.toNat)
  else if 'a' ≤ c ∧ c ≤ 'f' then some (c.toNat - 'a'.toNat + 10)
  else if 'A' ≤ c ∧ c ≤ 'F' then some (c.toNat - 'A'.toNat + 10)
  else none

/-- The character a short escape stands for. -/
def shortEscape? (c : Char) : Option Char :=
  if c = '"' ∨ c = '\\' ∨ c = '/' then some c
  else if c = 'b' then some '\x08'
  else if c = 'f' then some '\x0c'
  else if c = 'n' then some '\n'
  else if c = 'r' then some '\r'
  else if c = 't' then some '\t'
  else none

/-- One character. -/
def step (depth : ℕ) (r : Reader) (c : Char) : Except LoadError Reader :=
  match r.mode with
  | .value => if isWhite c then .ok r else beginValue depth r.stack c
  | .firstItem =>
    if isWhite c then .ok r
    else if c = ']' then stepAfter r.stack c
    else beginValue depth r.stack c
  | .firstKey =>
    if isWhite c then .ok r
    else if c = '\x7d' then stepAfter r.stack c
    else if c = '"' then .ok ⟨r.stack, .text true none []⟩
    else .error .decode
  | .key =>
    if isWhite c then .ok r
    else if c = '"' then .ok ⟨r.stack, .text true none []⟩
    else .error .decode
  | .colon =>
    if isWhite c then .ok r else if c = ':' then .ok ⟨r.stack, .value⟩ else .error .decode
  | .after => if isWhite c then .ok r else stepAfter r.stack c
  | .done _ => if isWhite c then .ok r else .error .decode
  | .text isKey high acc =>
    if c = '"' then completeText isKey (flush high acc) r.stack
    else if c = '\\' then .ok ⟨r.stack, .escape isKey high acc⟩
    else if c.toNat ≤ 0x1F then .error .decode
    else .ok ⟨r.stack, .text isKey none (c :: flush high acc)⟩
  | .escape isKey high acc =>
    if c = 'u' then .ok ⟨r.stack, .hex isKey high acc []⟩
    else
      match shortEscape? c with
      | some e => .ok ⟨r.stack, .text isKey none (e :: flush high acc)⟩
      | none => .error .decode
  | .hex isKey high acc ds =>
    match hexDigit? c, ds with
    | none, _ => .error .decode
    | some d, [d₃, d₂, d₁] =>
      let (high, acc) := escapedUnit high acc (((d₁ * 16 + d₂) * 16 + d₃) * 16 + d)
      .ok ⟨r.stack, .text isKey high acc⟩
    | some d, ds => .ok ⟨r.stack, .hex isKey high acc (d :: ds)⟩
  | .literal rest v =>
    match rest with
    | [] => .error .decode
    | [l] => if c = l then .ok (complete v r.stack) else .error .decode
    | l :: ls => if c = l then .ok ⟨r.stack, .literal ls v⟩ else .error .decode
  | .number part x =>
    match stepNumber x part c with
    | some mode => .ok ⟨r.stack, mode⟩
    | none => do
      let r := complete (← x.finish part) r.stack
      if isWhite c then .ok r else stepAfter r.stack c

/-- The end of the text. -/
def finish (r : Reader) : Except LoadError Json :=
  match r.mode, r.stack with
  | .done v, _ => .ok v
  | .number part x, [] => x.finish part
  | .number part x, _ => (x.finish part).bind fun _ ↦ .error .decode
  | _, _ => .error .decode

/-- One JSON document. -/
def read (depth : ℕ) (text : List Char) : Except LoadError Json := do
  finish (← text.foldlM (step depth) ⟨[], .value⟩)

end JsonDecoder

/-- What `json.loads` makes of a message. -/
inductive Loaded
  | value (v : Json)
  /-- `JSONDecodeError` or `UnicodeDecodeError`. -/
  | undecodable
  /-- Any other exception. -/
  | raised

/-- `json.loads`, under an interpreter that allows this much nesting. -/
def loads (depth : ℕ) (raw : List UInt8) : Loaded :=
  match JsonDecoder.decodeText raw with
  | none => .undecodable
  | some text =>
    match JsonDecoder.read depth text with
    | .ok v => .value v
    | .error .decode => .undecodable
    | .error _ => .raised

end Orbiter
