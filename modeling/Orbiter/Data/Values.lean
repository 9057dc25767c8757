import Mathlib.Data.List.TakeWhile
import Mathlib.Data.Rat.Defs

/-!
# Values as Python holds and reads them

`Json` is what `json.loads` returns and `json.dumps` accepts: Python keeps integers apart from
floats, and its decoder also accepts the non-finite literals, so a number is an unbounded `int`, or
a float that is finite, infinite or not a number. A finite float is a rational: nothing here
computes with floats, they are only read and refused. An object is a dictionary: keys with their
values, looked up by `Json.get?`.

`int()` reads more texts than the integers of JSON: white space around the number, a sign, the
digits of any script, single underscores between digits. Two forms of it are used by the source:

* `intOfText` is `int(text)`, which refuses a text of too many digits;
* `intOfHex` is `int(text, 16)`, which knows no such limit and takes a prefix `0x`.

Both are built from one reader, `digitsOf`, with the values of its digits as a parameter; `signed`
adds the sign and `strip` takes off the white space.
-/

namespace Orbiter

/-- A Python float: a finite value, or one of the three non-finite ones. -/
inductive PyFloat
  | finite (q : ℚ)
  | posInf
  | negInf
  | nan
  deriving DecidableEq

/-- A JSON value. -/
inductive Json
  | null
  | bool (b : Bool)
  | int (n : ℤ)
  | float (x : PyFloat)
  | str (s : String)
  | arr (items : List Json)
  | obj (fields : List (String × Json))

/-- `dict.get(key)`; `none` for a missing key and for what is not an object. -/
def Json.get? (key : String) : Json → Option Json
  | .obj fields => fields.lookup key
  | _ => none

/-- The integer a value holds. -/
def Json.int? : Json → Option ℤ
  | .int n => some n
  | _ => none

/-! ### `int()` of a text -/

/-- The code points of the decimal zeros; the nine digits of each script follow its zero. -/
def decimalZeros : List ℕ :=
  [0x30, 0x660, 0x6F0, 0x7C0, 0x966, 0x9E6, 0xA66, 0xAE6, 0xB66, 0xBE6, 0xC66, 0xCE6, 0xD66, 0xDE6,
    0xE50, 0xED0, 0xF20, 0x1040, 0x1090, 0x17E0, 0x1810, 0x1946, 0x19D0, 0x1A80, 0x1A90, 0x1B50,
    0x1BB0, 0x1C40, 0x1C50, 0xA620, 0xA8D0, 0xA900, 0xA9D0, 0xA9F0, 0xAA50, 0xABF0, 0xFF10, 0x104A0,
    0x10D30, 0x11066, 0x110F0, 0x11136, 0x111D0, 0x112F0, 0x11450, 0x114D0, 0x11650, 0x116C0,
    0x11730, 0x118E0, 0x11950, 0x11C50, 0x11D50, 0x11DA0, 0x11F50, 0x16A60, 0x16AC0, 0x16B50,
    0x1D7CE, 0x1D7D8, 0x1D7E2, 0x1D7EC, 0x1D7F6, 0x1E140, 0x1E2F0, 0x1E4F0, 0x1E950, 0x1FBF0]

/-- The decimal value of a character. -/
def decimal? (c : Char) : Option ℕ :=
  (decimalZeros.find? fun z ↦ z ≤ c.toNat ∧ c.toNat < z + 10).map fun z ↦ c.toNat - z

/-- What `int()` strips around a number. -/
def isSpace (c : Char) : Bool :=
  c.toNat ∈ [0x9, 0xA, 0xB, 0xC, 0xD, 0x20, 0x85, 0xA0, 0x1680, 0x2028, 0x2029, 0x202F, 0x205F,
    0x3000] || (0x2000 ≤ c.toNat && c.toNat ≤ 0x200A)

/-- `text.strip(…)`: the text without these characters at its ends. -/
def strip (p : Char → Bool) (cs : List Char) : List Char :=
  ((cs.dropWhile p).reverse.dropWhile p).reverse

/-- Nothing is taken off a text without such characters. -/
theorem strip_eq_self {p : Char → Bool} {cs : List Char} (h : ∀ c ∈ cs, p c = false) :
    strip p cs = cs := by
  have hfirst : cs.dropWhile p = cs :=
    List.dropWhile_eq_self_iff.2 fun hl ↦ by simp [h _ (List.getElem_mem hl)]
  have hlast : cs.reverse.dropWhile p = cs.reverse :=
    List.dropWhile_eq_self_iff.2 fun hl ↦ by simp [h]
  rw [strip, hfirst, hlast, List.reverse_reverse]

/-- Digits, read by `value?`, with single underscores between them. `afterDigit` says whether an
underscore may come next, or the end. -/
def digitsOf (value? : Char → Option ℕ) : Bool → List Char → Option (List ℕ)
  | afterDigit, [] => if afterDigit then some [] else none
  | afterDigit, c :: cs =>
    if c = '_' then
      if afterDigit then digitsOf value? false cs else none
    else
      match value? c with
      | none => none
      | some n => (digitsOf value? true cs).map (n :: ·)

/-- The number a sequence of digits denotes, with what was read before it. -/
def fromDigits (base : ℕ) : ℕ → List ℕ → ℕ := List.foldl fun n d ↦ base * n + d

/-- A sign and a number. -/
def signed (read : List Char → Option ℕ) : List Char → Option ℤ
  | [] => (read []).map Int.ofNat
  | c :: cs =>
    if c = '-' then (read cs).map fun n ↦ -(n : ℤ)
    else if c = '+' then (read cs).map Int.ofNat
    else (read (c :: cs)).map Int.ofNat

/-- The longest decimal text `int()` converts. -/
def maxStrDigits : ℕ := 4300

/-- The number a decimal text denotes. -/
def numberOf (cs : List Char) : Option ℕ :=
  (digitsOf decimal? false cs).bind fun ds ↦
    if ds.length ≤ maxStrDigits then some (fromDigits 10 0 ds) else none

/-- `int(text)`. -/
def intOfText (s : String) : Option ℤ := signed numberOf (strip isSpace s.toList)

/-- The value of a hexadecimal digit: a decimal one, or a letter. -/
def hexValue? (c : Char) : Option ℕ :=
  if 'a' ≤ c ∧ c ≤ 'f' then some (c.toNat - 87)
  else if 'A' ≤ c ∧ c ≤ 'F' then some (c.toNat - 55)
  else decimal? c

/-- Without the prefix `0x`, which one underscore may follow. -/
def dropHexPrefix : List Char → List Char
  | zero :: x :: cs =>
    if decimal? zero = some 0 ∧ (x = 'x' ∨ x = 'X') then
      if cs.head? = some '_' then cs.tail else cs
    else zero :: x :: cs
  | cs => cs

/-- `int(text, 16)`. -/
def intOfHex (cs : List Char) : Option ℤ :=
  signed (fun cs ↦ (digitsOf hexValue? false (dropHexPrefix cs)).map (fromDigits 16 0))
    (strip isSpace cs)

end Orbiter
