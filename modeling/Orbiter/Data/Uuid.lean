import Mathlib.Data.List.Range
import Mathlib.Data.Nat.Init
import Mathlib.Tactic.Ring
import Orbiter.Data.Values

/-!
# Job identifiers

A job is named by a UUID, a 128-bit number; its canonical text is 32 lower-case hexadecimal digits
in the groups 8-4-4-4-12. The fleet names jobs by these texts everywhere outside the database: in
keys, in messages, in paths of the API.

## Main results

* `Uuid.str_inj` — the text determines the number, so keys of different jobs are different;
* `Uuid.colon_not_mem_str` — the text contains no colon, so a key template that puts the text
  between colons can be taken apart again. This is what the key-value layer rests on;
* `Uuid.parse` — the constructor `uuid.UUID(text)`: it drops `urn:` and `uuid:`, trims braces, drops
  dashes, asks for 32 characters and reads them with `int(text, 16)`. That reader knows signs,
  underscores and a prefix `0x`, so texts come through that nobody would write;
* `Uuid.parse_str` — what is written canonically is read back.

For the last, no case of the lenient reader applies: canonical digits are plain (`hexDigit_plain`),
so trimming, prefixes and separators leave them alone, and reading is positional.
-/

namespace Orbiter

/-- A UUID, as its 128-bit number. -/
structure Uuid where
  /-- The number. -/
  int : BitVec 128
  deriving DecidableEq

/-- The lower-case hexadecimal digit of a nibble. -/
def hexDigit (n : ℕ) : Char :=
  if n < 10 then Char.ofNat (48 + n) else Char.ofNat (87 + n)

/-- The digits `lo, …, lo + count - 1` of a number, counted from the left of its 32. -/
def hexSlice (n lo count : ℕ) : List Char :=
  (List.range' lo count).map fun i ↦ hexDigit (n / 16 ^ (31 - i) % 16)

/-- `str(uuid)`: the canonical text. -/
def Uuid.str (u : Uuid) : String :=
  let n := u.int.toNat
  String.ofList (hexSlice n 0 8 ++ ['-'] ++ hexSlice n 8 4 ++ ['-'] ++ hexSlice n 12 4 ++ ['-'] ++
    hexSlice n 16 4 ++ ['-'] ++ hexSlice n 20 12)

/-! ### The text determines the number -/

theorem hexDigit_inj {m n : ℕ} (hm : m < 16) (hn : n < 16) (h : hexDigit m = hexDigit n) :
    m = n := by
  have key : ∀ a : Fin 16, ∀ b : Fin 16, hexDigit a = hexDigit b → a = b := by decide
  simpa using congrArg Fin.val (key ⟨m, hm⟩ ⟨n, hn⟩ h)

theorem hexDigit_ne_colon {n : ℕ} (hn : n < 16) : hexDigit n ≠ ':' := by
  have key : ∀ a : Fin 16, hexDigit a ≠ ':' := by decide
  exact key ⟨n, hn⟩

theorem length_hexSlice (n lo count : ℕ) : (hexSlice n lo count).length = count := by
  simp [hexSlice]

/-- Equal slices have equal digits. -/
theorem digit_eq_of_hexSlice_eq {m n lo count : ℕ} (h : hexSlice m lo count = hexSlice n lo count)
    {i : ℕ} (hlo : lo ≤ i) (hhi : i < lo + count) :
    m / 16 ^ (31 - i) % 16 = n / 16 ^ (31 - i) % 16 := by
  have hmem : i ∈ List.range' lo count := List.mem_range'_1.2 ⟨hlo, hhi⟩
  exact hexDigit_inj (Nat.mod_lt _ (by omega)) (Nat.mod_lt _ (by omega))
    (List.map_inj_left.1 h i hmem)

/-- A number below `16 ^ k` is determined by its `k` base-16 digits. -/
theorem eq_of_digits_eq : ∀ (k : ℕ) {m n : ℕ}, m < 16 ^ k → n < 16 ^ k →
    (∀ i < k, m / 16 ^ i % 16 = n / 16 ^ i % 16) → m = n
  | 0, m, n, hm, hn, _ => by
    rw [pow_zero] at hm hn
    omega
  | k + 1, m, n, hm, hn, h => by
    have hlow : m % 16 = n % 16 := by simpa using h 0 (by omega)
    have hhigh : m / 16 = n / 16 := by
      refine eq_of_digits_eq k ?_ ?_ fun i hi ↦ ?_
      · rw [pow_succ] at hm; omega
      · rw [pow_succ] at hn; omega
      · have := h (i + 1) (by omega)
        rwa [pow_succ', ← Nat.div_div_eq_div_mul, ← Nat.div_div_eq_div_mul] at this
    omega

/-- **The canonical text determines the identifier.** -/
theorem Uuid.str_inj {u v : Uuid} (h : u.str = v.str) : u = v := by
  obtain ⟨m⟩ := u
  obtain ⟨n⟩ := v
  have hl := congrArg String.toList h
  simp only [Uuid.str, String.toList_ofList] at hl
  -- Peel the five groups off the right end; each has a fixed length.
  obtain ⟨hl, h₅⟩ := List.append_inj' hl (by simp [length_hexSlice])
  obtain ⟨hl, -⟩ := List.append_inj' hl rfl
  obtain ⟨hl, h₄⟩ := List.append_inj' hl (by simp [length_hexSlice])
  obtain ⟨hl, -⟩ := List.append_inj' hl rfl
  obtain ⟨hl, h₃⟩ := List.append_inj' hl (by simp [length_hexSlice])
  obtain ⟨hl, -⟩ := List.append_inj' hl rfl
  obtain ⟨hl, h₂⟩ := List.append_inj' hl (by simp [length_hexSlice])
  obtain ⟨h₁, -⟩ := List.append_inj' hl rfl
  congr 1
  refine BitVec.eq_of_toNat_eq (eq_of_digits_eq 32 (by simpa using m.isLt)
    (by simpa using n.isLt) ?_)
  intro i hi
  have hi' : 31 - (31 - i) = i := by omega
  rw [← hi']
  rcases Nat.lt_or_ge (31 - i) 8 with h8 | h8
  · exact digit_eq_of_hexSlice_eq h₁ (by omega) (by omega)
  rcases Nat.lt_or_ge (31 - i) 12 with h12 | h12
  · exact digit_eq_of_hexSlice_eq h₂ (by omega) (by omega)
  rcases Nat.lt_or_ge (31 - i) 16 with h16 | h16
  · exact digit_eq_of_hexSlice_eq h₃ (by omega) (by omega)
  rcases Nat.lt_or_ge (31 - i) 20 with h20 | h20
  · exact digit_eq_of_hexSlice_eq h₄ (by omega) (by omega)
  · exact digit_eq_of_hexSlice_eq h₅ (by omega) (by omega)

theorem colon_not_mem_hexSlice (n lo count : ℕ) : ':' ∉ hexSlice n lo count := by
  intro h
  obtain ⟨i, -, hi⟩ := List.mem_map.1 h
  exact hexDigit_ne_colon (Nat.mod_lt _ (by omega)) hi

/-- **There is no colon in a canonical text.** -/
theorem Uuid.colon_not_mem_str (u : Uuid) : ':' ∉ u.str.toList := by
  simp [Uuid.str, colon_not_mem_hexSlice]

/-! ### Reading the text back -/

/-- `text.replace(pat, "")`, leftmost occurrences first. -/
def removeAll (pat : List Char) : List Char → List Char
  | [] => []
  | c :: cs =>
    if pat.isPrefixOf (c :: cs) then removeAll pat (cs.drop (pat.length - 1))
    else c :: removeAll pat cs
  termination_by cs => cs.length
  decreasing_by all_goals simp only [List.length_drop, List.length_cons]; omega

/-- `uuid.UUID(text)`; `none` when it raises. -/
def Uuid.parse (text : String) : Option Uuid :=
  let hex := removeAll "uuid:".toList (removeAll "urn:".toList text.toList)
  let hex := (strip (fun c ↦ c = '{' || c = '}') hex).filter (· ≠ '-')
  if hex.length = 32 then
    (intOfHex hex).bind fun n ↦
      if 0 ≤ n ∧ n < 2 ^ 128 then some ⟨BitVec.ofNat 128 n.toNat⟩ else none
  else none

/-- Nothing is removed from a text that lacks a character of the pattern. -/
theorem removeAll_eq_self {pat : List Char} {c : Char} (hc : c ∈ pat) :
    ∀ {cs : List Char}, c ∉ cs → removeAll pat cs = cs
  | [], _ => by rw [removeAll]
  | d :: cs, h => by
    rw [removeAll, if_neg, removeAll_eq_self hc fun hmem ↦ h (List.mem_cons_of_mem _ hmem)]
    exact fun hpre ↦ h ((List.isPrefixOf_iff_prefix.1 hpre).subset hc)

/-- A printed digit has the value it was printed for. -/
theorem hexValue?_hexDigit {n : ℕ} (hn : n < 16) : hexValue? (hexDigit n) = some n := by
  have key : ∀ a : Fin 16, hexValue? (hexDigit a) = some (a : ℕ) := by decide
  exact key ⟨n, hn⟩

/-- What `int(text, 16)` does besides reading digits, it does not do here. -/
theorem hexDigit_plain {n : ℕ} (hn : n < 16) :
    isSpace (hexDigit n) = false ∧ hexDigit n ≠ '_' ∧ hexDigit n ≠ '+' ∧ hexDigit n ≠ 'x' ∧
      hexDigit n ≠ 'X' := by
  have key : ∀ a : Fin 16, isSpace (hexDigit a) = false ∧ hexDigit a ≠ '_' ∧ hexDigit a ≠ '+' ∧
      hexDigit a ≠ 'x' ∧ hexDigit a ≠ 'X' := by decide
  exact key ⟨n, hn⟩

theorem hexDigit_ne {n : ℕ} (hn : n < 16) :
    hexDigit n ≠ '-' ∧ hexDigit n ≠ '{' ∧ hexDigit n ≠ '}' := by
  have key : ∀ a : Fin 16, hexDigit a ≠ '-' ∧ hexDigit a ≠ '{' ∧ hexDigit a ≠ '}' := by decide
  exact key ⟨n, hn⟩

/-- Digits are read one by one. -/
theorem digitsOf_map_hexDigit : ∀ {ds : List ℕ} (afterDigit : Bool), (∀ d ∈ ds, d < 16) →
    (afterDigit = true ∨ ds ≠ []) →
    digitsOf hexValue? afterDigit (ds.map hexDigit) = some ds
  | [], afterDigit, _, h => by
    rw [List.map_nil, digitsOf, if_pos (h.resolve_right fun hne ↦ hne rfl)]
  | d :: ds, afterDigit, hds, _ => by
    have hd := hds d List.mem_cons_self
    rw [List.map_cons, digitsOf, if_neg (hexDigit_plain hd).2.1, hexValue?_hexDigit hd]
    dsimp only
    rw [digitsOf_map_hexDigit true (fun d' hd' ↦ hds d' (List.mem_cons_of_mem _ hd')) (.inl rfl)]
    rfl

/-- The number digits from `lo` on denote, behind the number of the digits before them. -/
theorem fromDigits_range' (n : ℕ) : ∀ (count lo : ℕ), lo + count ≤ 32 →
    fromDigits 16 (n / 16 ^ (32 - lo)) ((List.range' lo count).map fun i ↦ n / 16 ^ (31 - i) % 16) =
      n / 16 ^ (32 - (lo + count))
  | 0, lo, _ => rfl
  | count + 1, lo, h => by
    have hstep : 16 * (n / 16 ^ (32 - lo)) + n / 16 ^ (31 - lo) % 16 =
        n / 16 ^ (32 - (lo + 1)) := by
      have hpow : 16 ^ (32 - lo) = 16 ^ (31 - lo) * 16 := by
        rw [← pow_succ]
        congr 1
        omega
      rw [hpow, ← Nat.div_div_eq_div_mul, show 32 - (lo + 1) = 31 - lo by omega]
      omega
    have hrest := fromDigits_range' n count (lo + 1) (by omega)
    rw [fromDigits] at hrest ⊢
    rw [List.range'_succ, List.map_cons, List.foldl_cons, hstep, hrest,
      show lo + 1 + count = lo + (count + 1) by omega]

/-- **`int(text, 16)` reads the 32 digits.** -/
theorem intOfHex_hexSlice {n : ℕ} (hn : n < 16 ^ 32) :
    intOfHex (hexSlice n 0 32) = some (n : ℤ) := by
  have hdigit : ∀ i, n / 16 ^ (31 - i) % 16 < 16 := fun i ↦ Nat.mod_lt _ (by decide)
  have hspace : ∀ c ∈ hexSlice n 0 32, isSpace c = false := by
    intro c hc
    obtain ⟨i, -, rfl⟩ := List.mem_map.1 hc
    exact (hexDigit_plain (hdigit i)).1
  have hcons : hexSlice n 0 32 =
      hexDigit (n / 16 ^ 31 % 16) :: hexDigit (n / 16 ^ 30 % 16) :: hexSlice n 2 30 := rfl
  have hprefix : dropHexPrefix (hexSlice n 0 32) = hexSlice n 0 32 := by
    rw [hcons, dropHexPrefix, if_neg]
    rintro ⟨-, hx | hx⟩
    · exact (hexDigit_plain (hdigit 1)).2.2.2.1 hx
    · exact (hexDigit_plain (hdigit 1)).2.2.2.2 hx
  have hdigits : digitsOf hexValue? false (hexSlice n 0 32) =
      some ((List.range' 0 32).map fun i ↦ n / 16 ^ (31 - i) % 16) := by
    rw [← digitsOf_map_hexDigit false _ (.inr (by simp)), List.map_map]
    · rfl
    · intro d hd
      obtain ⟨i, -, rfl⟩ := List.mem_map.1 hd
      exact hdigit i
  have hread := fromDigits_range' n 32 0 le_rfl
  rw [Nat.div_eq_of_lt hn, Nat.zero_add, Nat.sub_self, pow_zero, Nat.div_one] at hread
  rw [intOfHex, strip_eq_self hspace, hcons, signed, if_neg (hexDigit_ne (hdigit 0)).1,
    if_neg (hexDigit_plain (hdigit 0)).2.2.1, ← hcons, hprefix, hdigits, Option.map_some,
    Option.map_some, hread]
  rfl

theorem filter_hexSlice (n lo count : ℕ) :
    (hexSlice n lo count).filter (· ≠ '-') = hexSlice n lo count := by
  refine List.filter_eq_self.2 fun c hc ↦ ?_
  obtain ⟨i, -, rfl⟩ := List.mem_map.1 hc
  simpa using (hexDigit_ne (Nat.mod_lt _ (by decide))).1

/-- There is no brace in a canonical text, so trimming braces leaves it alone. -/
theorem not_brace_of_mem_str {u : Uuid} {c : Char} (hc : c ∈ u.str.toList) : c ≠ '{' ∧ c ≠ '}' := by
  have hslice : ∀ {n lo count}, c ∈ hexSlice n lo count → c ≠ '{' ∧ c ≠ '}' := by
    intro n lo count hmem
    obtain ⟨i, -, rfl⟩ := List.mem_map.1 hmem
    exact (hexDigit_ne (Nat.mod_lt _ (by decide))).2
  have hhyphen : c = '-' → c ≠ '{' ∧ c ≠ '}' := by
    rintro rfl
    decide
  simp only [Uuid.str, String.toList_ofList, List.mem_append, List.mem_singleton] at hc
  rcases hc with (((((((hc | hc) | hc) | hc) | hc) | hc) | hc) | hc) | hc
  all_goals first
    | exact hslice hc
    | exact hhyphen hc

theorem hexSlice_append (n lo a b : ℕ) :
    hexSlice n lo a ++ hexSlice n (lo + a) b = hexSlice n lo (a + b) := by
  rw [hexSlice, hexSlice, hexSlice, ← List.map_append, ← List.range'_append_1]

/-- **The canonical text is read back.** -/
theorem Uuid.parse_str (u : Uuid) : Uuid.parse u.str = some u := by
  have hbrace : ∀ c ∈ u.str.toList, (c = '{' || c = '}') = false := by
    intro c hc
    simpa using not_brace_of_mem_str hc
  have hhex : u.str.toList.filter (· ≠ '-') = hexSlice u.int.toNat 0 32 := by
    have hslices : u.str.toList.filter (· ≠ '-') = hexSlice u.int.toNat 0 8 ++
        hexSlice u.int.toNat 8 4 ++ hexSlice u.int.toNat 12 4 ++ hexSlice u.int.toNat 16 4 ++
        hexSlice u.int.toNat 20 12 := by
      simp only [Uuid.str, String.toList_ofList, List.filter_append, filter_hexSlice]
      simp
    rw [hslices, hexSlice_append _ 0 8 4, hexSlice_append _ 0 12 4, hexSlice_append _ 0 16 4,
      hexSlice_append _ 0 20 12]
  have hlt : u.int.toNat < 2 ^ 128 := u.int.isLt
  have hcolon := u.colon_not_mem_str
  rw [Uuid.parse, removeAll_eq_self (by decide : ':' ∈ "urn:".toList) hcolon,
    removeAll_eq_self (by decide : ':' ∈ "uuid:".toList) hcolon]
  simp only [strip_eq_self hbrace, hhex]
  rw [if_pos (length_hexSlice ..), intOfHex_hexSlice (by omega), Option.bind_some,
    if_pos (by omega), Int.toNat_natCast, BitVec.ofNat_toNat, BitVec.setWidth_eq]

end Orbiter
