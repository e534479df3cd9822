import Mathlib.Algebra.Ring.Nat
import Mathlib.Data.List.Basic
import Mathlib.Data.Int.Notation

/-!
# Python Strings and Dictionaries

A Python `str` is a sequence of code points, lone surrogates included, so it is neither a
Lean `String` (whose characters exclude the surrogates) nor a byte array. `Str` is the
list of its code points: every operation of `str` used by the program is a list
operation, and equality of strings is decidable by evaluation.

`lit` turns a Lean literal into a `Str`; `decimal` is `str(n)` of an integer; `breakAt` is
the search behind `sep in s` and `s.partition(sep)`; `repr` is `repr(s)`.

A `dict` with string keys is an association list in insertion order, read by `dictGet` and
written by `dictSet`; a repeated key keeps its first place and its last value.

What the language leaves to the running interpreter is collected in `Interpreter`.
-/

namespace Python

/-- A Unicode code point, surrogates included. -/
abbrev CodePoint := Fin 0x110000

/-- There are code points. -/
instance neZero_codePoints : NeZero 0x110000 := ⟨by decide⟩

/-- A Python string: its sequence of code points. -/
abbrev Str := List CodePoint

/-- Equal strings are the same string. -/
instance lawfulBEq_str : LawfulBEq Str := inferInstance

/-- The code point of a Lean character. -/
def ofChar (c : Char) : CodePoint := Fin.ofNat 0x110000 c.toNat

/-- A string literal. -/
def lit (s : String) : Str := s.toList.map ofChar

/-- The decimal digits of a natural number. -/
def decimalNat (n : ℕ) : Str := (Nat.toDigits 10 n).map ofChar

/-- `str(n)` of an integer. -/
def decimal : ℤ → Str
  | Int.ofNat n => decimalNat n
  | Int.negSucc n => ofChar '-' :: decimalNat (n + 1)

/-- The digit limit of `int(text)` and of `str(n)`. -/
def maxIntDigits : ℕ := 4300

/-- An integer that `str` prints: one of too many digits is a `ValueError`. -/
def isPrinted (n : ℤ) : Bool := (decimalNat n.natAbs).length ≤ maxIntDigits

/-- `c` is one of the ASCII digits. -/
def isDigit (c : CodePoint) : Bool := 0x30 ≤ c.val && c.val ≤ 0x39

/-- The value of an ASCII digit. -/
def digitVal (c : CodePoint) : ℕ := c.val - 0x30

/-- The value of a sequence of ASCII digits, most significant first. -/
def ofDigits (ds : Str) : ℕ := ds.foldl (fun n d => 10 * n + digitVal d) 0

/-- A code point of a character is that of the character. -/
theorem val_ofChar (c : Char) : (ofChar c).val = c.toNat := by
  have hc : c.toNat < 0x110000 := by
    have := c.valid
    simp only [UInt32.isValidChar, Nat.isValidChar] at this
    change c.val.toNat < _
    omega
  rw [ofChar, Fin.val_ofNat, Nat.mod_eq_of_lt hc]

/-- A number is written in ASCII digits. -/
theorem isDigit_decimalNat (n : ℕ) : ∀ c ∈ decimalNat n, isDigit c = true := by
  intro c hc
  obtain ⟨d, hd, rfl⟩ := List.mem_map.mp hc
  have hdigit := Nat.isDigit_of_mem_toDigits (by decide) (by decide) hd
  simp only [Char.isDigit, Bool.and_eq_true, decide_eq_true_eq, UInt32.le_iff_toNat_le] at hdigit
  rw [isDigit, val_ofChar, Bool.and_eq_true, decide_eq_true_eq, decide_eq_true_eq]
  exact hdigit

/-- The value of digits is that of their characters. -/
theorem foldl_map_ofChar (ds : List Char) (n : ℕ) :
    (ds.map ofChar).foldl (fun n d => 10 * n + digitVal d) n = Nat.ofDigitChars 10 ds n := by
  induction ds generalizing n with
  | nil => rfl
  | cons d ds ih =>
      rw [List.map_cons, List.foldl_cons, ih, Nat.ofDigitChars_cons, digitVal, val_ofChar]
      rfl

/-- A number is written as the digits of its value. -/
theorem ofDigits_decimalNat (n : ℕ) : ofDigits (decimalNat n) = n := by
  rw [ofDigits, decimalNat, foldl_map_ofChar, Nat.ofDigitChars_ten_toDigits]

/-- The parts of a string before and after the first occurrence of `sep`, or `none` where
`sep` does not occur. -/
def breakAt (sep : Str) : Str → Option (Str × Str)
  | [] => if sep = [] then some ([], []) else none
  | c :: cs =>
    if sep.isPrefixOf (c :: cs) then some ([], (c :: cs).drop sep.length)
    else (breakAt sep cs).map fun p => (c :: p.1, p.2)

/-- `sep in s`. -/
def occursIn (sep s : Str) : Bool := (breakAt sep s).isSome

/-- `s.partition(sep)`: around the first occurrence of `sep`, or `(s, "", "")`. -/
def partition (sep s : Str) : Str × Str × Str :=
  match breakAt sep s with
  | some (before, after) => (before, sep, after)
  | none => (s, [], [])

/-- The parts around the first occurrence make up the string. -/
theorem append_of_breakAt {sep s before after : Str} (h : breakAt sep s = some (before, after)) :
    s = before ++ sep ++ after := by
  induction s generalizing before with
  | nil =>
      by_cases hsep : sep = []
      · simp only [breakAt, if_pos hsep, Option.some.injEq, Prod.mk.injEq] at h
        obtain ⟨rfl, rfl⟩ := h
        simp [hsep]
      · simp [breakAt, hsep] at h
  | cons c cs ih =>
      by_cases hpre : sep.isPrefixOf (c :: cs) = true
      · rw [breakAt, if_pos hpre, Option.some.injEq, Prod.mk.injEq] at h
        obtain ⟨rfl, rfl⟩ := h
        exact (List.prefix_iff_eq_append.mp (List.isPrefixOf_iff_prefix.mp hpre)).symm
      · rw [breakAt, if_neg hpre, Option.map_eq_some_iff] at h
        obtain ⟨p, hp, heq⟩ := h
        obtain ⟨rfl, rfl⟩ := Prod.mk.inj heq
        exact congrArg (c :: ·) (ih hp)

/-- A separator that does not start inside the first part is found behind it. -/
theorem breakAt_append {sep before : Str} (after : Str)
    (hfirst : ∀ u v, before = u ++ v → v ≠ [] → ¬sep <+: v ++ sep ++ after) :
    breakAt sep (before ++ sep ++ after) = some (before, after) := by
  induction before with
  | nil =>
      cases hs : sep ++ after with
      | nil =>
          obtain ⟨rfl, rfl⟩ := List.append_eq_nil_iff.mp hs
          simp [breakAt]
      | cons c cs =>
          have hpre : sep.isPrefixOf (c :: cs) = true :=
            List.isPrefixOf_iff_prefix.mpr ⟨after, hs⟩
          rw [List.nil_append, hs, breakAt, if_pos hpre, ← hs, List.drop_left]
  | cons c cs ih =>
      have hpre : ¬sep.isPrefixOf (c :: (cs ++ sep ++ after)) = true := fun h =>
        hfirst [] (c :: cs) rfl (List.cons_ne_nil c cs) (List.isPrefixOf_iff_prefix.mp h)
      have hrest := ih fun u v huv hv => hfirst (c :: u) v (congrArg (c :: ·) huv) hv
      rw [List.cons_append, List.cons_append, breakAt, if_neg hpre, hrest]
      rfl

/-- `sep in s` is true where the separator occurs somewhere in the string. -/
theorem occursIn_of_infix {sep s : Str} (h : sep <:+: s) : occursIn sep s = true := by
  induction s with
  | nil =>
      obtain rfl := List.infix_nil.mp h
      rfl
  | cons c cs ih =>
      by_cases hpre : sep.isPrefixOf (c :: cs) = true
      · rw [occursIn, breakAt, if_pos hpre]
        rfl
      · have htail : sep <:+: cs :=
          (List.infix_cons_iff.mp h).resolve_left fun hp => hpre (List.isPrefixOf_iff_prefix.mpr hp)
        have := ih htail
        rw [occursIn] at this ⊢
        rw [breakAt, if_neg hpre, Option.isSome_map, this]

/-- What the language leaves to the running interpreter: how many nested containers the
stack has room for beyond the first, and which code points its Unicode tables call
printable. -/
structure Interpreter where
  /-- Levels of nested containers the stack has room for beyond the first. -/
  spareLevels : ℕ
  /-- `str.isprintable` of a single code point. -/
  isPrintable : CodePoint → Bool

/-- The lowercase hexadecimal digits of `n`, padded to `width`. -/
def hexPadded (width n : ℕ) : Str :=
  let digits := (Nat.toDigits 16 n).map ofChar
  List.replicate (width - digits.length) (ofChar '0') ++ digits

/-- One code point inside the `repr` of a string with the given quote. -/
def reprChar (py : Interpreter) (quote c : CodePoint) : Str :=
  if c = quote ∨ c = 0x5C then [0x5C, c]
  else if c = 0x09 then lit "\\t"
  else if c = 0x0A then lit "\\n"
  else if c = 0x0D then lit "\\r"
  else if c.val < 0x20 ∨ c.val = 0x7F then lit "\\x" ++ hexPadded 2 c.val
  else if c.val < 0x7F ∨ py.isPrintable c then [c]
  else if c.val ≤ 0xFF then lit "\\x" ++ hexPadded 2 c.val
  else if c.val ≤ 0xFFFF then lit "\\u" ++ hexPadded 4 c.val
  else lit "\\U" ++ hexPadded 8 c.val

/-- `repr(s)`: in single quotes unless the string holds one and no double quote. -/
def repr (py : Interpreter) (s : Str) : Str :=
  let quote : CodePoint := if 0x27 ∈ s ∧ 0x22 ∉ s then 0x22 else 0x27
  quote :: s.flatMap (reprChar py quote) ++ [quote]

/-! ### Dictionaries -/

/-- `d[key] = value` on a `dict` in insertion order. -/
def dictSet {α : Type*} (key : Str) (value : α) : List (Str × α) → List (Str × α)
  | [] => [(key, value)]
  | (k, v) :: fields =>
    if k = key then (k, value) :: fields else (k, v) :: dictSet key value fields

/-- `d.get(key)`. -/
def dictGet {α : Type*} (key : Str) : List (Str × α) → Option α
  | [] => none
  | (k, v) :: fields => if k = key then some v else dictGet key fields

/-- The `dict` built from pairs in order. -/
def dictOf {α : Type*} (pairs : List (Str × α)) : List (Str × α) :=
  pairs.foldl (fun d p => dictSet p.1 p.2 d) []

/-- Reading a key after a write: the value written, or what was there before. -/
theorem dictGet_dictSet {α : Type*} (key k : Str) (v : α) (d : List (Str × α)) :
    dictGet key (dictSet k v d) = if k = key then some v else dictGet key d := by
  induction d with
  | nil => rfl
  | cons p d ih =>
      obtain ⟨k', v'⟩ := p
      by_cases hk : k' = k
      · subst hk
        by_cases hkey : k' = key <;> simp [dictSet, dictGet, hkey]
      · by_cases hkey : k' = key
        · have hne : k ≠ key := fun h => hk (hkey.trans h.symm)
          simp only [dictSet, if_neg hk, dictGet, if_pos hkey, if_neg hne]
        · simp only [dictSet, if_neg hk, dictGet, if_neg hkey, ih]

/-- What a key gives is an entry of the dictionary. -/
theorem mem_of_dictGet {α : Type*} {key : Str} {v : α} {d : List (Str × α)}
    (h : dictGet key d = some v) : (key, v) ∈ d := by
  induction d with
  | nil => simp [dictGet] at h
  | cons p d ih =>
      obtain ⟨k, v'⟩ := p
      by_cases hk : k = key
      · rw [dictGet, if_pos hk, Option.some.injEq] at h
        simp [hk, h]
      · rw [dictGet, if_neg hk] at h
        exact List.mem_cons_of_mem _ (ih h)

/-- A key that no later pair repeats keeps the value of the first pair. -/
theorem dictGet_dictOf_head {α : Type*} (key : Str) (v : α) (pairs : List (Str × α))
    (hfresh : ∀ p ∈ pairs, p.1 ≠ key) : dictGet key (dictOf ((key, v) :: pairs)) = some v := by
  suffices h : ∀ d : List (Str × α), dictGet key d = some v →
      dictGet key (pairs.foldl (fun d p => dictSet p.1 p.2 d) d) = some v from
    h _ (by simp [dictSet, dictGet])
  induction pairs with
  | nil => exact fun d hd => hd
  | cons p pairs ih =>
      intro d hd
      refine ih (fun q hq => hfresh q (List.mem_cons_of_mem p hq)) _ ?_
      rw [dictGet_dictSet, if_neg (hfresh p List.mem_cons_self), hd]

end Python
