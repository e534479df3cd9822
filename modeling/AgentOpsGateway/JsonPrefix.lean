import AgentOpsGateway.JsonText
import AgentOpsGateway.TextLines
import Mathlib.Tactic.IntervalCases

/-!
# Truncated JSON Objects

A writer that stops in the middle of a line leaves the beginning of the text of an object,
and the next writer goes on right behind it. `Cut` is such a beginning of an object whose
fields are strings, and `cutsText` the text of several of them in a row.

The reader makes nothing of such a text, unless it is one object that lacks nothing. The
reason is that every cut starts with `{"` and the first letter of a key: inside a string
literal these close it in front of something that is no `:`, `,` or `}` (`Blocked`), and
everywhere else the brace is out of place, except where a value is due. There the reader
descends, and a long enough row of such cuts uses up its stack.

## Main results

* `scanString_cut`: a string literal that breaks off is not followed by what has to follow.
* `loads_cutsText`: **what the reader makes of a row of cuts.**
-/

namespace Python

/-! ### What stands behind a cut -/

/-- None of the marks that continue an object comes next. -/
def Blocked (s : Str) : Prop := ∀ c, (skipSpace s).head? = some c → c ≠ 0x3A ∧ c ≠ 0x2C ∧ c ≠ 0x7D

/-- A visible code point other than the marks that continue an object. -/
def isBlocking (c : CodePoint) : Bool := !isJsonSpace c && c != 0x3A && c != 0x2C && c != 0x7D

theorem blocked_nil : Blocked [] := fun _ h => by simp [skipSpace] at h

theorem blocked_cons {c : CodePoint} (hc : isBlocking c = true) (s : Str) : Blocked (c :: s) := by
  simp only [isBlocking, Bool.and_eq_true, Bool.not_eq_true', bne_iff_ne] at hc
  obtain ⟨⟨⟨hspace, hcolon⟩, hcomma⟩, hbrace⟩ := hc
  intro d hd
  rw [skipSpace_cons hspace, List.head?_cons, Option.some.injEq] at hd
  exact hd ▸ ⟨hcolon, hcomma, hbrace⟩

/-- The beginnings of objects that may stand behind a cut: none, or an opening brace, and
behind the quote of the first key nothing that continues an object. -/
inductive Tail : Str → Prop
  | none : Tail []
  | brace {s : Str} : Tail s → Tail (0x7B :: s)
  | quote {s : Str} : Blocked s → Tail (0x7B :: 0x22 :: s)

theorem Tail.blocked {t : Str} (ht : Tail t) : Blocked t := by
  cases ht with
  | none => exact blocked_nil
  | brace _ => exact blocked_cons (by decide) _
  | quote _ => exact blocked_cons (by decide) _

theorem Tail.skipSpace {t : Str} (ht : Tail t) : skipSpace t = t := by
  cases ht with
  | none => rfl
  | brace _ => exact skipSpace_cons (by decide) _
  | quote _ => exact skipSpace_cons (by decide) _

/-- What follows a cut starts with a brace. -/
theorem Tail.head {c : CodePoint} {t : Str} (ht : Tail (c :: t)) : c = 0x7B := by
  cases ht <;> rfl

/-- The scanner is stuck: it fails, or what comes next does not continue an object. -/
def Stuck {α : Type*} (r : Except LoadsError (α × Str)) : Prop :=
  r = .error .valueError ∨ ∃ out rest, r = .ok (out, rest) ∧ Blocked rest

theorem Stuck.prepend {r : Except LoadsError (Str × Str)} (hr : Stuck r) (out : Str) :
    Stuck (prepend out r) := by
  rcases hr with rfl | ⟨out', rest, rfl, hrest⟩
  · exact Or.inl rfl
  · exact Or.inr ⟨_, _, rfl, hrest⟩

/-! ### Broken string literals -/

section Strings

variable {t : Str}

/-- A literal that breaks off between two of its characters. -/
theorem scanString_tail (ht : Tail t) (hi : Option CodePoint) : Stuck (scanString hi t) := by
  have hbrace : ∀ hi s, scanString hi (0x7B :: s) = prepend (hi.toList ++ [0x7B])
      (scanString none s) := fun hi s => by
    rw [scanString.eq_def]
    exact (if_neg (by decide)).trans ((if_neg (by decide)).trans (if_neg (by decide)))
  induction ht generalizing hi with
  | none => exact Or.inl rfl
  | brace _ ih =>
      rw [hbrace]
      exact (ih none).prepend _
  | quote hs =>
      rw [hbrace]
      refine Stuck.prepend (Or.inr ⟨[], _, ?_, hs⟩) _
      rw [scanString.eq_def]
      simp

/-- A brace is no hexadecimal digit. -/
theorem hexUnit_brace (a b c d : CodePoint) (h : a = 0x7B ∨ b = 0x7B ∨ c = 0x7B ∨ d = 0x7B) :
    hexUnit a b c d = none := by
  have hbrace : hexVal 0x7B = none := by decide
  rcases h with rfl | rfl | rfl | rfl <;> simp [hexUnit, hbrace]

/-- A backslash in front of a cut escapes nothing. -/
theorem scanString_backslash_tail (ht : Tail t) (hi : Option CodePoint) :
    Stuck (scanString hi (0x5C :: t)) := by
  have hnone : shortEscapeOf 0x7B = none := by decide
  refine Or.inl ?_
  rw [scanString.eq_def]
  cases t with
  | nil => rfl
  | cons c t => simp [ht.head, hnone]

/-- Without four hexadecimal digits there is no unit. -/
theorem scanString_no_unit (hi : Option CodePoint) {s : Str}
    (h : ∀ a b c d rest, s = a :: b :: c :: d :: rest → hexUnit a b c d = none) :
    scanString hi (0x5C :: 0x75 :: s) = .error .valueError := by
  rw [scanString.eq_def]
  simp only [if_true, if_neg (show (0x5C : CodePoint) ≠ 0x22 by decide)]
  split
  · next a b c d rest => simp only [h a b c d rest rfl]
  · rfl

/-- A literal that breaks off inside the escape of a unit. -/
theorem scanString_unitEscape_cut (ht : Tail t) (hi : Option CodePoint) (n : ℕ) {m : ℕ}
    (hm : m < 6) : Stuck (scanString hi ((unitEscape n).take m ++ t)) := by
  simp only [unitEscape]
  interval_cases m
  · exact scanString_tail ht hi
  · exact scanString_backslash_tail ht hi
  all_goals
    simp only [List.take_succ_cons, List.take_zero, List.cons_append, List.nil_append]
    refine Or.inl (scanString_no_unit hi fun a b c d rest heq => hexUnit_brace a b c d ?_)
  · subst heq
    exact Or.inl ht.head
  all_goals simp only [List.cons.injEq] at heq
  · obtain ⟨rfl, rfl⟩ := heq
    exact Or.inr (Or.inl ht.head)
  · obtain ⟨rfl, rfl, rfl⟩ := heq
    exact Or.inr (Or.inr (Or.inl ht.head))
  · obtain ⟨rfl, rfl, rfl, rfl⟩ := heq
    exact Or.inr (Or.inr (Or.inr ht.head))

/-- A literal that breaks off inside an escaped code point. -/
theorem scanString_escapeChar_cut (ht : Tail t) (hi : Option CodePoint) (c : CodePoint) {m : ℕ}
    (hm : m < (escapeChar c).length) : Stuck (scanString hi ((escapeChar c).take m ++ t)) := by
  rcases escapeChar_cases c with ⟨e, he, -⟩ | ⟨he, -⟩ | ⟨he, -⟩ | ⟨he, hge⟩
  · rw [he] at hm ⊢
    simp only [List.length_cons, List.length_nil] at hm
    interval_cases m
    · exact scanString_tail ht hi
    · exact scanString_backslash_tail ht hi
  · rw [he] at hm ⊢
    simp only [List.length_cons, List.length_nil] at hm
    interval_cases m
    exact scanString_tail ht hi
  · rw [he] at hm ⊢
    exact scanString_unitEscape_cut ht hi c.val hm
  · have hlt := c.isLt
    have hunit : (unitEscape (0xD800 + (c.val - 0x10000) / 1024)).length = 6 := rfl
    rw [he, List.length_append, hunit] at hm
    rw [he, List.take_append, hunit]
    rcases Nat.lt_or_ge m 6 with hfirst | hsecond
    · rw [Nat.sub_eq_zero_of_le hfirst.le, List.take_zero, List.append_nil]
      exact scanString_unitEscape_cut ht hi _ hfirst
    · rw [List.take_of_length_le (by omega), List.append_assoc, scanString_unitEscape hi (by omega)]
      exact (scanString_unitEscape_cut ht _ _ (Nat.sub_lt_left_of_lt_add hsecond hm)).prepend _

/-- **A string literal that breaks off** is not closed, or not in front of what has to
follow. Induction on the string. -/
theorem scanString_cut (ht : Tail t) (hi : Option CodePoint) (s : Str) {m : ℕ}
    (hm : m < (encodeString s).length) : Stuck (scanString hi ((encodeString s).take m ++ t)) := by
  induction s generalizing hi m with
  | nil =>
      obtain rfl : m = 0 := by simpa [encodeString] using hm
      exact scanString_tail ht hi
  | cons c s ih =>
      have hsplit : encodeString (c :: s) = escapeChar c ++ encodeString s := by
        simp [encodeString]
      rw [hsplit, List.length_append] at hm
      rw [hsplit, List.take_append]
      rcases Nat.lt_or_ge m (escapeChar c).length with hfirst | hrest
      · rw [Nat.sub_eq_zero_of_le hfirst.le, List.take_zero, List.append_nil]
        exact scanString_escapeChar_cut ht hi c hfirst
      · rw [List.take_of_length_le hrest, List.append_assoc, scanString_escapeChar]
        exact (ih _ (by omega)).prepend _

/-- The same of a literal that breaks off behind its closing quote. -/
theorem scanString_cut_le (ht : Tail t) (s : Str) {m : ℕ} (hm : m ≤ (encodeString s).length) :
    Stuck (scanString none ((encodeString s).take m ++ t)) := by
  rcases hm.lt_or_eq with hlt | rfl
  · exact scanString_cut ht none s hlt
  · rw [List.take_length, scanString_encodeString]
    exact Or.inr ⟨_, _, rfl, ht.blocked⟩

end Strings

/-! ### Broken objects -/

/-- The text of a field. -/
def fieldText (p : Str × Str) : Str :=
  0x22 :: (encodeString p.1 ++ 0x3A :: 0x20 :: 0x22 :: encodeString p.2)

theorem dumpsFields_single (p : Str × Str) :
    dumpsFields ([p].map strField) = fieldText p ++ [0x7D] := by
  have hcolon : lit ": " = [0x3A, 0x20] := by decide
  simp [dumpsFields, strField, dumps, fieldText, hcolon]

theorem dumpsFields_cons (p q : Str × Str) (fs : List (Str × Str)) :
    dumpsFields ((p :: q :: fs).map strField) =
      fieldText p ++ 0x2C :: 0x20 :: dumpsFields ((q :: fs).map strField) := by
  have hcolon : lit ": " = [0x3A, 0x20] := by decide
  have hcomma : lit ", " = [0x2C, 0x20] := by decide
  simp [dumpsFields, strField, dumps, fieldText, hcolon, hcomma]

/-- The field breaks off where its value is due. -/
def atColon (p : Str × Str) (m : ℕ) : Bool :=
  m = (encodeString p.1).length + 2 || m = (encodeString p.1).length + 3

/-- The fields of an object break off after `m` characters, where a value is due. -/
def atValue : List (Str × Str) → ℕ → Bool
  | [], _ => false
  | p :: fs, m => atColon p m || atValue fs (m - ((fieldText p).length + 2))

/-- The outcome of reading the nested value decides: its failure is passed on, and where it
is read the object is not continued. -/
def Passes (nested outer : Except LoadsError (Json × Str)) : Prop :=
  (∀ e, nested = .error e → outer = .error e) ∧ (Stuck nested → outer = .error .valueError)

section Fields

variable {t : Str} (fuel depth : ℕ) (acc : List (Str × Json))

/-- An object whose key breaks off. -/
theorem scanFields_stuck {s : Str} (h : Stuck (scanString none s)) :
    scanFields fuel depth acc (0x22 :: s) = .error .valueError := by
  cases fuel with
  | zero => rfl
  | succ fuel =>
      rw [scanFields.eq_def]
      rcases h with h | ⟨key, rest, h, hrest⟩
      · simp [h]
      · cases hskip : skipSpace rest with
        | nil => simp [h, hskip]
        | cons c cs =>
            obtain ⟨hc, -⟩ := hrest c (by rw [hskip, List.head?_cons])
            simp [h, hskip, hc]

/-- Where a value is due, the value decides. -/
theorem scanFields_passes (k : Str) {s : Str} (hs : skipSpace s = s) :
    Passes (scanOnce fuel depth s)
      (scanFields (fuel + 1) depth acc (0x22 :: (encodeString k ++ 0x3A :: s))) := by
  have hcolon : isJsonSpace 0x3A = false := by decide
  constructor
  · intro e he
    rw [scanFields.eq_def]
    simp [scanString_encodeString, skipSpace_cons hcolon, hs, he]
  · rintro (h | ⟨v, rest, h, hrest⟩)
    · rw [scanFields.eq_def]
      simp [scanString_encodeString, skipSpace_cons hcolon, hs, h]
    · rw [scanFields.eq_def]
      cases hskip : skipSpace rest with
      | nil => simp [scanString_encodeString, skipSpace_cons hcolon, hs, h, hskip]
      | cons c cs =>
          obtain ⟨-, hcomma, hbrace⟩ := hrest c (by rw [hskip, List.head?_cons])
          simp [scanString_encodeString, skipSpace_cons hcolon, hs, h, hskip, hcomma, hbrace]

/-- A brace where a key is due. -/
theorem scanFields_tail (ht : Tail t) : scanFields fuel depth acc t = .error .valueError := by
  cases fuel with
  | zero => cases t <;> rfl
  | succ fuel =>
      rw [scanFields.eq_def]
      cases t with
      | nil => rfl
      | cons c t => simp [ht.head]

/-- A value whose literal breaks off. -/
theorem scanOnce_stuck {s : Str} (h : Stuck (scanString none s)) :
    Stuck (scanOnce fuel depth (0x22 :: s)) := by
  cases fuel with
  | zero => exact Or.inl rfl
  | succ fuel =>
      rw [scanOnce.eq_def]
      rcases h with h | ⟨out, rest, h, hrest⟩
      · exact Or.inl (by simp [h, Except.map])
      · exact Or.inr ⟨.str out, rest, by simp [h, Except.map], hrest⟩

/-- The space in front of a value is skipped. -/
theorem scanFields_colon_space (k : Str) {s : Str} (hs : skipSpace s = s) :
    Passes (scanOnce fuel depth s)
      (scanFields (fuel + 1) depth acc (0x22 :: (encodeString k ++ 0x3A :: 0x20 :: s))) := by
  have hspace : skipSpace (0x20 :: s) = s := by rw [skipSpace_space, hs]
  have hsame : ∀ fuel, scanFields fuel depth acc (0x22 :: (encodeString k ++ 0x3A :: 0x20 :: s)) =
      scanFields fuel depth acc (0x22 :: (encodeString k ++ 0x3A :: s)) := fun fuel => by
    have hcolon : isJsonSpace 0x3A = false := by decide
    cases fuel with
    | zero => rfl
    | succ fuel =>
        rw [scanFields.eq_def, scanFields.eq_def]
        simp [scanString_encodeString, skipSpace_cons hcolon, hs, hspace]
  rw [hsame]
  exact scanFields_passes fuel depth acc k hs

/-- **One field that breaks off** other than where its value is due. -/
theorem scanFields_field_cut (ht : Tail t) (p : Str × Str) {m : ℕ}
    (hm : m ≤ (fieldText p).length) (hcolon : atColon p m = false) :
    scanFields fuel depth acc ((fieldText p).take m ++ t) = .error .valueError := by
  obtain ⟨k, v⟩ := p
  simp only [atColon, Bool.or_eq_false_iff, decide_eq_false_iff_not] at hcolon
  simp only [fieldText, List.length_cons, List.length_append] at hm
  cases m with
  | zero => exact scanFields_tail fuel depth acc ht
  | succ m =>
      simp only [fieldText, List.take_succ_cons, List.cons_append, List.take_append,
        List.append_assoc]
      rcases Nat.lt_or_ge (encodeString k).length m with hkey | hkey
      · obtain ⟨j, rfl⟩ : ∃ j, m = (encodeString k).length + (j + 3) :=
          ⟨m - (encodeString k).length - 3, by omega⟩
        rw [List.take_of_length_le hkey.le, Nat.add_sub_cancel_left]
        simp only [List.take_succ_cons, List.cons_append]
        cases fuel with
        | zero => rfl
        | succ fuel =>
            have hvalue := scanString_cut_le ht v (m := j) (by omega)
            exact (scanFields_colon_space fuel depth acc k (skipSpace_cons (by decide) _)).2
              (scanOnce_stuck fuel depth hvalue)
      · rw [Nat.sub_eq_zero_of_le hkey, List.take_zero, List.nil_append]
        exact scanFields_stuck fuel depth acc (scanString_cut_le ht k hkey)

/-- A field that breaks off where its value is due. -/
theorem scanFields_field_colon (ht : Tail t) (p : Str × Str) {m : ℕ} (hcolon : atColon p m = true) :
    Passes (scanOnce fuel depth t)
      (scanFields (fuel + 1) depth acc ((fieldText p).take m ++ t)) := by
  obtain ⟨k, v⟩ := p
  simp only [atColon, Bool.or_eq_true, decide_eq_true_eq] at hcolon
  have htake : ∀ j, (fieldText (k, v)).take ((encodeString k).length + (j + 1)) =
      0x22 :: (encodeString k ++ (0x3A :: 0x20 :: 0x22 :: encodeString v).take j) := fun j => by
    rw [fieldText, ← Nat.add_assoc, List.take_succ_cons, List.take_append,
      List.take_of_length_le (Nat.le_add_right _ j), Nat.add_sub_cancel_left]
  rcases hcolon with rfl | rfl
  · simpa [htake] using scanFields_passes fuel depth acc k ht.skipSpace
  · simpa [htake] using scanFields_colon_space fuel depth acc k ht.skipSpace

/-- A whole field and a comma are followed by the other fields. -/
theorem scanFields_comma (p : Str × Str) (s : Str) :
    scanFields (fuel + 2) depth acc (fieldText p ++ 0x2C :: s) =
      scanFields (fuel + 1) depth (dictSet (joinField p).1 (joinField p).2 acc) (skipSpace s) := by
  have hcolon : lit ": " = [0x3A, 0x20] := by decide
  have hfield := scanFields_field fuel depth acc p (c := 0x2C) (by decide) s
  rw [if_neg (by decide), if_pos rfl] at hfield
  simpa [fieldText, dumps, hcolon] using hfield

/-- Nothing breaks off where a value is due in front of the first field. -/
theorem atValue_zero (fs : List (Str × Str)) : atValue fs 0 = false := by
  induction fs with
  | nil => rfl
  | cons p fs ih => simp [atValue, atColon, ih]

/-- The text of fields does not start with whitespace. -/
theorem skipSpace_dumpsFields_take (ht : Tail t) (p : Str × Str) (fs : List (Str × Str)) (m : ℕ) :
    skipSpace ((dumpsFields ((p :: fs).map strField)).take m ++ t) =
      (dumpsFields ((p :: fs).map strField)).take m ++ t := by
  have hquote : ∃ s, dumpsFields ((p :: fs).map strField) = 0x22 :: s := by
    cases fs with
    | nil => exact ⟨_, dumpsFields_single p⟩
    | cons q fs => exact ⟨_, dumpsFields_cons p q fs⟩
  obtain ⟨s, hs⟩ := hquote
  cases m with
  | zero => exact ht.skipSpace
  | succ m =>
      rw [hs, List.take_succ_cons, List.cons_append]
      exact skipSpace_cons (by decide) _

/-- **A field that breaks off** makes the reader fail, unless its value is due. -/
theorem scanFields_fieldText_cut (ht : Tail t) (p : Str × Str) {m : ℕ}
    (hm : m ≤ (fieldText p).length) (hfuel : m < fuel) :
    (atColon p m = false →
      scanFields fuel depth acc ((fieldText p).take m ++ t) = .error .valueError) ∧
    (atColon p m = true → ∃ fuel', fuel ≤ fuel' + m ∧
      Passes (scanOnce fuel' depth t)
        (scanFields fuel depth acc ((fieldText p).take m ++ t))) := by
  refine ⟨scanFields_field_cut fuel depth acc ht p hm, fun hcolon => ?_⟩
  obtain ⟨fuel, rfl⟩ : ∃ k, fuel = k + 1 := ⟨fuel - 1, by omega⟩
  have hpos : 0 < m := by
    rw [Nat.pos_iff_ne_zero]
    rintro rfl
    simp [atColon] at hcolon
  exact ⟨fuel, by omega, scanFields_field_colon fuel depth acc ht p hcolon⟩

/-- **The fields of an object that break off** make the reader fail, unless a value is due:
then the value decides. Induction on the fields. -/
theorem scanFields_cut (ht : Tail t) (fs : List (Str × Str)) :
    ∀ (p : Str × Str) (fuel : ℕ) (acc : List (Str × Json)) (m : ℕ),
      m < (dumpsFields ((p :: fs).map strField)).length → m < fuel →
      (atValue (p :: fs) m = false →
        scanFields fuel depth acc ((dumpsFields ((p :: fs).map strField)).take m ++ t) =
          .error .valueError) ∧
      (atValue (p :: fs) m = true → ∃ fuel', fuel ≤ fuel' + m ∧
        Passes (scanOnce fuel' depth t)
          (scanFields fuel depth acc ((dumpsFields ((p :: fs).map strField)).take m ++ t))) := by
  induction fs with
  | nil =>
      intro p fuel acc m hm hfuel
      rw [dumpsFields_single, List.length_append] at hm
      have hle : m ≤ (fieldText p).length := Nat.le_of_lt_succ hm
      rw [dumpsFields_single, List.take_append_of_le_length hle]
      simpa [atValue] using scanFields_fieldText_cut fuel depth acc ht p hle hfuel
  | cons q fs ih =>
      intro p fuel acc m hm hfuel
      rw [dumpsFields_cons, List.length_append] at hm
      rw [dumpsFields_cons]
      rcases Nat.lt_or_ge (fieldText p).length m with hlt | hle
      · obtain ⟨j, rfl⟩ := Nat.exists_eq_add_of_lt hlt
        obtain ⟨fuel, rfl⟩ : ∃ k, fuel = k + 2 := ⟨fuel - 2, by simp [fieldText] at hfuel; omega⟩
        have hcolon : atColon p ((fieldText p).length + j + 1) = false := by
          simp only [atColon, fieldText, List.length_cons, List.length_append,
            Bool.or_eq_false_iff, decide_eq_false_iff_not]
          omega
        have hrest : (fieldText p).length + j + 1 - ((fieldText p).length + 2) = j - 1 := by omega
        rw [atValue, hcolon, hrest, Bool.false_or, List.take_append, Nat.add_assoc,
          List.take_of_length_le (Nat.le_add_right _ _), Nat.add_sub_cancel_left,
          List.append_assoc, List.take_succ_cons, List.cons_append, scanFields_comma]
        cases j with
        | zero =>
            rw [List.take_zero, List.nil_append, ht.skipSpace, atValue_zero]
            exact ⟨fun _ => scanFields_tail _ depth _ ht, nofun⟩
        | succ j =>
            rw [List.take_succ_cons, List.cons_append, skipSpace_space,
              skipSpace_dumpsFields_take ht, Nat.add_sub_cancel]
            obtain ⟨hfail, hpass⟩ := ih q (fuel + 1) (dictSet (joinField p).1 (joinField p).2 acc) j
              (by simp only [List.length_cons] at hm; omega) (by omega)
            refine ⟨hfail, fun hvalue => ?_⟩
            obtain ⟨fuel', hle, hpasses⟩ := hpass hvalue
            exact ⟨fuel', by omega, hpasses⟩
      · have hrest : atValue (q :: fs) (m - ((fieldText p).length + 2)) = false := by
          rw [Nat.sub_eq_zero_of_le (by omega), atValue_zero]
        rw [List.take_append_of_le_length hle, atValue, hrest, Bool.or_false]
        -- up to the end of the first field the rest of the object plays no part
        exact scanFields_fieldText_cut fuel depth acc ht p hle hfuel

/-- An opening brace is followed by fields. -/
theorem scanOnce_brace {s : Str} (hskip : skipSpace s = s) (hhead : s.head? ≠ some 0x7D) :
    scanOnce (fuel + 1) (depth + 1) (0x7B :: s) = scanFields fuel depth [] s := by
  rw [scanOnce.eq_def]
  cases s with
  | nil => cases fuel <;> rfl
  | cons c s =>
      rw [List.head?_cons, ne_eq, Option.some.injEq] at hhead
      simp [hskip, hhead]

end Fields

/-! ### Rows of cuts -/

/-- The beginning of the text of an object of strings, of at least one character. -/
structure Cut where
  first : Str × Str
  others : List (Str × Str)
  /-- How many characters of the text there are; the text is whole where it has no more. -/
  size : ℕ
  size_pos : 0 < size
  /-- Behind its quote the first key does not look like the continuation of an object. -/
  blocking : ((encodeString first.1).head?.any isBlocking) = true

/-- The fields of the object. -/
def Cut.fields (c : Cut) : List (Str × Str) := c.first :: c.others

/-- The whole text of the object. -/
def Cut.object (c : Cut) : Str := dumps (.obj (c.fields.map strField))

/-- The characters that there are. -/
def Cut.text (c : Cut) : Str := c.object.take c.size

/-- Nothing is missing. -/
def Cut.whole (c : Cut) : Bool := c.object.length ≤ c.size

/-- The object as it is read back. -/
def Cut.row (c : Cut) : Json := .obj (dictOf (c.fields.map joinField))

/-- The text breaks off where a value is due. -/
def Cut.atValue (c : Cut) : Bool := !c.whole && Python.atValue c.fields (c.size - 1)

/-- The text of cuts in a row. -/
def cutsText (cs : List Cut) : Str := cs.flatMap Cut.text

/-- The reader descends into one cut after the other until its stack of `depth` levels is
used up. -/
def tooDeep : ℕ → List Cut → Bool
  | _, [] => false
  | 0, _ :: _ => true
  | depth + 1, c :: cs => c.atValue && tooDeep depth cs

/-- The one cut of a row that is read: it lacks nothing and stands alone. -/
def soleWhole : List Cut → Option Cut
  | [c] => if c.whole then some c else none
  | _ => none

/-- The text of a cut and of what stands behind it. -/
theorem Cut.text_eq (c : Cut) :
    c.text = 0x7B :: (dumpsFields (c.fields.map strField)).take (c.size - 1) := by
  obtain ⟨n, hn⟩ := Nat.exists_eq_add_of_lt c.size_pos
  rw [Cut.text, Cut.object, dumps, hn, Nat.zero_add, List.take_succ_cons, Nat.add_sub_cancel]

/-- The fields start with the quote of the first key and something that blocks. -/
theorem Cut.dumpsFields_eq (c : Cut) : ∃ x s, isBlocking x = true ∧
    dumpsFields (c.fields.map strField) = 0x22 :: x :: s := by
  have hquote : ∃ s,
      dumpsFields (c.fields.map strField) = 0x22 :: (encodeString c.first.1 ++ s) := by
    rw [Cut.fields]
    cases c.others with
    | nil =>
        rw [dumpsFields_single, fieldText, List.cons_append, List.append_assoc]
        exact ⟨_, rfl⟩
    | cons q fs =>
        rw [dumpsFields_cons, fieldText, List.cons_append, List.append_assoc]
        exact ⟨_, rfl⟩
  obtain ⟨s, hs⟩ := hquote
  obtain ⟨x, hx, hblock⟩ := (Option.any_eq_true _ _).mp c.blocking
  obtain ⟨k, hk⟩ := List.head?_eq_some_iff.mp hx
  exact ⟨x, k ++ s, hblock, by rw [hs, hk, List.cons_append]⟩

/-- A cut in front of beginnings of objects is one itself. -/
theorem Cut.tail_append (c : Cut) {t : Str} (ht : Tail t) : Tail (c.text ++ t) := by
  obtain ⟨x, s, hx, hs⟩ := c.dumpsFields_eq
  rw [c.text_eq, hs, List.cons_append]
  match c.size - 1 with
  | 0 => exact ht.brace
  | 1 => exact Tail.quote ht.blocked
  | n + 2 => exact Tail.quote (blocked_cons hx _)

theorem tail_cutsText (cs : List Cut) : Tail (cutsText cs) := by
  induction cs with
  | nil => exact Tail.none
  | cons c cs ih => exact c.tail_append ih

/-- The scanner on a row of cuts. -/
def scanCuts (depth : ℕ) (cs : List Cut) : Except LoadsError (Json × Str) :=
  match cs with
  | [] => .error .valueError
  | c :: rest =>
    if tooDeep depth (c :: rest) then .error .recursionError
    else if c.whole then .ok (c.row, cutsText rest)
    else .error .valueError

/-- Without the stack running out, a row of cuts is no value that an object could go on
behind. -/
theorem stuck_scanCuts {depth : ℕ} {cs : List Cut} (h : tooDeep depth cs = false) :
    Stuck (scanCuts depth cs) := by
  cases cs with
  | nil => exact Or.inl rfl
  | cons c cs =>
      rw [scanCuts, h]
      by_cases hwhole : c.whole = true
      · exact Or.inr ⟨c.row, cutsText cs, by simp [hwhole], (tail_cutsText cs).blocked⟩
      · exact Or.inl (by simp [hwhole])

/-- Where the stack runs out, the scanner says so. -/
theorem scanCuts_of_tooDeep {depth : ℕ} {cs : List Cut} (h : tooDeep depth cs = true) :
    scanCuts depth cs = .error .recursionError := by
  cases cs with
  | nil => simp [tooDeep] at h
  | cons c cs => rw [scanCuts, if_pos h]

/-- Nothing is missing where the fields are all there. -/
theorem Cut.whole_iff (c : Cut) :
    c.whole = true ↔ (dumpsFields (c.fields.map strField)).length ≤ c.size - 1 := by
  have hobject : c.object.length = (dumpsFields (c.fields.map strField)).length + 1 := rfl
  have hpos := c.size_pos
  rw [Cut.whole, decide_eq_true_eq]
  omega

section Scan

variable {t : Str} {fuel depth : ℕ}

/-- The scanner goes on with the fields of a cut. -/
theorem Cut.scanOnce_text (c : Cut) (ht : Tail t) :
    scanOnce (fuel + 1) (depth + 1) (c.text ++ t) =
      scanFields fuel depth [] ((dumpsFields (c.fields.map strField)).take (c.size - 1) ++ t) := by
  have hskip := skipSpace_dumpsFields_take ht c.first c.others (c.size - 1)
  obtain ⟨x, s, -, hs⟩ := c.dumpsFields_eq
  rw [c.text_eq, List.cons_append]
  refine scanOnce_brace fuel depth hskip ?_
  rw [hs]
  cases c.size - 1 with
  | zero =>
      cases t with
      | nil => simp
      | cons d t => simp [ht.head]
  | succ m => simp

/-- A whole object is read. -/
theorem Cut.scanOnce_whole (c : Cut) (hwhole : c.whole = true) (ht : Tail t)
    (hfuel : (c.text ++ t).length < fuel + 1) :
    scanOnce (fuel + 1) (depth + 1) (c.text ++ t) = .ok (c.row, t) := by
  have hsize := c.whole_iff.mp hwhole
  have hlen := length_le_length_dumpsFields (c.fields.map strField)
  rw [c.text_eq, List.take_of_length_le hsize, List.cons_append, List.length_cons,
    List.length_append] at hfuel
  have hfields : (c.fields.map strField).length = c.others.length + 1 := by simp [Cut.fields]
  obtain ⟨fuel, rfl⟩ : ∃ k, fuel = k + 2 := ⟨fuel - 2, by omega⟩
  rw [c.scanOnce_text ht, List.take_of_length_le hsize]
  exact scanFields_dumpsFields depth t c.others c.first fuel [] (by omega)

/-- Of an object that breaks off, only a value that is due is read. -/
theorem Cut.scanOnce_partial (c : Cut) (hwhole : c.whole = false) (ht : Tail t)
    (hfuel : (c.text ++ t).length < fuel + 1) :
    (c.atValue = false → scanOnce (fuel + 1) (depth + 1) (c.text ++ t) = .error .valueError) ∧
      (c.atValue = true → ∃ fuel', t.length < fuel' ∧
        Passes (scanOnce fuel' depth t) (scanOnce (fuel + 1) (depth + 1) (c.text ++ t))) := by
  have hsize : c.size - 1 < (dumpsFields (c.fields.map strField)).length := by
    rw [← Nat.not_le, ← c.whole_iff, hwhole]
    exact Bool.false_ne_true
  rw [c.text_eq, List.cons_append, List.length_cons, List.length_append, List.length_take,
    Nat.min_eq_left hsize.le] at hfuel
  obtain ⟨hfail, hpass⟩ := scanFields_cut depth ht c.others c.first fuel [] (c.size - 1) hsize
    (by omega)
  rw [c.scanOnce_text ht, Cut.atValue, hwhole, Bool.not_false, Bool.true_and]
  refine ⟨hfail, fun hvalue => ?_⟩
  obtain ⟨fuel', hle, hpasses⟩ := hpass hvalue
  exact ⟨fuel', by omega, hpasses⟩

end Scan

/-- **The scanner on a row of cuts**: the first one decides, unless it breaks off where a
value is due. Induction on the row; the fuel exceeds what is left of the text. -/
theorem scanOnce_cutsText (cs : List Cut) : ∀ depth fuel, (cutsText cs).length < fuel →
    scanOnce fuel depth (cutsText cs) = scanCuts depth cs := by
  induction cs with
  | nil =>
      intro depth fuel hfuel
      obtain ⟨fuel, rfl⟩ : ∃ k, fuel = k + 1 := ⟨fuel - 1, by omega⟩
      rfl
  | cons c cs ih =>
      intro depth fuel hfuel
      obtain ⟨fuel, rfl⟩ : ∃ k, fuel = k + 1 := ⟨fuel - 1, by omega⟩
      have ht := tail_cutsText cs
      have htext : cutsText (c :: cs) = c.text ++ cutsText cs := rfl
      rw [htext] at hfuel ⊢
      cases depth with
      | zero =>
          rw [c.text_eq, List.cons_append, scanOnce.eq_def]
          simp [scanCuts, tooDeep]
      | succ depth =>
          cases hwhole : c.whole with
          | true =>
              rw [c.scanOnce_whole hwhole ht hfuel]
              simp [scanCuts, tooDeep, Cut.atValue, hwhole]
          | false =>
              obtain ⟨hfail, hpass⟩ := @Cut.scanOnce_partial _ _ depth c hwhole ht hfuel
              cases hvalue : c.atValue with
              | false =>
                  rw [hfail hvalue]
                  simp [scanCuts, tooDeep, hwhole, hvalue]
              | true =>
                  obtain ⟨fuel', hfuel', herror, hstuck⟩ := hpass hvalue
                  rw [ih depth fuel' hfuel'] at herror hstuck
                  cases hdeep : tooDeep depth cs with
                  | true =>
                      rw [herror _ (scanCuts_of_tooDeep hdeep)]
                      simp [scanCuts, tooDeep, hvalue, hdeep]
                  | false =>
                      rw [hstuck (stuck_scanCuts hdeep)]
                      simp [scanCuts, tooDeep, hwhole, hvalue, hdeep]

/-- A row of cuts is empty where its text is. -/
theorem cutsText_eq_nil {cs : List Cut} : cutsText cs = [] ↔ cs = [] := by
  cases cs with
  | nil => exact iff_of_true rfl rfl
  | cons c cs =>
      refine iff_of_false (fun h => ?_) (List.cons_ne_nil c cs)
      have htext : cutsText (c :: cs) = c.text ++ cutsText cs := rfl
      rw [htext, c.text_eq] at h
      exact List.cons_ne_nil _ _ h

/-- **What the reader makes of a row of cuts**: the stack runs out, or the one cut that
lacks nothing and stands alone is read, or the text is refused. -/
theorem loads_cutsText (depth : ℕ) (cs : List Cut) :
    loads depth (cutsText cs) =
      if tooDeep depth cs then .error .recursionError
      else (soleWhole cs).elim (.error .valueError) fun c => .ok c.row := by
  have ht := tail_cutsText cs
  have hbom : (cutsText cs).head? ≠ some 0xFEFF := by
    cases hcs : cutsText cs with
    | nil => simp
    | cons c t =>
        rw [hcs] at ht
        rw [List.head?_cons, ht.head]
        decide
  rw [loads, if_neg hbom, ht.skipSpace, scanOnce_cutsText cs depth _ (by omega)]
  cases cs with
  | nil => cases depth <;> rfl
  | cons c cs =>
      have hrest : skipSpace (cutsText cs) = [] ↔ cs = [] := by
        rw [(tail_cutsText cs).skipSpace, cutsText_eq_nil]
      cases hdeep : tooDeep depth (c :: cs) with
      | true => simp [scanCuts, hdeep]
      | false =>
          cases hwhole : c.whole with
          | false => cases cs <;> simp [scanCuts, hdeep, hwhole, soleWhole]
          | true => cases cs <;> simp [scanCuts, hdeep, hwhole, soleWhole, hrest]

/-! ### Stripped rows -/

/-- Stripping the end of a text stops inside a part that has something visible. -/
theorem rdropWhile_append {p : CodePoint → Bool} (a : Str) {b : Str} (hb : b.rdropWhile p ≠ []) :
    (a ++ b).rdropWhile p = a ++ b.rdropWhile p := by
  simp only [List.rdropWhile, ne_eq, List.reverse_eq_nil_iff] at hb ⊢
  rw [List.reverse_append, List.dropWhile_append, if_neg (by simpa using hb), List.reverse_append,
    List.reverse_reverse]

/-- A whole object ends with its brace. -/
theorem Cut.object_eq (c : Cut) : ∃ s, c.object = s ++ [0x7D] := by
  have hfields : ∀ (fs : List (Str × Str)) (p : Str × Str),
      ∃ s, dumpsFields ((p :: fs).map strField) = s ++ [0x7D] := fun fs => by
    induction fs with
    | nil => exact fun p => ⟨_, dumpsFields_single p⟩
    | cons q fs ih =>
        intro p
        obtain ⟨s, hs⟩ := ih q
        refine ⟨fieldText p ++ 0x2C :: 0x20 :: s, ?_⟩
        rw [dumpsFields_cons, hs, List.append_assoc, List.cons_append, List.cons_append]
  obtain ⟨s, hs⟩ := hfields c.others c.first
  exact ⟨0x7B :: s, by rw [Cut.object, Cut.fields, dumps, hs, List.cons_append]⟩

/-- The text of a cut without the whitespace at its end is the text of a cut of the same
object, whole where the first one is. -/
theorem Cut.exists_strip (c : Cut) : ∃ c' : Cut, c.text.rdropWhile isSpace = c'.text ∧
    c'.whole = c.whole ∧ c'.row = c.row := by
  have hpre := List.rdropWhile_prefix isSpace c.text
  have hpos : 0 < (c.text.rdropWhile isSpace).length := by
    rw [List.length_pos_iff, ne_eq, List.rdropWhile_eq_nil_iff, c.text_eq]
    exact fun h => absurd (h 0x7B List.mem_cons_self) (by decide)
  refine ⟨{ c with size := (c.text.rdropWhile isSpace).length, size_pos := hpos }, ?_, ?_, rfl⟩
  · have htake := List.prefix_iff_eq_take.mp (hpre.trans (List.take_prefix c.size c.object))
    exact htake
  · cases hwhole : c.whole with
    | true =>
        obtain ⟨s, hs⟩ := c.object_eq
        have htext : c.text = c.object := List.take_of_length_le (by simpa [Cut.whole] using hwhole)
        have hsame : c.text.rdropWhile isSpace = c.object := by
          rw [htext, hs, List.rdropWhile_concat_neg _ _ _ (by decide)]
        simp only [Cut.whole, hsame, decide_eq_true_eq]
        exact le_refl c.object.length
    | false =>
        have hlt : c.size < c.object.length := by simpa [Cut.whole] using hwhole
        have hle := hpre.length_le
        rw [Cut.text, List.length_take, Nat.min_eq_left hlt.le] at hle
        simp only [Cut.whole, decide_eq_false_iff_not, Nat.not_le]
        exact hle.trans_lt hlt

/-- How the last cut of a row breaks off does not use up the stack. -/
theorem tooDeep_concat (depth : ℕ) (cs : List Cut) (c c' : Cut) :
    tooDeep depth (cs ++ [c]) = tooDeep depth (cs ++ [c']) := by
  induction cs generalizing depth with
  | nil => cases depth <;> simp [tooDeep]
  | cons d cs ih =>
      cases depth with
      | zero => rfl
      | succ depth => simp only [List.cons_append, tooDeep, ih]

/-- A row of cuts starts with a brace. -/
theorem cutsText_eq_cons {cs : List Cut} (hcs : cs ≠ []) : ∃ s, cutsText cs = 0x7B :: s := by
  cases htext : cutsText cs with
  | nil => exact absurd (cutsText_eq_nil.mp htext) hcs
  | cons c s =>
      have ht := tail_cutsText cs
      rw [htext] at ht
      exact ⟨s, by rw [ht.head]⟩

/-- Stripping a row of cuts leaves something. -/
theorem strip_cutsText_ne_nil {cs : List Cut} (hcs : cs ≠ []) : strip (cutsText cs) ≠ [] := by
  obtain ⟨s, hs⟩ := cutsText_eq_cons hcs
  rw [hs]
  exact strip_ne_nil (by decide) s

/-- **Stripping a row of cuts** does not change what the reader makes of it. -/
theorem loads_strip_cutsText (depth : ℕ) (cs : List Cut) :
    loads depth (strip (cutsText cs)) = loads depth (cutsText cs) := by
  rcases List.eq_nil_or_concat' cs with rfl | ⟨cs, c, rfl⟩
  · rfl
  · obtain ⟨c', htext, hwhole, hrow⟩ := c.exists_strip
    have hconcat : ∀ d : Cut, cutsText (cs ++ [d]) = cutsText cs ++ d.text := fun d => by
      simp [cutsText]
    have hstrip : strip (cutsText (cs ++ [c])) = cutsText (cs ++ [c']) := by
      obtain ⟨s, hs⟩ := cutsText_eq_cons (show cs ++ [c] ≠ [] by simp)
      have hvisible : c.text.rdropWhile isSpace ≠ [] := by
        rw [htext, c'.text_eq]
        exact List.cons_ne_nil _ _
      rw [hs, strip_visible (by decide), ← hs, hconcat, hconcat, rdropWhile_append _ hvisible,
        htext]
    have hsole : (soleWhole (cs ++ [c'])).elim (Except.error LoadsError.valueError)
        (fun d => .ok d.row) = (soleWhole (cs ++ [c])).elim (.error .valueError)
        fun d => .ok d.row := by
      cases cs with
      | nil => cases h : c.whole <;> simp [soleWhole, hwhole, h, hrow]
      | cons d cs => cases cs <;> rfl
    rw [hstrip, loads_cutsText, loads_cutsText, tooDeep_concat depth cs c' c, hsole]

end Python
