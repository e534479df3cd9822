import Mathlib.Data.List.TakeWhile
import AgentOpsGateway.JsonScan

/-!
# JSON Values Read Back

Any value that `json.dumps` writes is read by `json.loads`, if the reader has a level of the
stack for each container around the innermost one: the numbers and constants come back as they
are, a string with its surrogate pairs joined, and a dictionary entry by entry, so that of two
keys that become the same by the joining the later one counts.

Text that ends too early is no JSON text: the beginning of an array or an object is a
`ValueError`, and never another value.

## Main results

* `loads_dumps`: **the round trip** of a value, and where it uses up the stack.
* `loads_take_dumps`: **the beginning of an array or an object is refused**.
* `readBack_eq_self`: what is read back is the value itself, where no string has a split
  surrogate pair and no dictionary a repeated key.
-/

namespace Python

/-! ### What is read back -/

mutual

/-- What is read of the text of a value. -/
def Json.readBack : Json → Json
  | .null => .null
  | .bool b => .bool b
  | .int n => .int n
  | .float literal => .float literal
  | .str s => .str (joinSurrogates s)
  | .arr items => .arr (readBackItems items)
  | .obj fields => .obj (readBackFields [] fields)

/-- The items of an array, each as it is read. -/
def readBackItems : List Json → List Json
  | [] => []
  | v :: items => v.readBack :: readBackItems items

/-- The fields of an object, each put into the dictionary as it is read. -/
def readBackFields (acc : List (Str × Json)) : List (Str × Json) → List (Str × Json)
  | [] => acc
  | (k, v) :: fields => readBackFields (dictSet (joinSurrogates k) v.readBack acc) fields

end

mutual

/-- How many containers stand inside each other. -/
def Json.depth : Json → ℕ
  | .null | .bool _ | .int _ | .float _ | .str _ => 0
  | .arr items => itemsDepth items + 1
  | .obj fields => fieldsDepth fields + 1

/-- The depth of the deepest item. -/
def itemsDepth : List Json → ℕ
  | [] => 0
  | v :: items => max v.depth (itemsDepth items)

/-- The depth of the deepest field. -/
def fieldsDepth : List (Str × Json) → ℕ
  | [] => 0
  | (_, v) :: fields => max v.depth (fieldsDepth fields)

end

mutual

/-- The value can be written: no integer has more digits than `str` prints, and the text that
stands for a float is read as that float. -/
def Json.Printed : Json → Prop
  | .null | .bool _ | .str _ => True
  | .int n => isPrinted n = true
  | .float literal => scanAtom literal = .ok (.float literal, [])
  | .arr items => itemsPrinted items
  | .obj fields => fieldsPrinted fields

/-- The same of the items of an array. -/
def itemsPrinted : List Json → Prop
  | [] => True
  | v :: items => v.Printed ∧ itemsPrinted items

/-- The same of the fields of an object. -/
def fieldsPrinted : List (Str × Json) → Prop
  | [] => True
  | (_, v) :: fields => v.Printed ∧ fieldsPrinted fields

end

/-! ### Integers -/

/-- A number other than zero is written without a leading zero. Induction on its digits. -/
theorem head_toDigits {n : ℕ} (hn : 0 < n) : (Nat.toDigits 10 n).head? ≠ some '0' := by
  induction n using Nat.strong_induction_on with
  | _ n ih =>
      by_cases hlt : n < 10
      · have hdigit : ∀ m < 10, 0 < m → [Nat.digitChar m].head? ≠ some '0' := by decide
        rw [Nat.toDigits_of_lt_base hlt]
        exact hdigit n hlt hn
      · rw [Nat.toDigits_of_base_le (by decide) (Nat.le_of_not_lt hlt),
          List.head?_append_of_ne_nil _ Nat.toDigits_ne_nil]
        exact ih (n / 10) (by omega) (by omega)

/-- A printed number that starts with a zero is zero. -/
theorem decimalNat_cons_zero {n : ℕ} {ds : Str} (h : decimalNat n = 0x30 :: ds) : ds = [] := by
  cases n with
  | zero =>
      have hzero : decimalNat 0 = [0x30] := by decide
      rw [hzero, List.cons.injEq] at h
      exact h.2.symm
  | succ n =>
      have hhead := head_toDigits (Nat.succ_pos n)
      rw [decimalNat] at h
      obtain ⟨c, cs, hcs, hc, -⟩ := List.map_eq_cons_iff.mp h
      rw [hcs, List.head?_cons] at hhead
      have hval : c.toNat = 0x30 := by
        rw [← val_ofChar, hc]
        rfl
      exact absurd (congrArg some (Char.toNat_inj.mp hval)) hhead

theorem decimalNat_ne_nil (n : ℕ) : decimalNat n ≠ [] := by
  rw [decimalNat, ne_eq, List.map_eq_nil_iff]
  exact Nat.toDigits_ne_nil

/-- The digits of a printed number are its integer digits. -/
theorem spanWhole_decimalNat (n : ℕ) : spanWhole (decimalNat n) = (decimalNat n, []) := by
  have hdigits := isDigit_decimalNat n
  cases hds : decimalNat n with
  | nil => rfl
  | cons c ds =>
      by_cases hc : c = 0x30
      · subst hc
        rw [decimalNat_cons_zero hds]
        rfl
      · rw [hds] at hdigits
        rw [spanWhole, if_neg hc, spanDigits, List.span_eq_takeWhile_dropWhile,
          List.takeWhile_eq_self_iff.mpr hdigits, List.dropWhile_eq_nil_iff.mpr hdigits]

/-- A printed integer is a number to the scanner. -/
theorem scanNumber_decimal {n : ℤ} (hn : isPrinted n = true) :
    scanNumber (decimal n) = .ok (.int n, []) := by
  have hend : scanFraction [] = ([], []) ∧ scanExponent [] = ([], []) := ⟨rfl, rfl⟩
  rw [isPrinted, decide_eq_true_eq] at hn
  cases n with
  | ofNat n =>
      have hsign : spanSign (decimalNat n) = ([], decimalNat n) := by
        cases hds : decimalNat n with
        | nil => rfl
        | cons c ds =>
            have hc : c ≠ 0x2D := by
              rintro rfl
              have := isDigit_decimalNat n 0x2D (by simp [hds])
              revert this
              decide
            rw [spanSign, if_neg hc]
      have hlen : ¬maxIntDigits < (decimalNat n).length := Nat.not_lt.mpr hn
      rw [decimal, scanNumber_eq, hsign]
      simp [spanWhole_decimalNat, hend.1, hend.2, numberOf, decimalNat_ne_nil, hlen,
        ofDigits_decimalNat, Except.map]
  | negSucc n =>
      have hsign : spanSign (ofChar '-' :: decimalNat (n + 1)) = ([0x2D], decimalNat (n + 1)) := rfl
      have hlen : ¬maxIntDigits < (decimalNat (n + 1)).length := Nat.not_lt.mpr hn
      rw [decimal, scanNumber_eq, hsign]
      simp [spanWhole_decimalNat, hend.1, hend.2, numberOf, decimalNat_ne_nil, hlen,
        ofDigits_decimalNat, Except.map, Int.negSucc_eq]

/-! ### The start of a text -/

/-- A character that can start a value: no whitespace, no closing bracket, no mark of the
byte order. -/
def opensValue (c : CodePoint) : Bool := !isJsonSpace c && c != 0x5D && c != 0xFEFF

/-- A character that can start a constant or a number. -/
def opensAtom (c : CodePoint) : Bool := opensValue c && c != 0x22 && c != 0x7B && c != 0x5B

theorem opensValue_of_opensAtom {c : CodePoint} (hc : opensAtom c = true) :
    opensValue c = true := by
  simp only [opensAtom, Bool.and_eq_true] at hc
  exact hc.1.1.1

/-- A digit or a sign can start a number. -/
theorem opensAtom_of_digit {c : CodePoint} (hc : isDigit c = true ∨ c = 0x2D) :
    opensAtom c = true := by
  rcases hc with hc | rfl
  · simp only [isDigit, Bool.and_eq_true, decide_eq_true_eq] at hc
    have hne : ∀ d : CodePoint, d.val < 0x30 ∨ 0x39 < d.val → c ≠ d := by
      rintro d hd rfl
      omega
    have hspace : isJsonSpace c = false := by
      rw [isJsonSpace, decide_eq_false_iff_not]
      rintro (h | h | h | h) <;> exact hne _ (by decide) h
    simp [opensAtom, opensValue, hspace, hne 0x5D (by decide), hne 0xFEFF (by decide),
      hne 0x22 (by decide), hne 0x7B (by decide), hne 0x5B (by decide)]
  · decide

/-- A text that starts as a number does starts an atom. -/
theorem opensAtom_of_numberLike {s : Str} (h : numberLike s = true) :
    ∃ c u, s = c :: u ∧ opensAtom c = true := by
  match s, h with
  | [c], h => exact ⟨c, [], rfl, opensAtom_of_digit (Or.inl h)⟩
  | c :: d :: u, h =>
      refine ⟨c, d :: u, rfl, opensAtom_of_digit ?_⟩
      simp only [numberLike, Bool.or_eq_true, Bool.and_eq_true, decide_eq_true_eq] at h
      exact h.imp id And.left

/-- What is scanned as a constant or a number starts as one. -/
theorem opensAtom_of_scanAtom {s rest : Str} {v : Json} (h : scanAtom s = .ok (v, rest)) :
    ∃ c u, s = c :: u ∧ opensAtom c = true := by
  rw [scanAtom] at h
  cases hfind : constants.find? fun p => p.1.isPrefixOf s with
  | some p =>
      have hpre : p.1 <+: s := List.isPrefixOf_iff_prefix.mp
        (List.find?_some (p := fun q : Str × Json => q.1.isPrefixOf s) hfind)
      have hnames : constants.all (fun q => q.1.head?.any opensAtom) = true := by decide
      have hname := List.all_eq_true.mp hnames p (List.mem_of_find?_eq_some hfind)
      obtain ⟨c, hc, hopen⟩ := (Option.any_eq_true _ _).mp hname
      obtain ⟨u, hu⟩ := List.head?_eq_some_iff.mp hc
      obtain ⟨t, rfl⟩ := hpre
      exact ⟨c, u ++ t, by rw [hu, List.cons_append], hopen⟩
  | none =>
      rw [hfind] at h
      exact opensAtom_of_numberLike (numberLike_of_scanNumber h)

/-- The text of a value that shows no end is a constant or a number to the scanner. -/
theorem scanAtom_dumps {v : Json} (hv : v.Printed) (hatom : ¬v.Delimited) :
    scanAtom (dumps v) = .ok (v, []) ∧ v.readBack = v ∧ v.depth = 0 := by
  match v, hv with
  | .null, _ | .bool true, _ | .bool false, _ => exact ⟨rfl, rfl, rfl⟩
  | .int n, hv =>
      have hnumber := scanNumber_decimal hv
      have hnone := not_constant_of_numberLike (t := []) (numberLike_of_scanNumber hnumber)
      rw [List.append_nil] at hnone
      refine ⟨?_, rfl, rfl⟩
      rw [dumps, scanAtom, List.find?_eq_none.mpr hnone]
      exact hnumber
  | .float _, hv => exact ⟨hv, rfl, rfl⟩
  | .str _, _ | .arr _, _ | .obj _, _ => exact absurd trivial hatom

/-- A value is written with a character in front that can start a value. -/
theorem opensValue_dumps {v : Json} (hv : v.Printed) :
    ∃ c u, dumps v = c :: u ∧ opensValue c = true := by
  by_cases hdelimited : v.Delimited
  · match v, hdelimited with
    | .str _, _ | .arr _, _ | .obj _, _ => exact ⟨_, _, rfl, by decide⟩
  · obtain ⟨c, u, hc, hopen⟩ := opensAtom_of_scanAtom (scanAtom_dumps hv hdelimited).1
    exact ⟨c, u, hc, opensValue_of_opensAtom hopen⟩

/-- The items of an array start as the first of them does. -/
theorem opensValue_dumpsItems {items : List Json} (hitems : itemsPrinted items) (hne : items ≠ []) :
    ∃ c u, dumpsItems items = c :: u ∧ opensValue c = true := by
  match items, hitems, hne with
  | [v], hv, _ =>
      obtain ⟨c, u, hc, hopen⟩ := opensValue_dumps hv.1
      exact ⟨c, u ++ [0x5D], by rw [dumpsItems, hc, List.cons_append], hopen⟩
  | v :: w :: items, hv, _ =>
      obtain ⟨c, u, hc, hopen⟩ := opensValue_dumps hv.1
      exact ⟨c, u ++ lit ", " ++ dumpsItems (w :: items),
        by rw [dumpsItems, hc, List.cons_append, List.cons_append], hopen⟩

/-- The fields of an object start with the quote of the first key. -/
theorem dumpsFields_eq_cons {fields : List (Str × Json)} (hne : fields ≠ []) :
    ∃ u, dumpsFields fields = 0x22 :: u := by
  match fields, hne with
  | [(k, v)], _ => exact ⟨_, by rw [dumpsFields, List.cons_append, List.cons_append,
      List.cons_append]⟩
  | (k, v) :: f :: fields, _ => exact ⟨_, by rw [dumpsFields, List.cons_append, List.cons_append,
      List.cons_append, List.cons_append]⟩

/-! ### The round trip -/

theorem behindValue_close {close : CodePoint} (hclose : isJsonSpace close = false)
    (done : Json → Json) (more : Json → Str → Except LoadsError (Json × Str)) (v : Json) (s : Str) :
    behindValue close done more (.ok (v, close :: s)) = .ok (done v, s) := by
  rw [behindValue, skipSpace_cons hclose]
  simp only [if_true]

theorem behindValue_comma {close : CodePoint} (hclose : close ≠ 0x2C) (done : Json → Json)
    (more : Json → Str → Except LoadsError (Json × Str)) (v : Json) {c : CodePoint}
    (hc : isJsonSpace c = false) (s : Str) :
    behindValue close done more (.ok (v, lit ", " ++ c :: s)) = more v (c :: s) := by
  have hcomma : lit ", " = [0x2C, 0x20] := by decide
  rw [behindValue, hcomma, List.cons_append, skipSpace_cons (by decide)]
  simp only [if_neg hclose.symm, if_true]
  rw [List.cons_append, List.nil_append, skipSpace_space, skipSpace_cons hc]

/-- A constant or a number in front of a stop. -/
theorem scanOnce_atom {v : Json} (hv : v.Printed) (hatom : ¬v.Delimited) {rest : Str}
    (hrest : Stops rest) (fuel depth : ℕ) :
    scanOnce (fuel + 1) depth (dumps v ++ rest) = .ok (v, rest) := by
  obtain ⟨hscan, -, -⟩ := scanAtom_dumps hv hatom
  obtain ⟨c, u, hc, hopen⟩ := opensAtom_of_scanAtom hscan
  simp only [opensAtom, Bool.and_eq_true, bne_iff_ne] at hopen
  have happend := scanAtom_append (t := rest) hscan hrest
  rw [hc, List.cons_append] at happend ⊢
  rw [scanOnce_cons, if_neg hopen.1.1.2, if_neg hopen.1.2, if_neg hopen.2]
  exact happend

theorem scanOnce_dumps_atom {v : Json} (hv : v.Printed) (hatom : ¬v.Delimited) {fuel depth : ℕ}
    {rest : Str} (hfuel : 2 * (dumps v).length ≤ fuel) (hrest : v.Delimited ∨ Stops rest) :
    scanOnce fuel depth (dumps v ++ rest) =
      if v.depth ≤ depth then .ok (v.readBack, rest) else .error .recursionError := by
  obtain ⟨c, u, hc, -⟩ := opensValue_dumps hv
  obtain ⟨-, hback, hdepth⟩ := scanAtom_dumps hv hatom
  obtain ⟨fuel, rfl⟩ : ∃ k, fuel = k + 1 := ⟨fuel - 1, by rw [hc, List.length_cons] at hfuel; omega⟩
  rw [scanOnce_atom hv hatom (hrest.resolve_left hatom), hback, hdepth, if_pos (Nat.zero_le depth)]

/-- A container with something in it takes one level more than what is in it. -/
theorem behindOpening_scanned {close c : CodePoint} (hc : isJsonSpace c = false) (hne : c ≠ close)
    (empty : Json) {more : ℕ → Str → Except LoadsError (Json × Str)} {s : Str} {deep : ℕ}
    {result : Json × Str}
    (hmore : ∀ depth, more depth (c :: s) =
      if deep ≤ depth then .ok result else .error .recursionError) (depth : ℕ) :
    behindOpening close empty more (c :: s) depth =
      if deep + 1 ≤ depth then .ok result else .error .recursionError := by
  cases depth with
  | zero => rfl
  | succ depth =>
      rw [behindOpening, skipSpace_cons hc]
      simp only [if_neg hne, hmore, Nat.succ_le_succ_iff]

/-- A container with nothing in it takes one level. -/
theorem behindOpening_close {close : CodePoint} (hclose : isJsonSpace close = false) (empty : Json)
    (more : ℕ → Str → Except LoadsError (Json × Str)) (s : Str) (depth : ℕ) :
    behindOpening close empty more (close :: s) depth =
      if 1 ≤ depth then .ok (empty, s) else .error .recursionError := by
  cases depth with
  | zero => rfl
  | succ depth =>
      rw [behindOpening, skipSpace_cons hclose]
      simp

/-- A field up to its value. -/
theorem scanFields_value (fuel depth : ℕ) (acc : List (Str × Json)) (k : Str) {c : CodePoint}
    (hc : isJsonSpace c = false) (s : Str) :
    scanFields (fuel + 1) depth acc (0x22 :: (encodeString k ++ (lit ": " ++ c :: s))) =
      behindValue 0x7D (fun v => .obj (dictSet (joinSurrogates k) v acc))
        (fun v => scanFields fuel depth (dictSet (joinSurrogates k) v acc))
        (scanOnce fuel depth (c :: s)) := by
  have hcolon : lit ": " = [0x3A, 0x20] := by decide
  rw [hcolon, List.cons_append, scanFields_eq fuel depth acc (scanString_encodeString none k _)
    (skipSpace_cons (by decide) _), List.cons_append, List.nil_append, skipSpace_space,
    skipSpace_cons hc]
  rfl

mutual

/-- **What is scanned of the text of a value**, whatever follows it. Induction on the value;
each level of it takes two units of fuel for two characters at least. -/
theorem scanOnce_dumps : (v : Json) → v.Printed → ∀ (fuel depth : ℕ) (rest : Str),
    2 * (dumps v).length ≤ fuel → (v.Delimited ∨ Stops rest) →
    scanOnce fuel depth (dumps v ++ rest) =
      if v.depth ≤ depth then .ok (v.readBack, rest) else .error .recursionError
  | .null, hv, _, _, _, hfuel, hrest => scanOnce_dumps_atom hv not_false hfuel hrest
  | .bool _, hv, _, _, _, hfuel, hrest => scanOnce_dumps_atom hv not_false hfuel hrest
  | .int _, hv, _, _, _, hfuel, hrest => scanOnce_dumps_atom hv not_false hfuel hrest
  | .float _, hv, _, _, _, hfuel, hrest => scanOnce_dumps_atom hv not_false hfuel hrest
  | .str s, _, fuel, depth, rest, hfuel, _ => by
      obtain ⟨fuel, rfl⟩ : ∃ k, fuel = k + 1 := ⟨fuel - 1, by simp [dumps] at hfuel; omega⟩
      simp [dumps, Json.depth, Json.readBack, scanOnce_str]
  | .arr items, hv, fuel, depth, rest, hfuel, _ => by
      rw [dumps, List.length_cons] at hfuel
      obtain ⟨fuel, rfl⟩ : ∃ k, fuel = k + 1 := ⟨fuel - 1, by omega⟩
      rw [dumps, List.cons_append, scanOnce_cons, if_neg (by decide), if_neg (by decide),
        if_pos rfl, Json.depth, Json.readBack]
      by_cases hempty : items = []
      · rw [hempty]
        exact behindOpening_close (by decide) _ _ rest depth
      · obtain ⟨c, u, hc, hopen⟩ := opensValue_dumpsItems hv hempty
        have hitems : ∀ depth, scanItems fuel depth [] (dumpsItems items ++ rest) = _ :=
          fun depth => scanItems_dumpsItems items hv hempty fuel depth [] rest (by omega)
        rw [hc, List.cons_append] at hitems ⊢
        simp only [opensValue, Bool.and_eq_true, Bool.not_eq_true', bne_iff_ne] at hopen
        exact behindOpening_scanned hopen.1.1 hopen.1.2 _ hitems depth
  | .obj fields, hv, fuel, depth, rest, hfuel, _ => by
      rw [dumps, List.length_cons] at hfuel
      obtain ⟨fuel, rfl⟩ : ∃ k, fuel = k + 1 := ⟨fuel - 1, by omega⟩
      rw [dumps, List.cons_append, scanOnce_cons, if_neg (by decide), if_pos rfl, Json.depth,
        Json.readBack]
      by_cases hempty : fields = []
      · rw [hempty]
        exact behindOpening_close (by decide) _ _ rest depth
      · obtain ⟨u, hu⟩ := dumpsFields_eq_cons hempty
        have hfields : ∀ depth, scanFields fuel depth [] (dumpsFields fields ++ rest) = _ :=
          fun depth => scanFields_dumps fields hv hempty fuel depth [] rest (by omega)
        rw [hu, List.cons_append] at hfields ⊢
        exact behindOpening_scanned (by decide) (by decide) _ hfields depth

/-- The items of an array. -/
theorem scanItems_dumpsItems : (items : List Json) → itemsPrinted items → items ≠ [] →
    ∀ (fuel depth : ℕ) (acc : List Json) (rest : Str), 2 * (dumpsItems items).length < fuel →
    scanItems fuel depth acc (dumpsItems items ++ rest) =
      if itemsDepth items ≤ depth then .ok (.arr (acc ++ readBackItems items), rest)
      else .error .recursionError
  | [], _, hne, _, _, _, _, _ => absurd rfl hne
  | [v], hv, _, fuel, depth, acc, rest, hfuel => by
      obtain ⟨fuel, rfl⟩ : ∃ k, fuel = k + 1 := ⟨fuel - 1, by omega⟩
      rw [dumpsItems, List.length_append] at hfuel
      have hvalue := scanOnce_dumps v hv.1 fuel depth (0x5D :: rest)
        (by omega) (Or.inr (stops_cons.mpr (by decide)))
      rw [dumpsItems, List.append_assoc, List.singleton_append, scanItems_eq, hvalue, itemsDepth,
        itemsDepth, Nat.max_zero]
      split
      · exact behindValue_close (by decide) _ _ _ rest
      · rfl
  | v :: w :: items, hv, _, fuel, depth, acc, rest, hfuel => by
      obtain ⟨fuel, rfl⟩ : ∃ k, fuel = k + 1 := ⟨fuel - 1, by omega⟩
      have hcomma : (lit ", ").length = 2 := by decide
      rw [dumpsItems, List.length_append, List.length_append, hcomma] at hfuel
      obtain ⟨c, u, hc, hopen⟩ := opensValue_dumpsItems hv.2 (List.cons_ne_nil w items)
      simp only [opensValue, Bool.and_eq_true, Bool.not_eq_true'] at hopen
      have hvalue := scanOnce_dumps v hv.1 fuel depth
        (lit ", " ++ (dumpsItems (w :: items) ++ rest)) (by omega)
        (Or.inr (stops_cons.mpr (by decide)))
      have hrest := scanItems_dumpsItems (w :: items) hv.2 (List.cons_ne_nil w items)
        fuel depth (acc ++ [v.readBack]) rest (by omega)
      rw [hc, List.cons_append] at hrest hvalue
      rw [dumpsItems, List.append_assoc, List.append_assoc, hc, List.cons_append, scanItems_eq,
        hvalue, itemsDepth]
      simp only [Nat.max_le]
      by_cases hdepth : v.depth ≤ depth
      · rw [if_pos hdepth, behindValue_comma (by decide) _ _ _ hopen.1.1, hrest]
        simp only [hdepth, true_and, readBackItems, List.append_assoc, List.singleton_append]
      · rw [if_neg hdepth, if_neg fun h => hdepth h.1]
        rfl

/-- The fields of an object. -/
theorem scanFields_dumps : (fields : List (Str × Json)) → fieldsPrinted fields → fields ≠ [] →
    ∀ (fuel depth : ℕ) (acc : List (Str × Json)) (rest : Str),
    2 * (dumpsFields fields).length < fuel →
    scanFields fuel depth acc (dumpsFields fields ++ rest) =
      if fieldsDepth fields ≤ depth then .ok (.obj (readBackFields acc fields), rest)
      else .error .recursionError
  | [], _, hne, _, _, _, _, _ => absurd rfl hne
  | [(k, v)], hv, _, fuel, depth, acc, rest, hfuel => by
      obtain ⟨fuel, rfl⟩ : ∃ k, fuel = k + 1 := ⟨fuel - 1, by omega⟩
      rw [dumpsFields, List.length_append, List.length_append] at hfuel
      obtain ⟨c, u, hc, hopen⟩ := opensValue_dumps hv.1
      simp only [opensValue, Bool.and_eq_true, Bool.not_eq_true'] at hopen
      have hvalue := scanOnce_dumps v hv.1 fuel depth (0x7D :: rest)
        (by omega) (Or.inr (stops_cons.mpr (by decide)))
      have htext : dumpsFields [(k, v)] ++ rest =
          0x22 :: (encodeString k ++ (lit ": " ++ (dumps v ++ 0x7D :: rest))) := by
        simp [dumpsFields]
      rw [htext, hc, List.cons_append, scanFields_value fuel depth acc k hopen.1.1,
        ← List.cons_append, ← hc, hvalue, fieldsDepth, fieldsDepth, Nat.max_zero]
      split
      · exact behindValue_close (by decide) _ _ _ rest
      · rfl
  | (k, v) :: f :: fields, hv, _, fuel, depth, acc, rest, hfuel => by
      obtain ⟨fuel, rfl⟩ : ∃ k, fuel = k + 1 := ⟨fuel - 1, by omega⟩
      have hcomma : (lit ", ").length = 2 := by decide
      rw [dumpsFields, List.length_append, List.length_append, List.length_append, hcomma] at hfuel
      obtain ⟨c, u, hc, hopen⟩ := opensValue_dumps hv.1
      obtain ⟨u', hu'⟩ := dumpsFields_eq_cons (List.cons_ne_nil f fields)
      simp only [opensValue, Bool.and_eq_true, Bool.not_eq_true'] at hopen
      have hvalue := scanOnce_dumps v hv.1 fuel depth
        (lit ", " ++ (dumpsFields (f :: fields) ++ rest)) (by omega)
        (Or.inr (stops_cons.mpr (by decide)))
      have hrest := scanFields_dumps (f :: fields) hv.2 (List.cons_ne_nil f fields)
        fuel depth (dictSet (joinSurrogates k) v.readBack acc) rest (by omega)
      have htext : dumpsFields ((k, v) :: f :: fields) ++ rest = 0x22 :: (encodeString k ++
          (lit ": " ++ (dumps v ++ (lit ", " ++ (dumpsFields (f :: fields) ++ rest))))) := by
        simp [dumpsFields]
      rw [hu', List.cons_append] at hrest hvalue
      rw [htext, hu', List.cons_append, hc, List.cons_append,
        scanFields_value fuel depth acc k hopen.1.1, ← List.cons_append, ← hc, hvalue, fieldsDepth]
      simp only [Nat.max_le]
      by_cases hdepth : v.depth ≤ depth
      · rw [if_pos hdepth, behindValue_comma (by decide) _ _ _ (by decide), hrest]
        simp only [hdepth, true_and, readBackFields]
      · rw [if_neg hdepth, if_neg fun h => hdepth h.1]
        rfl

end

/-- **The round trip**: what is written is read back, where the reader has a level of the
stack for each container around the innermost one. -/
theorem loads_dumps {v : Json} (hv : v.Printed) (depth : ℕ) :
    loads depth (dumps v) =
      if v.depth ≤ depth then .ok v.readBack else .error .recursionError := by
  obtain ⟨c, u, hc, hopen⟩ := opensValue_dumps hv
  simp only [opensValue, Bool.and_eq_true, Bool.not_eq_true', bne_iff_ne] at hopen
  have hstart : (dumps v).head? ≠ some 0xFEFF := by
    rw [hc, List.head?_cons]
    exact fun h => hopen.2 (Option.some.inj h)
  have hskip : skipSpace (dumps v) = dumps v := by rw [hc, skipSpace_cons hopen.1.1]
  have hscan := scanOnce_dumps v hv (2 * (dumps v).length + 2) depth [] (by omega)
    (Or.inr stops_nil)
  rw [List.append_nil] at hscan
  rw [loads, if_neg hstart, hskip, hscan]
  by_cases hdepth : v.depth ≤ depth
  · rw [if_pos hdepth, if_pos hdepth]
    rfl
  · rw [if_neg hdepth, if_neg hdepth]

/-! ### Texts that end too early -/

/-- The value is written between brackets. -/
def Json.Container : Json → Prop
  | .arr _ | .obj _ => True
  | .null | .bool _ | .int _ | .float _ | .str _ => False

/-- **The beginning of an array or an object is refused**, as a `ValueError` where the reader
has the stack for the whole. -/
theorem loads_take_dumps {v : Json} (hv : v.Printed) (hcontainer : v.Container) {n : ℕ}
    (hn : n < (dumps v).length) (depth : ℕ) :
    loads depth ((dumps v).take n) = .error .valueError ∨
      depth < v.depth ∧ loads depth ((dumps v).take n) = .error .recursionError := by
  obtain ⟨c, u, hc, hbracket⟩ : ∃ c u, dumps v = c :: u ∧ (c = 0x7B ∨ c = 0x5B) := by
    match v, hcontainer with
    | .arr _, _ => exact ⟨_, _, rfl, Or.inr rfl⟩
    | .obj _, _ => exact ⟨_, _, rfl, Or.inl rfl⟩
  cases n with
  | zero => exact Or.inl rfl
  | succ n =>
      have hopen : isJsonSpace c = false ∧ c ≠ 0xFEFF := by
        rcases hbracket with rfl | rfl <;> decide
      have htake : (dumps v).take (n + 1) = c :: u.take n := by rw [hc, List.take_succ_cons]
      have hstart : ((dumps v).take (n + 1)).head? ≠ some 0xFEFF := by
        rw [htake, List.head?_cons]
        exact fun h => hopen.2 (Option.some.inj h)
      have hskip : skipSpace ((dumps v).take (n + 1)) = (dumps v).take (n + 1) := by
        rw [htake, skipSpace_cons hopen.1]
      -- the scan of the beginning, against that of the whole text
      have hwhole := scanOnce_dumps v hv (2 * (dumps v).length + 2) depth [] (by omega)
        (Or.inr stops_nil)
      have hfuel : 2 * ((dumps v).take (n + 1)).length + 2 ≤ 2 * (dumps v).length + 2 := by
        rw [List.length_take]
        omega
      have hextends :=
        scanOnce_append ((dumps v).drop (n + 1)) hfuel depth ((dumps v).take (n + 1))
      rw [List.append_nil] at hwhole
      rw [List.take_append_drop, hwhole] at hextends
      rw [loads, if_neg hstart, hskip]
      cases hscan : scanOnce (2 * ((dumps v).take (n + 1)).length + 2) depth
          ((dumps v).take (n + 1)) with
      | error e =>
          cases e with
          | valueError => exact Or.inl rfl
          | recursionError =>
              have hstack := hextends.stack hscan
              refine Or.inr ⟨Nat.lt_of_not_le fun hdepth => ?_, rfl⟩
              rw [if_pos hdepth] at hstack
              simp at hstack
      | ok p =>
          obtain ⟨w, rest⟩ := p
          have hdelimited : w.Delimited := delimited_of_bracket hbracket (htake ▸ hscan)
          have hvalue := hextends.value hscan (Or.inl hdelimited)
          split at hvalue
          · simp only [Except.ok.injEq, Prod.mk.injEq, List.nil_eq, List.append_eq_nil_iff,
              List.drop_eq_nil_iff] at hvalue
            omega
          · simp at hvalue

/-! ### Values that come back unchanged -/

mutual

/-- Nothing in the value changes on its way: no string in it has a split surrogate pair, and
no dictionary two entries under one key. -/
def Json.Joined : Json → Prop
  | .null | .bool _ | .int _ | .float _ => True
  | .str s => hasSplitPair s = false
  | .arr items => itemsJoined items
  | .obj fields => (fields.map Prod.fst).Nodup ∧ fieldsJoined fields

/-- The same of the items of an array. -/
def itemsJoined : List Json → Prop
  | [] => True
  | v :: items => v.Joined ∧ itemsJoined items

/-- The same of the keys and the values of an object. -/
def fieldsJoined : List (Str × Json) → Prop
  | [] => True
  | (k, v) :: fields => hasSplitPair k = false ∧ v.Joined ∧ fieldsJoined fields

end

/-- A new key is put behind the others. -/
theorem dictSet_of_not_mem {α : Type*} {k : Str} {d : List (Str × α)} (hk : k ∉ d.map Prod.fst)
    (v : α) : dictSet k v d = d ++ [(k, v)] := by
  induction d with
  | nil => rfl
  | cons p d ih =>
      obtain ⟨k', v'⟩ := p
      rw [List.map_cons, List.mem_cons, not_or] at hk
      rw [dictSet, if_neg (Ne.symm hk.1), ih hk.2, List.cons_append]

mutual

/-- **What is read back is the value itself.** Induction on the value. -/
theorem readBack_eq_self : (v : Json) → v.Joined → v.readBack = v
  | .null, _ | .bool _, _ | .int _, _ | .float _, _ => rfl
  | .str _, h => congrArg Json.str (joinSurrogates_eq_self_iff.mpr h)
  | .arr items, h => congrArg Json.arr (readBackItems_eq_self items h)
  | .obj fields, h => congrArg Json.obj (readBackFields_eq_append fields h.2 [] h.1)

theorem readBackItems_eq_self : (items : List Json) → itemsJoined items →
    readBackItems items = items
  | [], _ => rfl
  | v :: items, h => by
      rw [readBackItems, readBack_eq_self v h.1, readBackItems_eq_self items h.2]

theorem readBackFields_eq_append : (fields : List (Str × Json)) → fieldsJoined fields →
    ∀ (acc : List (Str × Json)), ((acc ++ fields).map Prod.fst).Nodup →
    readBackFields acc fields = acc ++ fields
  | [], _, acc, _ => by rw [readBackFields, List.append_nil]
  | (k, v) :: fields, h, acc, hkeys => by
      have hfresh : k ∉ acc.map Prod.fst := by
        rw [List.map_append, List.nodup_append] at hkeys
        exact fun hk => hkeys.2.2 k hk k (by simp) rfl
      have happend : acc ++ (k, v) :: fields = (acc ++ [(k, v)]) ++ fields := by simp
      rw [readBackFields, joinSurrogates_eq_self_iff.mpr h.1, readBack_eq_self v h.2.1,
        dictSet_of_not_mem hfresh, happend]
      exact readBackFields_eq_append fields h.2.2 _ (happend ▸ hkeys)

end

end Python
