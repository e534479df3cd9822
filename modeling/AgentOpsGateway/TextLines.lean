import AgentOpsGateway.PyStr
import Mathlib.Data.List.DropRight

/-!
# Reading a Text File Line by Line

`universalNewlines` is what opening a file as text does to its line ends; `splitlines` and
`strip` are the methods of `str`. All three know more separators than the newline that ends
a line, so a text comes back line by line only where its lines hold none of them (`Plain`).

## Main results

* `linesOf_append`, `linesOf_newline`: **plain text extends the current line, and a newline
  ends it**, so reading follows the writing of a plain text piece by piece.
* `strip_visible`: stripping a text that starts with something visible only shortens its end.
-/

namespace Python

/-! ### The methods -/

/-- The code points at which `str.splitlines` ends a line. -/
def isLineBreak (c : CodePoint) : Bool :=
  (0x0A ≤ c.val && c.val ≤ 0x0D) || (0x1C ≤ c.val && c.val ≤ 0x1E) || c.val == 0x85 ||
    c.val == 0x2028 || c.val == 0x2029

/-- `str.isspace` of a single code point. -/
def isSpace (c : CodePoint) : Bool :=
  (0x09 ≤ c.val && c.val ≤ 0x0D) || (0x1C ≤ c.val && c.val ≤ 0x20) || c.val == 0x85 ||
    c.val == 0xA0 || c.val == 0x1680 || (0x2000 ≤ c.val && c.val ≤ 0x200A) ||
    c.val == 0x2028 || c.val == 0x2029 || c.val == 0x202F || c.val == 0x205F || c.val == 0x3000

/-- `str.strip()`. -/
def strip (s : Str) : Str := (s.dropWhile isSpace).rdropWhile isSpace

/-- Reading in text mode, `afterCr` being set right behind a carriage return: every one of
`\r\n`, `\r` and `\n` becomes a newline. -/
def newlinesFrom (afterCr : Bool) : Str → Str
  | [] => []
  | c :: cs =>
    if c = 0x0D then 0x0A :: newlinesFrom true cs
    else if c = 0x0A ∧ afterCr then newlinesFrom false cs
    else c :: newlinesFrom false cs

/-- The text of a file opened with `newline=None`. -/
def universalNewlines (s : Str) : Str := newlinesFrom false s

/-- `str.splitlines()` from the middle of a line, of which `line` has been read; `afterCr` is
set right behind a carriage return, which makes one break with a newline. -/
def splitlinesFrom (afterCr : Bool) (line : Str) : Str → List Str
  | [] => if line = [] then [] else [line]
  | c :: cs =>
    if c = 0x0A ∧ afterCr then splitlinesFrom false [] cs
    else if isLineBreak c then line :: splitlinesFrom (c = 0x0D) [] cs
    else splitlinesFrom false (line ++ [c]) cs

/-- `s.splitlines()`. -/
def splitlines (s : Str) : List Str := splitlinesFrom false [] s

/-! ### Plain text -/

/-- The text holds no line break of any kind. -/
def Plain (s : Str) : Prop := ∀ c ∈ s, isLineBreak c = false

/-- The lines of a file from the middle of a line. -/
def linesOf (line s : Str) : List Str := splitlinesFrom false line (universalNewlines s)

/-- The lines of a file. -/
theorem splitlines_universalNewlines (s : Str) : splitlines (universalNewlines s) = linesOf [] s :=
  rfl

/-- At the end of the file an unfinished line is a line. -/
@[simp] theorem linesOf_nil (line : Str) : linesOf line [] = if line = [] then [] else [line] := rfl

/-- A newline ends the line. -/
@[simp] theorem linesOf_newline (line s : Str) :
    linesOf line (0x0A :: s) = line :: linesOf [] s := by
  have hbreak : isLineBreak 0x0A = true := by decide
  simp [linesOf, universalNewlines, newlinesFrom, splitlinesFrom, hbreak]

/-- **Plain text extends the line.** Induction on the text. -/
theorem linesOf_append {a : Str} (ha : Plain a) (line s : Str) :
    linesOf line (a ++ s) = linesOf (line ++ a) s := by
  induction a generalizing line with
  | nil => rw [List.nil_append, List.append_nil]
  | cons c a ih =>
      have hc : isLineBreak c = false := ha c List.mem_cons_self
      have hcr : c ≠ 0x0D := by
        rintro rfl
        exact absurd hc (by decide)
      have hlf : c ≠ 0x0A := by
        rintro rfl
        exact absurd hc (by decide)
      have hread : linesOf line (c :: (a ++ s)) = linesOf (line ++ [c]) (a ++ s) := by
        simp [linesOf, universalNewlines, newlinesFrom, splitlinesFrom, hcr, hlf, hc]
      rw [List.cons_append, hread, ih fun d hd => ha d (List.mem_cons_of_mem c hd),
        List.append_assoc, List.singleton_append]

/-! ### Texts with newlines -/

/-- The lines of a file from the middle of a line, `afterCr` being set right behind a carriage
return. -/
def linesAfter (afterCr : Bool) (line s : Str) : List Str :=
  splitlinesFrom false line (newlinesFrom afterCr s)

/-- The lines that are not empty. -/
def nonempty (lines : List Str) : List Str := lines.filter fun line => line ≠ []

theorem nonempty_cons (line : Str) (lines : List Str) :
    nonempty (line :: lines) = (if line = [] then [] else [line]) ++ nonempty lines := by
  by_cases h : line = [] <;> simp [nonempty, h]

/-- **A newline parts the lines** before it from those behind it, but for empty lines: a
carriage return in front of it or another line break does not count twice. Induction on the
text before it. -/
theorem nonempty_linesAfter_newline (afterCr : Bool) (line s t : Str)
    (hline : afterCr = true → line = []) :
    nonempty (linesAfter afterCr line (s ++ 0x0A :: t)) =
      nonempty (linesAfter afterCr line s) ++ nonempty (linesOf [] t) := by
  have hbreak : isLineBreak 0x0A = true := by decide
  have hcr : ((0x0A : CodePoint) = 0x0D) ↔ False := by decide
  induction s generalizing afterCr line with
  | nil =>
      cases afterCr with
      | true =>
          rw [hline rfl]
          simp [linesAfter, newlinesFrom, splitlinesFrom, linesOf, universalNewlines, nonempty, hcr]
      | false =>
          have hread : linesAfter false line (0x0A :: t) = line :: linesOf [] t :=
            linesOf_newline line t
          rw [List.nil_append, hread, nonempty_cons]
          by_cases h : line = [] <;>
            simp [linesAfter, newlinesFrom, splitlinesFrom, nonempty, h]
  | cons c s ih =>
      by_cases hc : c = 0x0D
      · have hread : ∀ u, linesAfter afterCr line (c :: u) = line :: linesAfter true [] u := by
          intro u
          simp [linesAfter, newlinesFrom, splitlinesFrom, hc, hbreak, hcr]
        rw [List.cons_append, hread, hread, nonempty_cons, nonempty_cons, ih true [] fun _ => rfl,
          List.append_assoc]
      · by_cases hswallowed : c = 0x0A ∧ afterCr = true
        · have hread : ∀ u, linesAfter afterCr line (c :: u) = linesAfter false line u := by
            intro u
            simp [linesAfter, newlinesFrom, hswallowed]
          rw [List.cons_append, hread, hread, ih false line (by simp)]
        · have hplain : ∀ u, newlinesFrom afterCr (c :: u) = c :: newlinesFrom false u := by
            intro u
            rw [newlinesFrom, if_neg hc, if_neg hswallowed]
          cases hb : isLineBreak c with
          | true =>
              have hread : ∀ u,
                  linesAfter afterCr line (c :: u) = line :: linesAfter false [] u := by
                intro u
                simp [linesAfter, hplain, splitlinesFrom, hb, hc]
              rw [List.cons_append, hread, hread, nonempty_cons, nonempty_cons,
                ih false [] (by simp), List.append_assoc]
          | false =>
              have hread : ∀ u, linesAfter afterCr line (c :: u) =
                  linesAfter false (line ++ [c]) u := by
                intro u
                simp [linesAfter, hplain, splitlinesFrom, hb]
              rw [List.cons_append, hread, hread, ih false _ (by simp)]

/-- **A file is read line by line**, but for empty lines. -/
theorem nonempty_splitlines_newline (s t : Str) :
    nonempty (splitlines (universalNewlines (s ++ 0x0A :: t))) =
      nonempty (splitlines (universalNewlines s)) ++
        nonempty (splitlines (universalNewlines t)) :=
  nonempty_linesAfter_newline false [] s t (by simp)

/-! ### Stripping -/

/-- Stripping a text that starts with something visible only shortens its end. -/
theorem strip_visible {c : CodePoint} (hc : isSpace c = false) (s : Str) :
    strip (c :: s) = (c :: s).rdropWhile isSpace := by
  rw [strip, List.dropWhile_cons_of_neg (by simp [hc])]

/-- A text that starts with something visible is not stripped to nothing. -/
theorem strip_ne_nil {c : CodePoint} (hc : isSpace c = false) (s : Str) : strip (c :: s) ≠ [] := by
  rw [strip_visible hc, ne_eq, List.rdropWhile_eq_nil_iff]
  exact fun h => absurd (h c List.mem_cons_self) (by simp [hc])

end Python
