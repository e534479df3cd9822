import Mathlib.Data.List.Forall2
import Mathlib.Data.List.Infix

/-!
# Patterns with Wildcards

A pattern is a list of tokens: a letter, which stands for the letters that are the same as
it, a wildcard for any one letter, and a wildcard for any letters at all. A pattern with
wildcards around the letters of a word asks for texts that contain the word; letters that
are read as wildcards ask for more.

## Main results

* `accepts_contains_iff`: **wildcards around letters are containment**.
* `accepts_of_contains`: wildcards for some of the letters lose no text that contains them.
* `accepts_fill`: the text a pattern accepts in which no letter is left for a wildcard.
-/

namespace Wildcard

variable {α : Type*}

/-- A token of a pattern. -/
inductive Token (α : Type*)
  /-- Any letters, or none. -/
  | any
  /-- Any one letter. -/
  | one
  | letter (c : α)
  deriving DecidableEq

/-- The pattern accepts the text. -/
def accepts (same : α → α → Bool) : List (Token α) → List α → Bool
  | [], s => s.isEmpty
  | .any :: p, s => s.tails.any fun t => accepts same p t
  | .one :: _, [] => false
  | .one :: p, _ :: s => accepts same p s
  | .letter _ :: _, [] => false
  | .letter c :: p, x :: s => same c x && accepts same p s

/-- The token stands for the letter, among others. -/
def Token.Covers (same : α → α → Bool) (x : α) : Token α → Prop
  | .any | .one => True
  | .letter c => same c x = true

/-- The text has the word, up to letters that are the same. -/
def Contains (same : α → α → Bool) (word text : List α) : Prop :=
  ∃ before found after, text = before ++ (found ++ after) ∧
    List.Forall₂ (fun c x => same c x = true) word found

variable {same : α → α → Bool}

/-- Any letters, and then the rest. -/
theorem accepts_any_cons {p : List (Token α)} {s : List α} :
    accepts same (.any :: p) s = true ↔ ∃ t u, s = t ++ u ∧ accepts same p u = true := by
  simp only [accepts, List.any_eq_true, List.mem_tails]
  constructor
  · rintro ⟨u, ⟨t, rfl⟩, hu⟩
    exact ⟨t, u, rfl, hu⟩
  · rintro ⟨t, u, rfl, hu⟩
    exact ⟨u, List.suffix_append t u, hu⟩

/-- A wildcard for any letters accepts every text. -/
@[simp] theorem accepts_any (s : List α) : accepts same [.any] s = true :=
  accepts_any_cons.mpr ⟨s, [], (List.append_nil s).symm, rfl⟩

/-- Letters, and then the rest. -/
theorem accepts_letters_append {word : List α} {p : List (Token α)} {s : List α} :
    accepts same (word.map .letter ++ p) s = true ↔
      ∃ found u, s = found ++ u ∧ List.Forall₂ (fun c x => same c x = true) word found ∧
        accepts same p u = true := by
  induction word generalizing s with
  | nil =>
      constructor
      · intro h
        exact ⟨[], s, rfl, .nil, h⟩
      · rintro ⟨found, u, rfl, hfound, hu⟩
        cases hfound
        exact hu
  | cons c word ih =>
      constructor
      · intro h
        cases s with
        | nil => simp [accepts] at h
        | cons x s =>
            simp only [List.map_cons, List.cons_append, accepts, Bool.and_eq_true] at h
            obtain ⟨found, u, rfl, hfound, hu⟩ := ih.mp h.2
            exact ⟨x :: found, u, rfl, .cons h.1 hfound, hu⟩
      · rintro ⟨found, u, rfl, hfound, hu⟩
        cases hfound with
        | cons hc hfound =>
            simp only [List.map_cons, List.cons_append, accepts, Bool.and_eq_true]
            exact ⟨hc, ih.mpr ⟨_, u, rfl, hfound, hu⟩⟩

/-- **Wildcards around letters are containment.** -/
theorem accepts_contains_iff {word text : List α} :
    accepts same (.any :: (word.map .letter ++ [.any])) text = true ↔
      Contains same word text := by
  simp only [accepts_any_cons, accepts_letters_append, accepts_any, and_true]
  constructor
  · rintro ⟨before, rest, rfl, found, after, rfl, hfound⟩
    exact ⟨before, found, after, rfl, hfound⟩
  · rintro ⟨before, found, after, rfl, hfound⟩
    exact ⟨before, found ++ after, rfl, found, after, rfl, hfound⟩

/-- A text whose letters the tokens cover one by one, and then the rest. -/
theorem accepts_append_of_covers {tokens p : List (Token α)} {found u : List α}
    (h : List.Forall₂ (fun t x => t.Covers same x) tokens found) (hu : accepts same p u = true) :
    accepts same (tokens ++ p) (found ++ u) = true := by
  induction h with
  | nil => exact hu
  | @cons t x tokens found ht _ ih =>
      cases t with
      | any => exact accepts_any_cons.mpr ⟨[x], found ++ u, rfl, ih⟩
      | one => simpa [accepts] using ih
      | letter c => exact Bool.and_eq_true_iff.mpr ⟨ht, ih⟩

/-- **Wildcards for letters lose nothing**: whatever contains the word is accepted. -/
theorem accepts_of_contains {token : α → Token α}
    (htoken : ∀ c x, same c x = true → (token c).Covers same x) {word text : List α}
    (h : Contains same word text) :
    accepts same (.any :: (word.map token ++ [.any])) text = true := by
  obtain ⟨before, found, after, rfl, hfound⟩ := h
  refine accepts_any_cons.mpr ⟨before, found ++ after, rfl, accepts_append_of_covers ?_
    (accepts_any after)⟩
  rw [List.forall₂_map_left_iff]
  exact hfound.imp fun c x => htoken c x

/-- The text with `a` for any one letter and nothing for any letters. -/
def fill (a : α) : List (Token α) → List α
  | [] => []
  | .any :: p => fill a p
  | .one :: p => a :: fill a p
  | .letter c :: p => c :: fill a p

theorem fill_append (a : α) (p q : List (Token α)) : fill a (p ++ q) = fill a p ++ fill a q := by
  induction p with
  | nil => rfl
  | cons t p ih => cases t <;> simp [fill, ih]

/-- A pattern accepts the text that fills it. -/
theorem accepts_fill (hsame : ∀ c, same c c = true) (a : α) (p : List (Token α)) :
    accepts same p (fill a p) = true := by
  induction p with
  | nil => rfl
  | cons t p ih =>
      cases t with
      | any => exact accepts_any_cons.mpr ⟨[], fill a p, rfl, ih⟩
      | one => exact ih
      | letter c => exact Bool.and_eq_true_iff.mpr ⟨hsame c, ih⟩

/-- The letters of a filled pattern are its letters, and the one put in. -/
theorem mem_fill {a x : α} {p : List (Token α)} (h : x ∈ fill a p) :
    x = a ∨ Token.letter x ∈ p := by
  induction p with
  | nil => simp [fill] at h
  | cons t p ih =>
      cases t with
      | any => exact (ih h).imp_right (List.mem_cons_of_mem _)
      | one =>
          rcases List.mem_cons.mp h with rfl | h
          · exact .inl rfl
          · exact (ih h).imp_right (List.mem_cons_of_mem _)
      | letter c =>
          rcases List.mem_cons.mp h with rfl | h
          · exact .inr List.mem_cons_self
          · exact (ih h).imp_right (List.mem_cons_of_mem _)

end Wildcard
