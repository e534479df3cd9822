import AgentOpsGateway.DateTime
import AgentOpsGateway.Encodings

/-!
# Byte Files Line by Line

A newline byte is a newline in UTF-8 wherever it stands, since it is no part of a longer
sequence. So a byte file decodes exactly where all of its lines do, and then to the same
lines.

## Main results

* `byteLines_cases`: a byte string is one line, or a line and what follows its newline.
* `decodeUtf8_newline`: **decoding is done line by line**.
-/

namespace Python

/-! ### Lines -/

/-- The pieces of a byte string between its newlines: `b.split(b"\n")`. -/
def byteLines : Bytes → List Bytes
  | [] => [[]]
  | b :: bs =>
    if b = 0x0A then [] :: byteLines bs
    else
      match byteLines bs with
      | [] => [[b]]
      | line :: lines => (b :: line) :: lines

/-- **A byte string is one line**, or a line and what follows its newline. -/
theorem byteLines_cases (b : Bytes) :
    byteLines b = [b] ∨
      ∃ line rest, b = line ++ 0x0A :: rest ∧ byteLines b = line :: byteLines rest := by
  induction b with
  | nil => exact .inl rfl
  | cons b bs ih =>
      by_cases hb : b = 0x0A
      · right
        subst hb
        exact ⟨[], bs, rfl, by rw [byteLines, if_pos rfl]⟩
      · obtain hone | ⟨line, rest, rfl, hlines⟩ := ih
        · left
          rw [byteLines, if_neg hb, hone]
        · right
          exact ⟨b :: line, rest, rfl, by rw [byteLines, if_neg hb, hlines]⟩

/-- A property of byte strings that holds of single lines and is carried past a newline. -/
theorem byteLines_induction {motive : Bytes → Prop} (one : ∀ b, byteLines b = [b] → motive b)
    (more : ∀ line rest, byteLines (line ++ 0x0A :: rest) = line :: byteLines rest →
      motive rest → motive (line ++ 0x0A :: rest)) (b : Bytes) : motive b := by
  induction hn : b.length using Nat.strongRecOn generalizing b with
  | ind n ih =>
      obtain hone | ⟨line, rest, rfl, hlines⟩ := byteLines_cases b
      · exact one b hone
      · refine more line rest hlines (ih rest.length ?_ rest rfl)
        rw [← hn, List.length_append, List.length_cons]
        omega

/-- Ended lines are taken apart as they were put together. -/
theorem byteLines_flatMap (lines : List Bytes) (hlines : ∀ line ∈ lines, (0x0A : UInt8) ∉ line) :
    byteLines (lines.flatMap fun line => line ++ [0x0A]) = lines ++ [[]] := by
  have hline : ∀ line rest : Bytes, (0x0A : UInt8) ∉ line →
      byteLines (line ++ 0x0A :: rest) = line :: byteLines rest := by
    intro line rest hnone
    induction line with
    | nil => rw [List.nil_append, byteLines, if_pos rfl]
    | cons b line ih =>
        rw [List.mem_cons, not_or] at hnone
        obtain ⟨hb, hnone⟩ := hnone
        rw [List.cons_append, byteLines, if_neg (Ne.symm hb), ih hnone]
  induction lines with
  | nil => rfl
  | cons line lines ih =>
      obtain ⟨hnone, hlines⟩ := List.forall_mem_cons.mp hlines
      rw [List.flatMap_cons, List.append_assoc, List.singleton_append, hline _ _ hnone, ih hlines]
      rfl

/-! ### Strict decoding -/

/-- `b.decode("utf-8")`, which lets no surrogate through. -/
def decodeUtf8 (b : Bytes) : Option Str :=
  match utf8Decode b with
  | none => none
  | some s => if s.any isSurrogate then none else some s

/-- Two decoded lines with the newline between them. -/
def joinLines (s t : Option Str) : Option Str := s.bind fun s => t.map fun t => s ++ 0x0A :: t

theorem consPoint_joinLines (n : ℕ) (s t : Option Str) :
    consPoint n (joinLines s t) = joinLines (consPoint n s) t := by
  by_cases hn : n < 0x110000
  · cases s <;> cases t <;> simp [consPoint, joinLines, hn]
  · simp [consPoint, joinLines, hn]

theorem consSequence_joinLines (least n : ℕ) (bs : Bytes) (s t : Option Str) :
    consSequence least n bs (joinLines s t) = joinLines (consSequence least n bs s) t := by
  simp only [consSequence]
  cases continuation n bs with
  | none => rfl
  | some n =>
      dsimp only
      split
      · rfl
      · exact consPoint_joinLines n s t

/-- A sequence in which a newline stands is none. -/
theorem consSequence_newline {bs : Bytes} (hbs : 0x0A ∈ bs) (least n : ℕ) (s : Option Str) :
    consSequence least n bs s = none := by
  have hnone : ∀ n, continuation n bs = none := by
    induction bs with
    | nil => cases hbs
    | cons b bs ih =>
        intro n
        rw [continuation]
        split
        · next hb =>
            rcases List.mem_cons.mp hbs with rfl | hbs
            · exact absurd hb (by decide)
            · exact ih hbs _
        · rfl
  rw [consSequence, hnone]

/-- A newline stands for itself between the bytes before it and behind it. Induction on the
decoding; a sequence that the newline cuts off is none, with or without what follows. -/
theorem utf8Decode_newline (a b : Bytes) :
    utf8Decode (a ++ 0x0A :: b) = joinLines (utf8Decode a) (utf8Decode b) := by
  fun_induction utf8Decode a with
  | case1 =>
      rw [List.nil_append, utf8Decode.eq_def]
      simp only [if_pos (by decide : (0x0A : UInt8).toNat < 0x80)]
      cases utf8Decode b <;> rfl
  | case2 x s hx ih =>
      rw [List.cons_append, utf8Decode.eq_def]
      simp only [if_pos hx, ih]
      exact consPoint_joinLines _ _ _
  | case3 x s hx hx' =>
      rw [List.cons_append, utf8Decode.eq_def]
      simp only [if_neg hx, if_pos hx']
      rfl
  | case4 x h₁ h₂ h₃ y s ih =>
      rw [List.cons_append, List.cons_append, utf8Decode.eq_def]
      simp only [if_neg h₁, if_neg h₂, if_pos h₃, ih]
      exact consSequence_joinLines _ _ _ _ _
  | case5 x s h₁ h₂ h₃ hshort =>
      rw [List.cons_append, utf8Decode.eq_def]
      simp only [if_neg h₁, if_neg h₂, if_pos h₃]
      rcases s with _ | ⟨y, s⟩
      · simp [consSequence_newline, joinLines]
      · exact (hshort y s rfl).elim
  | case6 x h₁ h₂ h₃ h₄ y z s ih =>
      rw [List.cons_append, List.cons_append, List.cons_append, utf8Decode.eq_def]
      simp only [if_neg h₁, if_neg h₂, if_neg h₃, if_pos h₄, ih]
      exact consSequence_joinLines _ _ _ _ _
  | case7 x s h₁ h₂ h₃ h₄ hshort =>
      rw [List.cons_append, utf8Decode.eq_def]
      simp only [if_neg h₁, if_neg h₂, if_neg h₃, if_pos h₄]
      rcases s with _ | ⟨y, _ | ⟨z, s⟩⟩
      · rcases b with _ | ⟨c, b⟩ <;> simp [consSequence_newline, joinLines]
      · simp [consSequence_newline, joinLines]
      · exact (hshort y z s rfl).elim
  | case8 x h₁ h₂ h₃ h₄ h₅ y z w s ih =>
      rw [List.cons_append, List.cons_append, List.cons_append, List.cons_append,
        utf8Decode.eq_def]
      simp only [if_neg h₁, if_neg h₂, if_neg h₃, if_neg h₄, if_pos h₅, ih]
      exact consSequence_joinLines _ _ _ _ _
  | case9 x s h₁ h₂ h₃ h₄ h₅ hshort =>
      rw [List.cons_append, utf8Decode.eq_def]
      simp only [if_neg h₁, if_neg h₂, if_neg h₃, if_neg h₄, if_pos h₅]
      rcases s with _ | ⟨y, _ | ⟨z, _ | ⟨w, s⟩⟩⟩
      · rcases b with _ | ⟨c, _ | ⟨d, b⟩⟩ <;> simp [consSequence_newline, joinLines]
      · rcases b with _ | ⟨c, b⟩ <;> simp [consSequence_newline, joinLines]
      · simp [consSequence_newline, joinLines]
      · exact (hshort y z w s rfl).elim
  | case10 x s h₁ h₂ h₃ h₄ h₅ =>
      rw [List.cons_append, utf8Decode.eq_def]
      simp only [if_neg h₁, if_neg h₂, if_neg h₃, if_neg h₄, if_neg h₅]
      rfl

/-- **Decoding is done line by line.** -/
theorem decodeUtf8_newline (a b : Bytes) :
    decodeUtf8 (a ++ 0x0A :: b) = joinLines (decodeUtf8 a) (decodeUtf8 b) := by
  have hnewline : isSurrogate 0x0A = false := by decide
  rw [decodeUtf8, decodeUtf8, decodeUtf8, utf8Decode_newline]
  cases utf8Decode a with
  | none => rfl
  | some s =>
      cases utf8Decode b with
      | none => cases hs : s.any isSurrogate <;> simp [joinLines, hs]
      | some t =>
          cases hs : s.any isSurrogate <;> cases ht : t.any isSurrogate <;>
            simp [joinLines, hs, ht, hnewline]

/-- ASCII decodes to itself. -/
theorem decodeUtf8_asciiBytes {s : Str} (hs : Printable s) :
    decodeUtf8 (asciiBytes s) = some s := by
  have hsurrogate : s.any isSurrogate = false := by
    refine List.any_eq_false.mpr fun c hc => ?_
    have := hs c hc
    simp only [isPrintableAscii, Bool.and_eq_true, decide_eq_true_eq] at this
    simp only [isSurrogate, Bool.and_eq_true, decide_eq_true_eq, not_and]
    omega
  rw [decodeUtf8, utf8Decode_asciiBytes hs]
  simp [hsurrogate]

end Python
