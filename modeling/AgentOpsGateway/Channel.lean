import Mathlib.Data.List.Basic

/-!
# Channels that are Read Ahead

A channel is anything that can be asked for its next message: it answers with the message
and is then in another state, or it never answers. Some messages are read ahead, up to the
first that ends a reading; a reader that is then given what was read, and after it what is
left in the channel, sees the channel as it was.

## Main results

* `outputs_replay`: **reading ahead is invisible**, however often the reader asks.
* `readAhead_isSome_iff`: a reading comes to an end where the channel has a message that ends
  it.
-/

namespace Channel

variable {σ μ : Type*} (receive : σ → Option (μ × σ))

/-- The first `n` messages of a channel; fewer, where it stops answering. -/
def outputs : ℕ → σ → List μ
  | 0, _ => []
  | n + 1, s =>
    match receive s with
    | none => []
    | some (m, s) => m :: outputs n s

/-- Read ahead, at most `n` messages, up to the first for which there are no more. -/
def readAhead (more : μ → Bool) : ℕ → σ → Option (List μ × σ)
  | 0, _ => none
  | n + 1, s =>
    match receive s with
    | none => none
    | some (m, s) =>
      if more m then (readAhead more n s).map fun r => (m :: r.1, r.2) else some ([m], s)

/-- Ask for what was read ahead first, and then the channel. -/
def replay : List μ × σ → Option (μ × (List μ × σ))
  | (m :: messages, s) => some (m, (messages, s))
  | ([], s) => (receive s).map fun r => (r.1, ([], r.2))

variable {receive}

/-- With nothing left of what was read ahead, the reader sees the channel. -/
theorem outputs_replay_nil (n : ℕ) (s : σ) :
    outputs (replay receive) n ([], s) = outputs receive n s := by
  induction n generalizing s with
  | zero => rfl
  | succ n ih =>
      simp only [outputs, replay]
      cases receive s with
      | none => rfl
      | some r => exact congrArg (r.1 :: ·) (ih r.2)

/-- **Reading ahead is invisible.** Induction on the reading. -/
theorem outputs_replay {more : μ → Bool} {k : ℕ} {s t : σ} {messages : List μ}
    (h : readAhead receive more k s = some (messages, t)) (n : ℕ) :
    outputs (replay receive) n (messages, t) = outputs receive n s := by
  induction k generalizing s messages n with
  | zero => simp [readAhead] at h
  | succ k ih =>
      cases n with
      | zero => rfl
      | succ n =>
          simp only [readAhead] at h
          cases hreceive : receive s with
          | none => simp [hreceive] at h
          | some r =>
              obtain ⟨m, s'⟩ := r
              simp only [hreceive] at h
              simp only [outputs, hreceive]
              by_cases hmore : more m = true
              · rw [if_pos hmore, Option.map_eq_some_iff] at h
                obtain ⟨⟨rest, t'⟩, hrest, heq⟩ := h
                obtain ⟨rfl, rfl⟩ := Prod.mk.inj heq
                exact congrArg (m :: ·) (ih hrest n)
              · rw [if_neg hmore, Option.some.injEq, Prod.mk.injEq] at h
                obtain ⟨rfl, rfl⟩ := h
                exact congrArg (m :: ·) (outputs_replay_nil n s')

/-- What is read ahead are the first messages, and only the last of them ends the reading. -/
theorem readAhead_spec {more : μ → Bool} {k : ℕ} {s t : σ} {messages : List μ}
    (h : readAhead receive more k s = some (messages, t)) :
    messages = outputs receive messages.length s ∧
      ∃ before last, messages = before ++ [last] ∧ (∀ m ∈ before, more m = true) ∧
        more last = false := by
  induction k generalizing s messages with
  | zero => simp [readAhead] at h
  | succ k ih =>
      simp only [readAhead] at h
      cases hreceive : receive s with
      | none => simp [hreceive] at h
      | some r =>
          obtain ⟨m, s'⟩ := r
          simp only [hreceive] at h
          by_cases hmore : more m = true
          · rw [if_pos hmore, Option.map_eq_some_iff] at h
            obtain ⟨⟨rest, t'⟩, hrest, heq⟩ := h
            obtain ⟨rfl, rfl⟩ := Prod.mk.inj heq
            obtain ⟨houtputs, before, last, rfl, hbefore, hlast⟩ := ih hrest
            refine ⟨?_, m :: before, last, rfl, ?_, hlast⟩
            · simp only [List.length_cons, outputs, hreceive, ← houtputs]
            · exact List.forall_mem_cons.mpr ⟨hmore, hbefore⟩
          · rw [if_neg hmore, Option.some.injEq, Prod.mk.injEq] at h
            obtain ⟨rfl, rfl⟩ := h
            refine ⟨by simp [outputs, hreceive], [], m, rfl, by simp, by simpa using hmore⟩

/-- A reading comes to an end exactly where one of the messages ends it. -/
theorem readAhead_isSome_iff {more : μ → Bool} {k : ℕ} {s : σ} :
    (readAhead receive more k s).isSome = true ↔
      ∃ m ∈ outputs receive k s, more m = false := by
  induction k generalizing s with
  | zero => simp [readAhead, outputs]
  | succ k ih =>
      simp only [readAhead, outputs]
      cases hreceive : receive s with
      | none => simp
      | some r =>
          by_cases hmore : more r.1 = true
          · simp [hmore, ih]
          · simp [hmore]

/-- A reading that has ended ends alike with more time. -/
theorem readAhead_mono {more : μ → Bool} {k l : ℕ} (hkl : k ≤ l) {s : σ} {r : List μ × σ}
    (h : readAhead receive more k s = some r) : readAhead receive more l s = some r := by
  induction k generalizing l s r with
  | zero => simp [readAhead] at h
  | succ k ih =>
      obtain ⟨l, rfl⟩ := Nat.exists_eq_add_of_le' hkl
      rw [← Nat.add_assoc] at hkl ⊢
      simp only [readAhead] at h ⊢
      cases hreceive : receive s with
      | none => simp [hreceive] at h
      | some r' =>
          simp only [hreceive] at h ⊢
          by_cases hmore : more r'.1 = true
          · rw [if_pos hmore, Option.map_eq_some_iff] at h
            obtain ⟨rest, hrest, rfl⟩ := h
            rw [if_pos hmore, ih (Nat.le_add_left k l) hrest]
            rfl
          · rw [if_neg hmore] at h ⊢
            exact h

end Channel
