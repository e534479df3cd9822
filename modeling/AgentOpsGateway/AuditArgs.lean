import AgentOpsGateway.AuditLog
import AgentOpsGateway.JsonRoundTrip

/-!
# The Arguments in the Audit File

`record` keeps the first 256 characters of the JSON text of the arguments. A reader of the
file who parses this column gets the arguments of the call or a `ValueError`: where the text
has been cut off, what is left of the object is never the text of another one.

## Main results

* `args_summary_exact`: **the column gives the arguments back exactly where their text fits**.
-/

namespace AgentOpsGateway

open Python

/-- What `json.loads` makes of the summary of arguments. -/
theorem loads_argsSummary {args : Arguments} (hargs : (Json.obj args).Printed) {depth : ℕ}
    (hdepth : (Json.obj args).depth ≤ depth) :
    loads depth (argsSummary args) =
      if (dumps (.obj args)).length ≤ 256 then .ok (Json.obj args).readBack
      else .error .valueError := by
  rw [argsSummary]
  split
  · next hfits =>
      rw [List.take_of_length_le hfits, loads_dumps hargs, if_pos hdepth]
  · next hlong =>
      rcases loads_take_dumps hargs trivial (Nat.lt_of_not_le hlong) depth with hrefused | hdeep
      · exact hrefused
      · omega

/-- A summary that has been cut off is refused by every reader. -/
theorem loads_argsSummary_ne_ok {args : Arguments} (hargs : (Json.obj args).Printed)
    (hlong : 256 < (dumps (.obj args)).length) (depth : ℕ) (v : Json) :
    loads depth (argsSummary args) ≠ .ok v := by
  rw [argsSummary]
  rcases loads_take_dumps hargs trivial hlong depth with h | ⟨-, h⟩ <;> simp [h]

/-- A row gives the arguments of a call: its summary is read as the arguments where their text
has at most 256 characters, and is refused otherwise. -/
structure Recording.GivesArgs (r : Recording) (row : List (Str × Json)) : Prop where
  summary : ∃ text, dictGet (lit "args_summary") row = some (.str text) ∧
    (∀ depth, (Json.obj r.args).depth ≤ depth → loads depth text =
      if (dumps (.obj r.args)).length ≤ 256 then .ok (Json.obj r.args).readBack
      else .error .valueError) ∧
    (∀ depth v, loads depth text = .ok v →
      (dumps (.obj r.args)).length ≤ 256 ∧ v = (Json.obj r.args).readBack)
  unchanged : (Json.obj r.args).Joined → (Json.obj r.args).readBack = .obj r.args

/-- **The column `args_summary` is exact**: of a file of complete writes every row gives the
arguments of its call back exactly where their JSON text has at most 256 characters, and a
longer text is refused whatever stands at its end. -/
theorem args_summary_exact (py : Interpreter) (calls : List Recording)
    (hprinted : ∀ r ∈ calls, (Json.obj r.args).Printed) :
    ∃ rows : List (List (Str × Json)),
      readAudit py (fileAfter (calls.map fun r => r.line.write)) = .ok (rows.map .obj) ∧
      List.Forall₂ Recording.GivesArgs calls rows := by
  refine ⟨calls.map fun r => r.line.dict, ?_, ?_⟩
  · have hread := readAudit_write py (calls.map Recording.line)
    rw [List.map_map, List.map_map] at hread
    rw [List.map_map]
    exact hread
  · rw [List.forall₂_map_right_iff, List.forall₂_same]
    intro r hr
    refine ⟨⟨_, r.readAs_dict.argsSummary, fun depth => loads_argsSummary (hprinted r hr),
      fun depth v hv => ?_⟩, readBack_eq_self _⟩
    by_cases hfits : (dumps (.obj r.args)).length ≤ 256
    · have hloads := loads_dumps (hprinted r hr) depth
      rw [List.take_of_length_le hfits, hloads] at hv
      split at hv
      · exact ⟨hfits, (Except.ok.inj hv).symm⟩
      · simp at hv
    · exact absurd hv (loads_argsSummary_ne_ok (hprinted r hr) (Nat.lt_of_not_le hfits) depth v)

/-- A call with a number, a float and a nested list among its arguments. -/
def sampleRecording : Recording :=
  { splitRecording with
    args := [(lit "limit", .int (-20)), (lit "ratio", .float (lit "1.5e-07")),
      (lit "hosts", .arr [.str (lit "db-1"), .null])]
    printed := by simp [fieldsFloatsPrinted, itemsFloatsPrinted, Json.FloatsPrinted]; decide }

/-- The arguments of the sample come back from the file. -/
theorem args_summary_sample :
    ∃ rows : List (List (Str × Json)),
      readAudit ⟨8, fun _ => true⟩ (fileAfter [sampleRecording.line.write]) =
        .ok (rows.map .obj) ∧ List.Forall₂ Recording.GivesArgs [sampleRecording] rows := by
  refine args_summary_exact ⟨8, fun _ => true⟩ [sampleRecording] fun r hr => ?_
  obtain rfl := List.mem_singleton.mp hr
  exact ⟨(by decide : isPrinted (-20) = true), ⟨rfl, ⟨⟨trivial, trivial, trivial⟩, trivial⟩⟩⟩

end AgentOpsGateway
