import AgentOpsGateway.Json

/-!
# Tool Names With a Server Prefix

The gateway advertises the tools of its backends under `server__tool` and routes a call by
splitting the name at the first separator.

## Main results

* `split_join`: a name is taken apart again where the server has no separator in it and
  does not end in an underscore.
* `join_of_split`: the parts of a name make it up.
-/

namespace AgentOpsGateway

open Python

/-- A tool as a backend lists it: its name and the rest of its description. -/
structure Tool where
  name : Str
  details : List (Str × Json)

/-- `SEPARATOR`. -/
def separator : Str := lit "__"

/-- `join(server, tool)`. -/
def join (server tool : Str) : Str := server ++ separator ++ tool

/-- `split(name)`: around the first separator; `None` where there is none. -/
def split (name : Str) : Option (Str × Str) :=
  if occursIn separator name then
    let (server, _, tool) := partition separator name
    some (server, tool)
  else none

/-- `prefixed(server, tools)`. -/
def prefixed (server : Str) (tools : List Tool) : List Tool :=
  tools.map fun tool => { tool with name := join server tool.name }

/-- A server name that cannot be confused with what follows it: no separator in it, and no
underscore at its end. -/
structure Unambiguous (server : Str) : Prop where
  noSeparator : occursIn separator server = false
  lastChar : server.getLast? ≠ some (ofChar '_')

/-- **A joined name is split at the seam.** -/
theorem split_join {server : Str} (hserver : Unambiguous server) (tool : Str) :
    split (join server tool) = some (server, tool) := by
  have hsep : separator = [ofChar '_', ofChar '_'] := rfl
  have hbreak : breakAt separator (server ++ separator ++ tool) = some (server, tool) := by
    refine breakAt_append tool fun u v huv hv hpre => ?_
    rw [hsep] at hpre
    -- a separator that starts in `v` lies in `v`, or straddles its last character
    match v with
    | [] => exact hv rfl
    | [c] =>
        have hc : ofChar '_' = c := (List.cons_prefix_cons.mp hpre).1
        exact hserver.lastChar (by simp [huv, hc])
    | c :: d :: v =>
        obtain ⟨hc, htail⟩ := List.cons_prefix_cons.mp hpre
        have hd : ofChar '_' = d := (List.cons_prefix_cons.mp htail).1
        have hinfix : separator <:+: server := ⟨u, v, by simp [hsep, huv, ← hc, ← hd]⟩
        simpa [hserver.noSeparator] using occursIn_of_infix hinfix
  have hoccurs : occursIn separator (join server tool) = true := by
    rw [occursIn, join, hbreak]
    rfl
  rw [split, if_pos hoccurs, partition, join, hbreak]

/-- The parts of a name make it up. -/
theorem join_of_split {name server tool : Str} (h : split name = some (server, tool)) :
    join server tool = name := by
  simp only [split, partition] at h
  split at h
  · cases hbreak : breakAt separator name with
    | none => simp [occursIn, hbreak] at *
    | some p =>
        simp only [hbreak, Option.some.injEq, Prod.mk.injEq] at h
        rw [join, ← h.1, ← h.2]
        exact (append_of_breakAt hbreak).symm
  · simp at h

end AgentOpsGateway
