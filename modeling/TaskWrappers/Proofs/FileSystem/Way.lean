import TaskWrappers.Proofs.FileSystem.Below

/-!
# Where a path means to lead

The steps of a path mean a place even where the directories on the way are missing (`goal`); if the
path leads somewhere, it leads there (`goal_of_locate`).
-/

namespace TaskWrappers.FileSystem

variable {fs : FileSystem} {p : Path} {place q : Place}

/-- Where steps lead from a place if nothing is in the way. -/
def aim (place : Place) : List Path.Part → Place
  | [] => place
  | .root :: rest => aim [] rest
  | .here :: rest => aim place rest
  | .up :: rest => aim place.dropLast rest
  | .name n :: rest => aim (place ++ [n]) rest

/-- The place that a path means, whether the way there exists or not. -/
def goal (fs : FileSystem) (p : Path) : Place := aim fs.home p.steps

theorem aim_append (more : List Path.Part) : ∀ (steps : List Path.Part) (place : Place),
    aim place (steps ++ more) = aim (aim place steps) more
  | [], _ => rfl
  | .root :: rest, _ => aim_append more rest []
  | .here :: rest, place => aim_append more rest place
  | .up :: rest, place => aim_append more rest place.dropLast
  | .name n :: rest, place => aim_append more rest (place ++ [n])

theorem aim_names : ∀ (names : List String) (place : Place),
    aim place (names.map .name) = place ++ names
  | [], place => (List.append_nil place).symm
  | name :: names, place => by
    rw [List.map_cons, aim, aim_names names, ← List.append_cons]

theorem aim_of_reach : ∀ (steps : List Path.Part) {place : Place},
    fs.reach place steps = .ok q → aim place steps = q
  | [], _, h => Except.ok.inj h
  | .root :: rest, _, h => aim_of_reach rest h
  | .here :: rest, _, h => aim_of_reach rest h
  | .up :: rest, _, h => aim_of_reach rest h
  | .name n :: rest, place, h => by
    rw [reach] at h
    split at h
    · cases h
    · split at h
      · exact aim_of_reach rest h
      · split at h
        · rename_i hlast
          rw [List.isEmpty_iff.1 hlast]
          exact Except.ok.inj h
        · split at h <;> cases h

theorem goal_of_locate (h : fs.locate p = .ok q) : fs.goal p = q := aim_of_reach _ (reach_steps h)

end TaskWrappers.FileSystem
