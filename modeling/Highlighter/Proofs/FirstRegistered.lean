import Highlighter.Mode.Registry
import Highlighter.Proofs.OrderedWords
import Highlighter.Proofs.WholeWords
import Mathlib.Tactic

/-!
# Who comes first keeps the id

Registering a mode only ever adds to a registry, and only an id that is not
taken.  One step therefore leaves every lookup that succeeds as it is, and a
lookup after any number of steps finds the first mode with its id among all
that were to be registered, the ones the registry began with before the others.
-/

namespace Highlighter

/-- The first of some modes that has the id. -/
def Mode.IsFirst (mode : Mode) (id : String) (modes : List Mode) : Prop :=
  ∃ front back,
    modes = front ++ mode :: back ∧ mode.id = id ∧ ∀ other ∈ front, other.id ≠ id

theorem Mode.isFirst_iff {mode : Mode} {id : String} {modes : List Mode} :
    mode.IsFirst id modes ↔ modes.find? (·.id == id) = some mode := by
  rw [List.find?_eq_some_iff_append]
  simp only [IsFirst, beq_iff_eq, Bool.not_eq_true', beq_eq_false_iff_ne]
  constructor
  · intro ⟨front, back, hmodes, hid, hfront⟩
    exact ⟨hid, front, back, hmodes, hfront⟩
  · intro ⟨hid, front, back, hmodes, hfront⟩
    exact ⟨front, back, hmodes, hid, hfront⟩

namespace Registry

/-- The registry after a mode was to be registered, which is the same registry
if the id of the mode is taken. -/
def registered (registry : Registry) (mode : Mode) : Registry :=
  match registry.register mode with
  | .ok after => after
  | .error _ => registry

def run (registry : Registry) (modes : List Mode) : Registry :=
  modes.foldl registered registry

@[simp] theorem run_nil (registry : Registry) : registry.run [] = registry := rfl

@[simp] theorem run_cons (registry : Registry) (mode : Mode) (modes : List Mode) :
    registry.run (mode :: modes) = (registry.registered mode).run modes := rfl

theorem run_append (registry : Registry) (earlier later : List Mode) :
    registry.run (earlier ++ later) = (registry.run earlier).run later :=
  List.foldl_append

/-! ## One registration -/

section Step

variable {registry : Registry} {mode : Mode}

theorem register_of_none (hfree : registry.get? mode.id = none) :
    registry.register mode = .ok ⟨registry.modes ++ [mode]⟩ := by
  rw [register, hfree]

theorem register_of_some {holder : Mode} (htaken : registry.get? mode.id = some holder) :
    registry.register mode = .error (.alreadyRegistered mode.id) := by
  rw [register, htaken]

theorem registered_of_error {error : ModeError}
    (hregister : registry.register mode = .error error) : registry.registered mode = registry := by
  rw [registered, hregister]

theorem register_eq_error_iff {error : ModeError} :
    registry.register mode = .error error ↔
      error = .alreadyRegistered mode.id ∧ registry.get? mode.id ≠ none := by
  cases hget : registry.get? mode.id with
  | none => simp [register_of_none hget]
  | some holder =>
      rw [register_of_some hget]
      simp [eq_comm]

/-- A lookup that succeeded gives what it gave before. -/
theorem get?_registered (id : String) :
    (registry.registered mode).get? id =
      (registry.get? id).or ([mode].find? (·.id == id)) := by
  cases hget : registry.get? mode.id with
  | none =>
      rw [registered, register_of_none hget]
      exact List.find?_append
  | some holder =>
      rw [registered, register_of_some hget]
      by_cases hid : mode.id = id
      · rw [← hid, hget, Option.some_or]
      · simp [hid]

end Step

/-! ## Any number of them -/

theorem get?_run (registry : Registry) (modes : List Mode) (id : String) :
    (registry.run modes).get? id = (registry.get? id).or (modes.find? (·.id == id)) := by
  induction modes generalizing registry with
  | nil => simp
  | cons mode modes ih =>
      rw [run_cons, ih, get?_registered, Option.or_assoc, ← List.find?_append,
        List.singleton_append]

theorem mem_ids {registry : Registry} {id : String} :
    id ∈ registry.ids ↔ ∃ mode, registry.get? id = some mode := by
  rw [ids, Text.mem_sortWords, ← Option.isSome_iff_exists, get?, List.find?_isSome, List.mem_map]
  simp only [beq_iff_eq]

/-- A mode with the id was there from the start, or was registered by one of the
calls with success. -/
def Taken (start : Registry) (before calls : List Mode) (id : String) : Prop :=
  (∃ mode ∈ before, mode.id = id) ∨
  ∃ earlier mode later after,
    calls = earlier ++ mode :: later ∧
    mode.id = id ∧
    (start.run earlier).register mode = .ok after

/-- What a registry that began with the modes `before` gives after `calls`, and
what becomes of a further call. -/
structure FirstCome (start : Registry) (before calls : List Mode) : Prop where
  get?_some : ∀ id mode,
    (start.run calls).get? id = some mode ↔ mode.IsFirst id (before ++ calls)
  get?_none : ∀ id,
    (start.run calls).get? id = none ↔ ∀ mode ∈ before ++ calls, mode.id ≠ id
  require_ok : ∀ id mode,
    (start.run calls).require id = .ok mode ↔ mode.IsFirst id (before ++ calls)
  require_error : ∀ id error,
    (start.run calls).require id = .error error ↔
      error = .unknownMode id ∧ ∀ mode ∈ before ++ calls, mode.id ≠ id
  register_error : ∀ mode error,
    (start.run calls).register mode = .error error ↔
      error = .alreadyRegistered mode.id ∧ Taken start before calls mode.id
  unchanged : ∀ mode error,
    (start.run calls).register mode = .error error →
      start.run (calls ++ [mode]) = start.run calls
  ids_increasing :
    (start.run calls).ids.Pairwise (fun one other => Text.bytes one < Text.bytes other)
  mem_ids : ∀ id, id ∈ (start.run calls).ids ↔ ∃ mode, (start.run calls).get? id = some mode

section FirstCome

variable {start : Registry} {before : List Mode}
  (hstart : ∀ id, start.get? id = before.find? (·.id == id))

include hstart

theorem get?_run_eq (calls : List Mode) (id : String) :
    (start.run calls).get? id = (before ++ calls).find? (·.id == id) := by
  rw [get?_run, hstart, List.find?_append]

theorem get?_run_eq_none_iff {calls : List Mode} {id : String} :
    (start.run calls).get? id = none ↔ ∀ mode ∈ before ++ calls, mode.id ≠ id := by
  rw [get?_run_eq hstart, List.find?_eq_none]
  simp only [beq_iff_eq]

theorem exists_mem_iff_get?_run_ne_none {calls : List Mode} {id : String} :
    (∃ mode ∈ before ++ calls, mode.id = id) ↔ (start.run calls).get? id ≠ none := by
  rw [Ne, get?_run_eq_none_iff hstart]
  simp

/-- The id is taken by the first call that asked for it. -/
theorem taken_iff {calls : List Mode} {id : String} :
    Taken start before calls id ↔ (start.run calls).get? id ≠ none := by
  rw [← exists_mem_iff_get?_run_ne_none hstart]
  constructor
  · rintro (⟨mode, hmode, hid⟩ | ⟨earlier, mode, later, _, rfl, hid, _⟩)
    · exact ⟨mode, List.mem_append_left _ hmode, hid⟩
    · exact ⟨mode, by simp, hid⟩
  · intro ⟨mode, hmode, hid⟩
    by_cases hbefore : ∃ mode ∈ before, mode.id = id
    · exact Or.inl hbefore
    · have hcall : mode ∈ calls := by
        rcases List.mem_append.mp hmode with hold | hcall
        · exact absurd ⟨mode, hold, hid⟩ hbefore
        · exact hcall
      have hfind : (calls.find? (·.id == id)).isSome :=
        List.find?_isSome.mpr ⟨mode, hcall, beq_iff_eq.mpr hid⟩
      obtain ⟨first, hfirst⟩ := Option.isSome_iff_exists.mp hfind
      obtain ⟨earlier, later, rfl, rfl, hearlier⟩ := Mode.isFirst_iff.mpr hfirst
      have hfree : (start.run earlier).get? first.id = none := by
        rw [get?_run_eq_none_iff hstart]
        intro other hother hsame
        rcases List.mem_append.mp hother with hold | hcall
        · exact hbefore ⟨other, hold, hsame⟩
        · exact hearlier other hcall hsame
      exact Or.inr ⟨earlier, first, later, _, rfl, rfl, register_of_none hfree⟩

theorem firstCome (calls : List Mode) : FirstCome start before calls where
  get?_some id mode := by rw [get?_run_eq hstart, Mode.isFirst_iff]
  get?_none id := get?_run_eq_none_iff hstart
  require_ok id mode := by
    rw [Mode.isFirst_iff, ← get?_run_eq hstart, require]
    cases (start.run calls).get? id <;> simp
  require_error id error := by
    rw [← get?_run_eq_none_iff hstart, require]
    cases (start.run calls).get? id <;> simp [eq_comm]
  register_error mode error := by rw [register_eq_error_iff, taken_iff hstart]
  unchanged mode error hregister := by
    rw [run_append, run_cons, run_nil]
    exact registered_of_error hregister
  ids_increasing := Text.bytes_sortWords_increasing _
  mem_ids id := Registry.mem_ids

end FirstCome

theorem exists_builtin :
    ∃ mode, CellTail.mode = .ok mode ∧ builtin = .ok ⟨[.plainText, mode]⟩ := by
  refine ⟨_, CellTail.mode_eq, ?_⟩
  rw [builtin, CellTail.mode_eq]
  rfl

/-- The first mode that is registered under an id keeps it, in a registry that
began empty and in one that began with the built-in modes. -/
theorem first_registered_keeps_id :
    (∀ calls, FirstCome .empty [] calls) ∧
    ∃ registry mode,
      builtin = .ok registry ∧
      CellTail.mode = .ok mode ∧
      ∀ calls, FirstCome registry [.plainText, mode] calls := by
  constructor
  · exact firstCome fun id => rfl
  · obtain ⟨mode, hmode, hbuiltin⟩ := exists_builtin
    exact ⟨_, mode, hbuiltin, hmode, firstCome fun id => rfl⟩

end Registry

end Highlighter
