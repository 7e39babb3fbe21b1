import Highlighter.Proofs.MatchSpans
import Highlighter.Scan
import Mathlib.Tactic

/-!
# Runs of the scanning loop

`RuleTable.Scans` describes the scanning loop by its steps, without a bound on
their number.  Every step moves the cursor on, so the characters that are left
bound the steps: the loop ends at every cursor.  What a step does is settled by
the cursor and the state, so it ends with one result.
-/

namespace Highlighter

def Cursor.plainPiece (cursor : Cursor) (c : Char) : Piece :=
  ⟨.label .text, ⟨cursor.offset, cursor.offset + c.utf8Size⟩, [c]⟩

/-- The loop ends with these pieces and in this state, when it begins at the
cursor with `count` pieces before it. -/
inductive RuleTable.Scans (table : RuleTable) (cap : Option Nat) :
    Cursor → StateId → Nat → List Piece × StateId → Prop
  | done {cursor : Cursor} {state : StateId} {count : Nat} :
      cursor.rest = [] →
      Scans table cap cursor state count ([], state)
  | capped {cursor : Cursor} {state : StateId} {count : Nat} :
      cursor.rest ≠ [] →
      cap.any (· ≤ count) = true →
      Scans table cap cursor state count ([cursor.remainder], table.start)
  | matched {cursor behind : Cursor} {state : StateId} {count : Nat} {m : RuleMatch}
      {after : List Piece × StateId} :
      cursor.rest ≠ [] →
      cap.any (· ≤ count) = false →
      table.matchFrom? state cursor = some (m, behind) →
      Scans table cap behind m.next
        (count + (cutPieces cursor.offset cursor.rest m.cuts).length) after →
      Scans table cap cursor state count
        (cutPieces cursor.offset cursor.rest m.cuts ++ after.1, after.2)
  | plain {cursor : Cursor} {state : StateId} {count : Nat} {c : Char} {cs : List Char}
      {after : List Piece × StateId} :
      cursor.rest = c :: cs →
      cap.any (· ≤ count) = false →
      table.matchFrom? state cursor = none →
      Scans table cap (cursor.past c cs) state (count + 1) after →
      Scans table cap cursor state count (cursor.plainPiece c :: after.1, after.2)

namespace RuleTable

theorem scanFrom_scans
    (table : RuleTable) (cap : Option Nat) {fuel : Nat} {cursor : Cursor}
    (hfuel : cursor.rest.length ≤ fuel) (state : StateId) (count : Nat) :
    table.Scans cap cursor state count (table.scanFrom cap fuel cursor state count) := by
  induction fuel generalizing cursor state count with
  | zero =>
      have hrest : cursor.rest = [] := List.length_eq_zero_iff.mp (by omega)
      exact .done hrest
  | succ fuel ih =>
      cases hrest : cursor.rest with
      | nil =>
          simp only [scanFrom, hrest]
          exact .done hrest
      | cons c cs =>
          have hne : cursor.rest ≠ [] := by simp [hrest]
          simp only [scanFrom, hrest]
          cases hcap : cap.any (· ≤ count) with
          | true =>
              simp only [if_true]
              exact .capped hne hcap
          | false =>
              simp only [Bool.false_eq_true, if_false]
              cases hmatch : table.matchFrom? state cursor with
              | none =>
                  have hcs : cs.length ≤ fuel := by
                    rw [hrest, List.length_cons] at hfuel
                    omega
                  exact .plain hrest hcap hmatch (ih hcs state (count + 1))
              | some found =>
                  obtain ⟨m, behind⟩ := found
                  have hfits := matchFrom?_fits hmatch
                  have hbehind := hfits.reaches.length_rest_lt hfits.nonempty
                  rw [← hrest]
                  exact .matched hne hcap hmatch (ih (by omega) m.next _)

theorem scan_scans
    (table : RuleTable) (cap : Option Nat) (line : List Char) (state : StateId) :
    table.Scans cap (.start line) state 0 (table.scan cap line state) :=
  table.scanFrom_scans cap (le_refl _) state 0

/-! ## Single steps -/

/-- A step of the loop that no cap stops: the pieces it cuts, and the cursor
and the state in which the loop goes on. -/
inductive ScanStep (table : RuleTable) :
    Cursor → StateId → List Piece → Cursor → StateId → Prop
  | matched {cursor behind : Cursor} {state : StateId} {m : RuleMatch} :
      cursor.rest ≠ [] →
      table.matchFrom? state cursor = some (m, behind) →
      ScanStep table cursor state (cutPieces cursor.offset cursor.rest m.cuts) behind m.next
  | plain {cursor : Cursor} {state : StateId} {c : Char} {cs : List Char} :
      cursor.rest = c :: cs →
      table.matchFrom? state cursor = none →
      ScanStep table cursor state [cursor.plainPiece c] (cursor.past c cs) state

theorem ScanStep.rest_ne_nil
    {table : RuleTable} {cursor behind : Cursor} {state next : StateId} {pieces : List Piece}
    (hstep : table.ScanStep cursor state pieces behind next) : cursor.rest ≠ [] := by
  cases hstep with
  | matched hne => exact hne
  | plain hrest =>
      rw [hrest]
      exact List.cons_ne_nil _ _

theorem ScanStep.unique
    {table : RuleTable} {cursor behind behind' : Cursor} {state next next' : StateId}
    {pieces pieces' : List Piece}
    (hstep : table.ScanStep cursor state pieces behind next)
    (hstep' : table.ScanStep cursor state pieces' behind' next') :
    pieces = pieces' ∧ behind = behind' ∧ next = next' := by
  cases hstep with
  | matched _ hmatch =>
      cases hstep' with
      | matched _ hmatch' =>
          rw [hmatch] at hmatch'
          simp only [Option.some.injEq, Prod.mk.injEq] at hmatch'
          obtain ⟨rfl, rfl⟩ := hmatch'
          exact ⟨rfl, rfl, rfl⟩
      | plain _ hnone => simp [hmatch] at hnone
  | plain hrest hnone =>
      cases hstep' with
      | matched _ hmatch => simp [hmatch] at hnone
      | plain hrest' _ =>
          rw [hrest] at hrest'
          obtain ⟨rfl, rfl⟩ := List.cons.inj hrest'
          exact ⟨rfl, rfl, rfl⟩

/-- A step asks the table for nothing but the match at its cursor. -/
theorem ScanStep.congr
    {table table' : RuleTable} {cursor behind : Cursor} {state next : StateId}
    {pieces : List Piece}
    (hmatch : table'.matchFrom? state cursor = table.matchFrom? state cursor)
    (hstep : table.ScanStep cursor state pieces behind next) :
    table'.ScanStep cursor state pieces behind next := by
  cases hstep with
  | matched hne hfound => exact .matched hne (hmatch.trans hfound)
  | plain hrest hnone => exact .plain hrest (hmatch.trans hnone)

theorem Scans.of_step
    {table : RuleTable} {cap : Option Nat} {cursor behind : Cursor} {state next : StateId}
    {count : Nat} {pieces : List Piece} {after : List Piece × StateId}
    (hfree : cap.any (· ≤ count) = false)
    (hstep : table.ScanStep cursor state pieces behind next)
    (hafter : table.Scans cap behind next (count + pieces.length) after) :
    table.Scans cap cursor state count (pieces ++ after.1, after.2) := by
  cases hstep with
  | matched hne hmatch => exact .matched hne hfree hmatch hafter
  | plain hrest hnone => exact .plain hrest hfree hnone hafter

section Induction

variable {table : RuleTable} {cap : Option Nat}
  {motive : (cursor : Cursor) → (state : StateId) → (count : Nat) →
    (result : List Piece × StateId) → table.Scans cap cursor state count result → Prop}

/-- What holds at the two ends of the loop, and before a step whenever it
holds behind it, holds of every run. -/
theorem Scans.step_induction
    (done : ∀ {cursor state count} (hrest : cursor.rest = []),
      motive cursor state count ([], state) (.done hrest))
    (capped : ∀ {cursor state count} (hne : cursor.rest ≠ []) (hcap : cap.any (· ≤ count) = true),
      motive cursor state count ([cursor.remainder], table.start) (.capped hne hcap))
    (step : ∀ {cursor behind state next count pieces after}
      (hscan : table.Scans cap cursor state count (pieces ++ after.1, after.2))
      (_ : cap.any (· ≤ count) = false)
      (_ : table.ScanStep cursor state pieces behind next)
      (hafter : table.Scans cap behind next (count + pieces.length) after),
      motive behind next (count + pieces.length) after hafter →
      motive cursor state count (pieces ++ after.1, after.2) hscan)
    {cursor : Cursor} {state : StateId} {count : Nat} {result : List Piece × StateId}
    (hscan : table.Scans cap cursor state count result) :
    motive cursor state count result hscan := by
  induction hscan with
  | done hrest => exact done hrest
  | capped hne hcap => exact capped hne hcap
  | matched hne hfree hmatch hafter ih => exact step _ hfree (.matched hne hmatch) hafter ih
  | plain hrest hfree hnone hafter ih =>
      have hscan := Scans.plain hrest hfree hnone hafter
      exact step hscan hfree (.plain hrest hnone) hafter ih

end Induction

/-- A run ends at once, or goes on behind a step. -/
theorem Scans.cases_step
    {table : RuleTable} {cap : Option Nat} {cursor : Cursor} {state : StateId} {count : Nat}
    {result : List Piece × StateId} (hscan : table.Scans cap cursor state count result) :
    (cursor.rest = [] ∧ result = ([], state)) ∨
    (cursor.rest ≠ [] ∧ cap.any (· ≤ count) = true ∧
      result = ([cursor.remainder], table.start)) ∨
    (cap.any (· ≤ count) = false ∧
      ∃ pieces behind next after,
        table.ScanStep cursor state pieces behind next ∧
        table.Scans cap behind next (count + pieces.length) after ∧
        result = (pieces ++ after.1, after.2)) := by
  cases hscan with
  | done hrest => exact Or.inl ⟨hrest, rfl⟩
  | capped hne hcap => exact Or.inr (Or.inl ⟨hne, hcap, rfl⟩)
  | matched hne hfree hmatch hafter =>
      exact Or.inr (Or.inr ⟨hfree, _, _, _, _, .matched hne hmatch, hafter, rfl⟩)
  | plain hrest hfree hnone hafter =>
      exact Or.inr (Or.inr ⟨hfree, _, _, _, _, .plain hrest hnone, hafter, rfl⟩)

/-- Below the cap a run goes on behind the step that can be made. -/
theorem Scans.behind_free_step
    {table : RuleTable} {cap : Option Nat} {cursor behind : Cursor} {state next : StateId}
    {count : Nat} {pieces : List Piece} {result : List Piece × StateId}
    (hscan : table.Scans cap cursor state count result)
    (hfree : cap.any (· ≤ count) = false)
    (hstep : table.ScanStep cursor state pieces behind next) :
    ∃ after,
      table.Scans cap behind next (count + pieces.length) after ∧
      result = (pieces ++ after.1, after.2) := by
  rcases hscan.cases_step with
    ⟨hrest, _⟩ | ⟨_, hcap, _⟩ | ⟨_, _, _, _, after, hstep', hafter, hresult⟩
  · exact absurd hrest hstep.rest_ne_nil
  · rw [hfree] at hcap
    exact absurd hcap Bool.false_ne_true
  · obtain ⟨rfl, rfl, rfl⟩ := hstep'.unique hstep
    exact ⟨after, hafter, hresult⟩

/-- Without a cap a run goes on behind every step that can be made. -/
theorem Scans.behind_step
    {table : RuleTable} {cursor behind : Cursor} {state next : StateId} {count : Nat}
    {pieces : List Piece} {result : List Piece × StateId}
    (hscan : table.Scans none cursor state count result)
    (hstep : table.ScanStep cursor state pieces behind next) :
    ∃ after,
      table.Scans none behind next (count + pieces.length) after ∧
      result = (pieces ++ after.1, after.2) :=
  hscan.behind_free_step rfl hstep

/-! ## One result -/

theorem Scans.unique
    {table : RuleTable} {cap : Option Nat} {cursor : Cursor} {state : StateId} {count : Nat}
    {result result' : List Piece × StateId}
    (hscan : table.Scans cap cursor state count result)
    (hscan' : table.Scans cap cursor state count result') : result = result' := by
  induction hscan using Scans.step_induction generalizing result' with
  | done hrest =>
      rcases hscan'.cases_step with ⟨_, rfl⟩ | ⟨hne, _⟩ | ⟨_, _, _, _, _, hstep, _⟩
      · rfl
      · exact absurd hrest hne
      · exact absurd hrest hstep.rest_ne_nil
  | capped hne hcap =>
      rcases hscan'.cases_step with ⟨hrest, _⟩ | ⟨_, _, rfl⟩ | ⟨hfree, _⟩
      · exact absurd hrest hne
      · rfl
      · simp [hcap] at hfree
  | step _ hfree hstep _ ih =>
      rcases hscan'.cases_step with
        ⟨hrest, _⟩ | ⟨_, hcap, _⟩ | ⟨_, _, _, _, after, hstep', hafter, rfl⟩
      · exact absurd hrest hstep.rest_ne_nil
      · simp [hcap] at hfree
      · obtain ⟨rfl, rfl, rfl⟩ := hstep.unique hstep'
        rw [ih hafter]

end RuleTable

end Highlighter
