import Highlighter.Proofs.MatchSpans
import Highlighter.Scan
import Mathlib.Order.Bounds.Defs
import Mathlib.Tactic

/-!
# Single steps at any position

A step can be asked for at every 64-bit position, between characters, inside
one, and past the end of the line.  A match begins at the position and ends
between characters; without one, the step reaches to the next place between
characters, or one byte past the end.  At the last position of all there is no
next byte: the position behind it cannot be represented.
-/

namespace Highlighter

namespace Text

/-- The places between characters of a text that begins at byte `offset`. -/
def boundariesFrom (offset : Nat) (cs : List Char) : Set Nat :=
  {b | ∃ before after, cs = before ++ after ∧ b = offset + byteLength before}

theorem mem_boundariesFrom_cons {offset b : Nat} {c : Char} {cs : List Char} :
    b ∈ boundariesFrom offset (c :: cs) ↔
      b = offset ∨ b ∈ boundariesFrom (offset + c.utf8Size) cs := by
  constructor
  · rintro ⟨before, after, hcut, hb⟩
    cases before with
    | nil => exact Or.inl hb
    | cons d before =>
        obtain ⟨rfl, rfl⟩ := List.cons.inj hcut
        exact Or.inr ⟨before, after, rfl, by rw [hb, byteLength_cons, Nat.add_assoc]⟩
  · rintro (rfl | ⟨before, after, rfl, rfl⟩)
    · exact ⟨[], c :: cs, rfl, rfl⟩
    · exact ⟨c :: before, after, rfl, by rw [byteLength_cons, Nat.add_assoc]⟩

theorem le_of_mem_boundariesFrom {offset b : Nat} {cs : List Char}
    (hb : b ∈ boundariesFrom offset cs) : offset ≤ b := by
  obtain ⟨before, _, _, hb⟩ := hb
  omega

theorem boundaryAfter?_isLeast {pos offset b : Nat} {cs : List Char}
    (hoffset : offset ≤ pos)
    (hfound : boundaryAfter? pos offset cs = some b) :
    IsLeast {b | pos < b ∧ b ∈ boundariesFrom offset cs} b := by
  induction cs generalizing offset with
  | nil => simp [boundaryAfter?] at hfound
  | cons c cs ih =>
      rw [boundaryAfter?] at hfound
      split at hfound
      next hinside =>
        obtain rfl := Option.some.inj hfound
        constructor
        · exact ⟨hinside, mem_boundariesFrom_cons.mpr (Or.inr ⟨[], cs, rfl, rfl⟩)⟩
        · rintro b ⟨hlt, hb⟩
          rcases mem_boundariesFrom_cons.mp hb with rfl | hb
          · omega
          · exact le_of_mem_boundariesFrom hb
      next hbehind =>
        have hleast := ih (by omega) hfound
        constructor
        · exact ⟨hleast.1.1, mem_boundariesFrom_cons.mpr (Or.inr hleast.1.2)⟩
        · rintro b ⟨hlt, hb⟩
          rcases mem_boundariesFrom_cons.mp hb with rfl | hb
          · omega
          · exact hleast.2 ⟨hlt, hb⟩

theorem boundaryAfter?_eq_none_iff {pos offset : Nat} {cs : List Char}
    (hoffset : offset ≤ pos) :
    boundaryAfter? pos offset cs = none ↔ offset + byteLength cs ≤ pos := by
  induction cs generalizing offset with
  | nil => simpa [boundaryAfter?] using hoffset
  | cons c cs ih =>
      rw [boundaryAfter?, byteLength_cons, ← Nat.add_assoc]
      split
      next hinside => simp; omega
      next hbehind => exact ih (by omega)

theorem boundariesFrom_zero (cs : List Char) :
    boundariesFrom 0 cs = {b | isBoundary b cs = true} := by
  ext b
  rw [Set.mem_ofPred_eq, isBoundary_iff]
  simp [boundariesFrom]

end Text

/-- What a step at byte `pos` of a line may come to. -/
def Step.Answers (line : List Char) (pos : Nat) : Step → Prop
  | .matched m =>
    pos < Text.byteLength line ∧
    Text.isBoundary pos line = true ∧
    m.span.start = pos ∧
    pos < m.span.stop ∧
    m.span.stop ≤ Text.byteLength line ∧
    Text.isBoundary m.span.stop line = true
  | .noMatch length =>
    1 ≤ length ∧
    (pos < Text.byteLength line →
      IsLeast {b | pos < b ∧ Text.isBoundary b line = true} (pos + length)) ∧
    (Text.byteLength line ≤ pos → length = 1)
  | .overflow => False

namespace RuleTable

variable {table : RuleTable} {line : List Char} {pos : Nat} {state : StateId}

theorem matched_answers {m : RuleMatch} (hmatch : table.matchAt? state line pos = some m) :
    (Step.matched m).Answers line pos := by
  obtain ⟨cursor, hcursor, hfirst⟩ := Option.bind_eq_some_iff.mp hmatch
  obtain ⟨⟨m, behind⟩, hfound, rfl⟩ := Option.map_eq_some_iff.mp hfirst
  obtain ⟨before, c, after, hline, hpos, rfl⟩ := Cursor.at?_eq_some_iff.mp hcursor
  have hfits := matchFrom?_fits hfound
  obtain ⟨taken, hrest, hoffset⟩ := hfits.reaches
  have hcut : line = before ++ taken ++ behind.rest := by
    rw [hline, List.append_assoc, ← hrest]
  have hlength := congrArg Text.byteLength hcut
  have hnonempty := hfits.nonempty
  rw [Text.byteLength_append, Text.byteLength_append] at hlength
  dsimp only at hoffset hnonempty
  rw [Step.Answers, hfits.span]
  refine ⟨by omega, Text.isBoundary_iff.mpr ⟨before, c :: after, hline, hpos⟩, rfl, hnonempty,
    by dsimp only; omega, Text.isBoundary_iff.mpr ⟨before ++ taken, behind.rest, hcut, ?_⟩⟩
  rw [Text.byteLength_append, ← hpos]
  exact hoffset

theorem matchAt?_eq_none_of_le (hpos : Text.byteLength line ≤ pos) :
    table.matchAt? state line pos = none := by
  by_contra hsome
  obtain ⟨m, hmatch⟩ := Option.ne_none_iff_exists'.mp hsome
  have hlt := (matched_answers hmatch).1
  omega

theorem noMatch_answers (hnone : table.matchAt? state line pos = none)
    (hpos : pos < greatestPosition) : (table.step line pos state).Answers line pos := by
  rw [step, hnone]
  simp only [hpos, if_true]
  cases hboundary : Text.boundaryAfter? pos 0 line with
  | none =>
      have hend := (Text.boundaryAfter?_eq_none_iff (Nat.zero_le pos)).mp hboundary
      rw [Nat.zero_add] at hend
      exact ⟨le_rfl, fun hinside => absurd hinside (by omega), fun _ => rfl⟩
  | some boundary =>
      have hleast := Text.boundaryAfter?_isLeast (Nat.zero_le pos) hboundary
      have hlt : pos < boundary := hleast.1.1
      have hinside : ¬ Text.byteLength line ≤ pos := by
        intro hend
        rw [(Text.boundaryAfter?_eq_none_iff (Nat.zero_le pos)).mpr (by omega)] at hboundary
        exact absurd hboundary.symm (Option.some_ne_none boundary)
      have hsum : pos + (boundary - pos) = boundary := by omega
      refine ⟨by omega, fun _ => ?_, fun hend => absurd hend hinside⟩
      rw [hsum]
      rwa [Text.boundariesFrom_zero] at hleast

theorem step_eq_matched_iff {m : RuleMatch} :
    table.step line pos state = .matched m ↔ table.matchAt? state line pos = some m := by
  rw [step]
  cases table.matchAt? state line pos with
  | some found => simp
  | none =>
      split_ifs
      · cases Text.boundaryAfter? pos 0 line <;> simp
      · simp

theorem step_eq_overflow (hline : Text.byteLength line ≤ greatestPosition) :
    table.step line greatestPosition state = .overflow := by
  rw [step, matchAt?_eq_none_of_le hline]
  exact if_neg (lt_irrefl _)

theorem step_answers (hpos : pos < greatestPosition) :
    (table.step line pos state).Answers line pos := by
  cases hmatch : table.matchAt? state line pos with
  | none => exact noMatch_answers hmatch hpos
  | some m =>
      rw [step_eq_matched_iff.mpr hmatch]
      exact matched_answers hmatch

/-- A step comes to an answer at every 64-bit position but the last one. -/
theorem step_answers_iff (table : RuleTable) (line : List Char) (state : StateId) (pos : UInt64)
    (hline : Text.byteLength line ≤ greatestPosition) :
    ((table.step line pos.toNat state).Answers line pos.toNat ↔
      pos.toNat ≠ greatestPosition) ∧
    (table.step line pos.toNat state = .overflow ↔ pos.toNat = greatestPosition) ∧
    ∀ m, table.step line pos.toNat state = .matched m ↔
      table.matchAt? state line pos.toNat = some m := by
  have hlast : table.step line greatestPosition state = .overflow := step_eq_overflow hline
  have hanswers : pos.toNat ≠ greatestPosition →
      (table.step line pos.toNat state).Answers line pos.toNat := by
    intro hne
    have hbound : pos.toNat ≤ greatestPosition := Nat.le_of_lt_succ pos.toNat_lt
    exact step_answers (by omega)
  refine ⟨⟨?_, hanswers⟩, ⟨?_, fun heq => heq ▸ hlast⟩, fun m => step_eq_matched_iff⟩
  · intro hanswer heq
    rw [heq, hlast] at hanswer
    exact hanswer
  · intro hoverflow
    by_contra hne
    have hanswer := hanswers hne
    rw [hoverflow] at hanswer
    exact hanswer

/-- A table with one rule, for the letter `a`. -/
def letterTable : RuleTable where
  states := [⟨startName, [⟨.whole .keyword, "a", .one (.single 'a'), none⟩]⟩]
  start := ⟨0⟩

/-- Where the rule matches, inside the second character, and at the last position
but one. -/
theorem step_answers_iff_inside :
    Text.byteLength "aé".toList ≤ greatestPosition ∧
    letterTable.step "aé".toList (0 : UInt64).toNat ⟨0⟩ =
      .matched ⟨.whole .keyword, ⟨0, 1⟩, ⟨0⟩, 0⟩ ∧
    (letterTable.step "aé".toList (2 : UInt64).toNat ⟨0⟩).Answers "aé".toList 2 ∧
    letterTable.step "aé".toList (2 : UInt64).toNat ⟨0⟩ = .noMatch 1 ∧
    (letterTable.step "aé".toList (18446744073709551614 : UInt64).toNat ⟨0⟩).Answers
      "aé".toList 18446744073709551614 := by
  have hline : Text.byteLength "aé".toList ≤ greatestPosition := by decide
  have hmatch : letterTable.matchAt? ⟨0⟩ "aé".toList (0 : UInt64).toNat =
      some ⟨.whole .keyword, ⟨0, 1⟩, ⟨0⟩, 0⟩ := by decide
  exact ⟨hline,
    ((step_answers_iff letterTable "aé".toList ⟨0⟩ 0 hline).2.2 _).mpr hmatch,
    (step_answers_iff letterTable "aé".toList ⟨0⟩ 2 hline).1.mpr (by decide), by decide,
    (step_answers_iff letterTable "aé".toList ⟨0⟩ 18446744073709551614 hline).1.mpr (by decide)⟩

/-- At the last position a step has no answer, on any line: here on an empty
one. -/
theorem step_overflows_at_last_position :
    ¬ (RuleTable.empty.step [] (18446744073709551615 : UInt64).toNat ⟨0⟩).Answers []
        18446744073709551615 ∧
    RuleTable.empty.step [] (18446744073709551615 : UInt64).toNat ⟨0⟩ = .overflow := by
  have hoverflow :
      RuleTable.empty.step [] (18446744073709551615 : UInt64).toNat ⟨0⟩ = .overflow := by
    decide
  rw [hoverflow]
  exact ⟨id, rfl⟩

end RuleTable

end Highlighter
