import Highlighter.Pattern.CharSet
import Highlighter.Text.WordChar
import Mathlib.Tactic

/-!
# Members of character sets

Which characters belong to the sets that patterns are made of, told without
their ranges of code points.
-/

namespace Highlighter

theorem Text.RangeTable.exists_range_of_containsCode {n : Nat} {table : Text.RangeTable}
    (hcontains : table.containsCode n = true) :
    ∃ range ∈ table, range.1 ≤ n ∧ n ≤ range.2 := by
  induction table with
  | nil => simp [containsCode] at hcontains
  | cons range table ih =>
      obtain ⟨lo, hi⟩ := range
      rw [containsCode] at hcontains
      split at hcontains
      next => simp at hcontains
      next hlo =>
        rw [Bool.or_eq_true, decide_eq_true_eq] at hcontains
        rcases hcontains with hhi | hlater
        · exact ⟨(lo, hi), List.mem_cons_self, Nat.le_of_not_lt hlo, hhi⟩
        · obtain ⟨range, hrange, hbounds⟩ := ih hlater
          exact ⟨range, List.mem_cons_of_mem _ hrange, hbounds⟩

namespace CharSet

@[simp] theorem contains_nil (c : Char) : contains ⟨[]⟩ c = false :=
  rfl

@[simp] theorem contains_cons (lo hi : Nat) (ranges : Text.RangeTable) (c : Char) :
    contains ⟨(lo, hi) :: ranges⟩ c =
      if c.toNat < lo then false else decide (c.toNat ≤ hi) || contains ⟨ranges⟩ c :=
  rfl

theorem contains_range {lo hi c : Char} :
    (range lo hi).contains c = true ↔ lo.toNat ≤ c.toNat ∧ c.toNat ≤ hi.toNat := by
  simp [range]

theorem contains_single {a c : Char} : (single a).contains c = true ↔ c = a := by
  rw [single, contains_range, ← Char.toNat_inj]
  omega

theorem mem_of_contains_singles {cs : List Char} {c : Char}
    (hc : contains ⟨cs.map fun d => (d.toNat, d.toNat)⟩ c = true) : c ∈ cs := by
  induction cs with
  | nil => simp at hc
  | cons d cs ih =>
      rw [List.map_cons, contains_cons] at hc
      by_cases hlt : c.toNat < d.toNat
      · simp [hlt] at hc
      · rw [if_neg hlt, Bool.or_eq_true, decide_eq_true_eq] at hc
        rcases hc with hle | hrest
        · have heq : c = d := Char.toNat_inj.mp (by omega)
          exact heq ▸ List.mem_cons_self
        · exact List.mem_cons_of_mem d (ih hrest)

theorem toNat_cases (c : Char) :
    c.toNat < 0xD800 ∨ 0xDFFF < c.toNat ∧ c.toNat < 0x110000 :=
  c.valid

-- Surrogates are the one place where the ranges leave a gap around the character.
theorem contains_compl_single {a c : Char} : (single a).compl.contains c = true ↔ c ≠ a := by
  have ha := toNat_cases a
  have hc := toNat_cases c
  rw [ne_eq, ← Char.toNat_inj]
  simp only [compl, single, range, gaps, gapsAfter, codeBefore, codeAfter, greatestCode]
  by_cases hpos : 0 < a.toNat
  · by_cases hlast : a.toNat < 0x10FFFF
    · simp only [hpos, hlast, if_true, contains_cons, contains_nil]
      split_ifs <;> simp <;> omega
    · simp only [hpos, hlast, if_true, if_false, contains_cons, contains_nil]
      split_ifs <;> simp <;> omega
  · have hzero : a.toNat = 0 := by omega
    simp [hzero]
    omega

theorem contains_asciiDigit (c : Char) : asciiDigit.contains c = c.isDigit := by
  rw [Bool.eq_iff_iff, asciiDigit, contains_range]
  simp [Char.isDigit, UInt32.le_iff_toNat_le]

theorem contains_nonzeroDigit {c : Char} :
    (range '1' '9').contains c = true ↔ c.isDigit = true ∧ c ≠ '0' := by
  have hzero : c = '0' ↔ c.toNat = 48 := Char.toNat_inj.symm
  rw [← contains_asciiDigit, asciiDigit, contains_range, contains_range, ne_eq, hzero]
  change 49 ≤ c.toNat ∧ c.toNat ≤ 57 ↔ (48 ≤ c.toNat ∧ c.toNat ≤ 57) ∧ ¬ c.toNat = 48
  omega

end CharSet

end Highlighter
