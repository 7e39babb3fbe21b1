import Highlighter.Mode.Basic
import Highlighter.Proofs.TakenTexts
import Mathlib.Tactic

/-!
# Toggling a comment twice

A line is its indentation and a content that does not begin with a space or a
tab.  Commenting out puts the marker and a space between the two, so toggling
again finds the marker at once and takes both away.  Commenting in is undone
only if nothing else of the line is touched: the marker had its space, and
what it uncovers is neither indentation nor another marker.
-/

namespace Highlighter

/-- The text begins neither with a space nor with a tab. -/
def Flush (text : List Char) : Prop :=
  ∀ c, text.head? = some c → isIndent c = false

theorem flush_append {front : List Char} (hne : front ≠ []) (hflush : Flush front)
    (back : List Char) : Flush (front ++ back) := by
  intro c hc
  rw [List.head?_append_of_ne_nil front hne] at hc
  exact hflush c hc

section Lines

variable {indent content : List Char}

theorem nextLineIndent_append (hindent : ∀ c ∈ indent, isIndent c = true)
    (hflush : Flush content) : nextLineIndent (indent ++ content) = indent :=
  takeWhile_append_eq hindent hflush

theorem dropWhile_isIndent_append (hindent : ∀ c ∈ indent, isIndent c = true)
    (hflush : Flush content) : (indent ++ content).dropWhile isIndent = content := by
  rw [← drop_length_takeWhile, takeWhile_append_eq hindent hflush, List.drop_left]

theorem exists_indent_content (line : List Char) :
    ∃ indent content,
      line = indent ++ content ∧
      (∀ c ∈ indent, isIndent c = true) ∧
      Flush content := by
  refine ⟨line.takeWhile isIndent, line.dropWhile isIndent, ?_, ?_, ?_⟩
  · exact List.takeWhile_append_dropWhile.symm
  · exact fun c hc => List.mem_takeWhile_imp hc
  · exact fun c hc => eq_false_of_head?_dropWhile hc

end Lines

theorem strip?_eq_some_iff {front text body : List Char} :
    strip? front text = some body ↔ text = front ++ body := by
  induction front generalizing text with
  | nil => simp [strip?]
  | cons b bs ih =>
      cases text with
      | nil => simp [strip?]
      | cons c cs =>
          rw [strip?, List.cons_append, List.cons.injEq]
          by_cases hsame : b = c
          · simp [hsame, ih]
          · simp [hsame, Ne.symm hsame]

theorem strip?_eq_none_iff {front text : List Char} :
    strip? front text = none ↔ ¬ front <+: text := by
  rw [Option.eq_none_iff_forall_ne_some]
  simp only [ne_eq, strip?_eq_some_iff]
  constructor
  · rintro hnone ⟨body, hbody⟩
    exact hnone body hbody.symm
  · rintro hnot body rfl
    exact hnot (List.prefix_append front body)

/-- What commenting in leaves of the text behind the marker. -/
def uncommented (body : List Char) : List Char :=
  (strip? [' '] body).getD body

theorem uncommented_cons_space (body : List Char) : uncommented (' ' :: body) = body := by
  simp [uncommented, strip?]

theorem uncommented_cases (body : List Char) :
    body = ' ' :: uncommented body ∨ uncommented body = body := by
  cases hstrip : strip? [' '] body with
  | none => exact Or.inr (by simp [uncommented, hstrip])
  | some rest =>
      left
      simpa [uncommented, hstrip] using strip?_eq_some_iff.mp hstrip

theorem length_uncommented_le (body : List Char) : (uncommented body).length ≤ body.length := by
  rcases uncommented_cases body with hspace | hsame
  · have hlength := congrArg List.length hspace
    rw [List.length_cons] at hlength
    omega
  · rw [hsame]

namespace Mode

variable {marker indent content body : List Char}

theorem toggleWith_out (hindent : ∀ c ∈ indent, isIndent c = true) (hflush : Flush content)
    (hplain : ¬ marker <+: content) :
    toggleWith marker (indent ++ content) = indent ++ (marker ++ ' ' :: content) := by
  have hstrip := strip?_eq_none_iff.mpr hplain
  simp only [toggleWith, nextLineIndent_append hindent hflush,
    dropWhile_isIndent_append hindent hflush, hstrip, List.append_assoc]

section Marked

variable (hne : marker ≠ []) (hmarker : Flush marker)

include hne hmarker

theorem toggleWith_in (hindent : ∀ c ∈ indent, isIndent c = true) (body : List Char) :
    toggleWith marker (indent ++ (marker ++ body)) = indent ++ uncommented body := by
  have hflush := flush_append hne hmarker body
  have hstrip : strip? marker (marker ++ body) = some body := strip?_eq_some_iff.mpr rfl
  simp only [toggleWith, nextLineIndent_append hindent hflush,
    dropWhile_isIndent_append hindent hflush, hstrip, uncommented]

/-- A line that is commented out comes back when it is commented in. -/
theorem toggleWith_out_in (hindent : ∀ c ∈ indent, isIndent c = true) (content : List Char) :
    toggleWith marker (indent ++ (marker ++ ' ' :: content)) = indent ++ content := by
  rw [toggleWith_in hne hmarker hindent, uncommented_cons_space]

theorem length_toggleWith_in_lt (hindent : ∀ c ∈ indent, isIndent c = true) (body : List Char) :
    (toggleWith marker (indent ++ (marker ++ body))).length <
      (indent ++ (marker ++ body)).length := by
  have hle := length_uncommented_le body
  have hpos := List.length_pos_of_ne_nil hne
  rw [toggleWith_in hne hmarker hindent]
  simp only [List.length_append]
  omega

/-- Commenting out puts back what was uncovered only if it was uncovered
right behind the indentation. -/
theorem nil_of_append_marker_eq {blanks inner : List Char}
    (hblanks : ∀ c ∈ blanks, isIndent c = true)
    (hsame : blanks ++ (marker ++ ' ' :: inner) = marker ++ body) :
    blanks = [] ∧ body = ' ' :: inner := by
  have hnil : blanks = [] := by
    cases blanks with
    | nil => rfl
    | cons b bs =>
        obtain ⟨c, cs, rfl⟩ := List.exists_cons_of_ne_nil hne
        have hb : isIndent b = true := hblanks b List.mem_cons_self
        have hbc : b = c := (List.cons.inj hsame).1
        rw [hbc, hmarker c rfl] at hb
        exact absurd hb Bool.false_ne_true
  rw [hnil, List.nil_append] at hsame
  exact ⟨hnil, (List.append_cancel_left hsame).symm⟩

theorem toggleWith_in_twice_iff (hindent : ∀ c ∈ indent, isIndent c = true) (body : List Char) :
    toggleWith marker (toggleWith marker (indent ++ (marker ++ body))) =
        indent ++ (marker ++ body) ↔
      ∃ rest, body = ' ' :: rest ∧ Flush rest ∧ ¬ marker <+: rest := by
  rw [toggleWith_in hne hmarker hindent]
  constructor
  · intro htwice
    obtain ⟨blanks, inner, hsplit, hblanks, hflush⟩ := exists_indent_content (uncommented body)
    have hall : ∀ c ∈ indent ++ blanks, isIndent c = true := by
      intro c hc
      rcases List.mem_append.mp hc with hc | hc
      · exact hindent c hc
      · exact hblanks c hc
    rw [hsplit, ← List.append_assoc] at htwice
    by_cases hinner : marker <+: inner
    -- Two markers are gone and none is put back, so the line has become shorter.
    · obtain ⟨more, rfl⟩ := hinner
      have hshort := length_toggleWith_in_lt hne hmarker hall more
      have hle := length_uncommented_le body
      rw [htwice] at hshort
      rw [hsplit] at hle
      simp only [List.length_append] at hshort hle
      omega
    · rw [toggleWith_out hall hflush hinner, List.append_assoc] at htwice
      obtain ⟨rfl, hbody⟩ :=
        nil_of_append_marker_eq hne hmarker hblanks (List.append_cancel_left htwice)
      exact ⟨inner, hbody, hflush, hinner⟩
  · rintro ⟨rest, rfl, hflush, hplain⟩
    rw [uncommented_cons_space, toggleWith_out hindent hflush hplain]

end Marked

/-- Toggling twice gives a line back exactly if it is not commented out, or is
commented out as toggling does it.  A line that is not commented out goes
through the line with marker and space behind the indentation. -/
theorem toggle_twice_iff (mode : Mode) (marker : String)
    (hmarker : mode.lineComment = some marker)
    (hne : marker ≠ "")
    (hflush : Flush marker.toList)
    (line : List Char) :
    ∃ indent content,
      line = indent ++ content ∧
      (∀ c ∈ indent, isIndent c = true) ∧
      Flush content ∧
      ((mode.toggleLineComment line).bind mode.toggleLineComment = some line ↔
        ¬ marker.toList <+: content ∨
        ∃ body,
          content = marker.toList ++ ' ' :: body ∧
          Flush body ∧
          ¬ marker.toList <+: body) ∧
      (¬ marker.toList <+: content →
        mode.toggleLineComment line = some (indent ++ (marker.toList ++ ' ' :: content)) ∧
        mode.toggleLineComment (indent ++ (marker.toList ++ ' ' :: content)) = some line) := by
  have hnil : marker.toList ≠ [] := by
    rwa [ne_eq, String.toList_eq_nil_iff]
  have htoggle : ∀ text, mode.toggleLineComment text = some (toggleWith marker.toList text) := by
    intro text
    rw [toggleLineComment, hmarker, Option.map_some]
  obtain ⟨indent, content, rfl, hindent, hcontent⟩ := exists_indent_content line
  have hout : ¬ marker.toList <+: content →
      toggleWith marker.toList (indent ++ content) =
        indent ++ (marker.toList ++ ' ' :: content) :=
    toggleWith_out hindent hcontent
  have hback := toggleWith_out_in hnil hflush hindent content
  refine ⟨indent, content, rfl, hindent, hcontent, ?_, ?_⟩
  · simp only [htoggle, Option.bind_some, Option.some.injEq]
    by_cases hplain : marker.toList <+: content
    · obtain ⟨body, rfl⟩ := hplain
      rw [toggleWith_in_twice_iff hnil hflush hindent]
      simp [List.prefix_append]
    · rw [hout hplain]
      exact ⟨fun _ => Or.inl hplain, fun _ => hback⟩
  · intro hplain
    rw [htoggle, htoggle, hout hplain, hback]
    exact ⟨rfl, rfl⟩

/-- A marker that overlaps itself, behind a tab. -/
theorem toggle_twice_iff_overlapping :
    let mode : Mode := { plainText with lineComment := some "--" }
    mode.lineComment = some "--" ∧
    "--" ≠ "" ∧
    Flush "--".toList ∧
    (mode.toggleLineComment "\t-- -".toList).bind mode.toggleLineComment =
      some "\t-- -".toList ∧
    (mode.toggleLineComment "\t---".toList).bind mode.toggleLineComment ≠
      some "\t---".toList := by
  intro mode
  have hflush : Flush "--".toList := by
    intro c hc
    obtain rfl : '-' = c := Option.some.inj hc
    rfl
  have htwice := toggle_twice_iff mode "--" rfl (by decide) hflush
  refine ⟨rfl, by decide, hflush, ?_, ?_⟩
  · obtain ⟨indent, content, hline, hindent, hcontent, hiff, _⟩ := htwice "\t-- -".toList
    have hsplit : content = "-- -".toList := by
      rw [← dropWhile_isIndent_append hindent hcontent, ← hline]
      decide
    refine hiff.mpr (Or.inr ⟨['-'], hsplit, ?_, by decide⟩)
    intro c hc
    obtain rfl : '-' = c := Option.some.inj hc
    rfl
  · obtain ⟨indent, content, hline, hindent, hcontent, hiff, _⟩ := htwice "\t---".toList
    have hsplit : content = "---".toList := by
      rw [← dropWhile_isIndent_append hindent hcontent, ← hline]
      decide
    rw [ne_eq, hiff, hsplit]
    rintro (hplain | ⟨body, hbody, _⟩)
    · exact hplain (by decide)
    · simp at hbody

end Mode

end Highlighter
