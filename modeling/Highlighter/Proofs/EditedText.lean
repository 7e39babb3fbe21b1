import Highlighter.Document
import Highlighter.Proofs.ByteOffsets
import Mathlib.Tactic

/-!
# What an edit does to a text

An edit replaces a stretch of the text that begins and ends between
characters.  `Edit.Replaces` says so of two texts, without mention of how the
stretch is found, and `Edited` follows a list of edits of which some may not
fit the text they meet.
-/

namespace Highlighter

/-- `new` is `old` with the bytes of the edit's range replaced. -/
def Edit.Replaces (edit : Edit) (old new : List Char) : Prop :=
  ∃ before cut after,
    old = before ++ cut ++ after ∧
    new = before ++ edit.text ++ after ∧
    edit.start = Text.byteLength before ∧
    edit.stop = Text.byteLength (before ++ cut)

theorem Edit.applyTo_eq_ok_iff {edit : Edit} {old new : List Char} :
    edit.applyTo old = .ok new ↔ edit.Replaces old new := by
  constructor
  · intro happly
    unfold Edit.applyTo at happly
    split at happly
    next => simp at happly
    next hinside =>
      split at happly
      next before _ _ after hstart hstop =>
        simp only [Except.ok.injEq] at happly
        subst happly
        obtain ⟨hbefore, hstart⟩ := Text.splitAt?_eq_some_iff.mp hstart
        obtain ⟨hafter, hstop⟩ := Text.splitAt?_eq_some_iff.mp hstop
        obtain ⟨cut, hcut, _⟩ :=
          Text.exists_between_cuts (hbefore.symm.trans hafter) (by omega)
        exact ⟨before, cut, after, by rw [hafter, hcut], rfl, hstart, by rw [hstop, hcut]⟩
      next => simp at happly
  · rintro ⟨before, cut, after, rfl, rfl, hstart, hstop⟩
    have hinside :
        ¬ (edit.stop < edit.start ∨
          Text.byteLength (before ++ cut ++ after) < edit.stop) := by
      rw [hstart, hstop]
      simp only [Text.byteLength_append]
      omega
    have hbefore :
        Text.splitAt? edit.start (before ++ cut ++ after) = some (before, cut ++ after) := by
      rw [hstart, List.append_assoc]
      exact Text.splitAt?_append before (cut ++ after)
    have hafter :
        Text.splitAt? edit.stop (before ++ cut ++ after) = some (before ++ cut, after) := by
      rw [hstop]
      exact Text.splitAt?_append (before ++ cut) after
    simp only [Edit.applyTo, if_neg hinside, hbefore, hafter]

theorem Edit.not_replaces_of_applyTo_eq_error
    {edit : Edit} {old : List Char} {error : EditError}
    (happly : edit.applyTo old = .error error) :
    ¬ ∃ new, edit.Replaces old new := by
  rintro ⟨new, hreplaces⟩
  rw [Edit.applyTo_eq_ok_iff.mpr hreplaces] at happly
  simp at happly

/-- The edits that fit are made in their order, the others are passed over. -/
inductive Edited : List Char → List Edit → List Char → Prop
  | done (text : List Char) : Edited text [] text
  | made {old new final : List Char} {edit : Edit} {edits : List Edit} :
      edit.Replaces old new → Edited new edits final → Edited old (edit :: edits) final
  | refused {old final : List Char} {edit : Edit} {edits : List Edit} :
      (¬ ∃ new, edit.Replaces old new) → Edited old edits final →
        Edited old (edit :: edits) final

theorem Edit.Replaces.unique {edit : Edit} {old new new' : List Char}
    (hnew : edit.Replaces old new) (hnew' : edit.Replaces old new') : new = new' := by
  rw [← Edit.applyTo_eq_ok_iff] at hnew hnew'
  rw [hnew] at hnew'
  exact Except.ok.inj hnew'

/-- A difference of two lengths is a signed number when both lengths are. -/
theorem Edit.Replaces.delta_eq_of_lt {edit : Edit} {old new : List Char}
    (hreplaces : edit.Replaces old new)
    (hold : Text.byteLength old < 0x8000000000000000)
    (hnew : Text.byteLength new < 0x8000000000000000) :
    edit.delta = (Text.byteLength new : Int) - Text.byteLength old := by
  obtain ⟨before, cut, after, rfl, rfl, hstart, hstop⟩ := hreplaces
  simp only [Text.byteLength_append] at hold hnew hstop ⊢
  have hcut : edit.stop - edit.start = Text.byteLength cut := by omega
  rw [delta, hcut, Int.bmod_eq_of_le (by omega) (by omega)]
  push_cast
  omega

theorem Edited.unique {old final final' : List Char} {edits : List Edit}
    (hfinal : Edited old edits final) (hfinal' : Edited old edits final') :
    final = final' := by
  induction hfinal with
  | done text =>
      cases hfinal'
      rfl
  | made hreplaces _ ih =>
      cases hfinal' with
      | made hreplaces' hrest =>
          rw [hreplaces'.unique hreplaces] at hrest
          exact ih hrest
      | refused hrefused _ => exact absurd ⟨_, hreplaces⟩ hrefused
  | refused hrefused _ ih =>
      cases hfinal' with
      | made hreplaces _ => exact absurd ⟨_, hreplaces⟩ hrefused
      | refused _ hrest => exact ih hrest

namespace Document

/-- The document after an edit, which is the same document if the edit does
not fit it, and what is left of it if the update stops. -/
def edited (document : Document) (edit : Edit) : Document :=
  match document.update edit with
  | .ok (after, _) => after
  | .error (.refused _) => document
  | .error (.stopped left) => left

def run (document : Document) (edits : List Edit) : Document :=
  edits.foldl edited document

@[simp] theorem run_nil (document : Document) : document.run [] = document := rfl

@[simp] theorem run_cons (document : Document) (edit : Edit) (edits : List Edit) :
    document.run (edit :: edits) = (document.edited edit).run edits := rfl

/-- An edit that fits the text is made if its window fits the lines, and stops
otherwise. -/
theorem update_of_replaces {document : Document} {edit : Edit} {text : List Char}
    (hreplaces : edit.Replaces document.text text) :
    document.update edit =
      if (document.window edit (LineIndex.ofText text)).Fits document.lineCount then
        .ok (document.rehighlight text (LineIndex.ofText text)
          (document.window edit (LineIndex.ofText text)))
      else .error (.stopped (document.withText text (LineIndex.ofText text))) := by
  rw [← Edit.applyTo_eq_ok_iff] at hreplaces
  simp only [update, hreplaces]

theorem update_of_applyTo_eq_error {document : Document} {edit : Edit} {error : EditError}
    (happly : edit.applyTo document.text = .error error) :
    document.update edit = .error (.refused error) := by
  simp only [update, happly]

theorem edited_of_update {document after : Document} {edit : Edit} {delta : DocumentDelta}
    (hupdate : document.update edit = .ok (after, delta)) : document.edited edit = after := by
  rw [edited, hupdate]

/-- An edit that fits the text is made, or its update stops behind the change of
the text; any other edit leaves the document alone. -/
theorem edited_cases (document : Document) (edit : Edit) :
    (∃ text,
      edit.Replaces document.text text ∧
      (document.window edit (LineIndex.ofText text)).Fits document.lineCount ∧
      document.edited edit =
        (document.rehighlight text (LineIndex.ofText text)
          (document.window edit (LineIndex.ofText text))).1) ∨
    (∃ text,
      edit.Replaces document.text text ∧
      ¬ (document.window edit (LineIndex.ofText text)).Fits document.lineCount ∧
      document.edited edit = document.withText text (LineIndex.ofText text)) ∨
    ((¬ ∃ text, edit.Replaces document.text text) ∧ document.edited edit = document) := by
  cases happly : edit.applyTo document.text with
  | ok text =>
      have hreplaces := Edit.applyTo_eq_ok_iff.mp happly
      have hupdate := update_of_replaces hreplaces
      by_cases hfits :
          (document.window edit (LineIndex.ofText text)).Fits document.lineCount
      · rw [if_pos hfits] at hupdate
        exact Or.inl ⟨text, hreplaces, hfits, by rw [edited, hupdate]⟩
      · rw [if_neg hfits] at hupdate
        exact Or.inr (Or.inl ⟨text, hreplaces, hfits, by rw [edited, hupdate]⟩)
  | error error =>
      have hupdate := update_of_applyTo_eq_error happly
      exact Or.inr (Or.inr ⟨Edit.not_replaces_of_applyTo_eq_error happly,
        by rw [edited, hupdate]⟩)

/-- The text is changed even where the update stops. -/
theorem edited_text {document : Document} {edit : Edit} {text : List Char}
    (hreplaces : edit.Replaces document.text text) : (document.edited edit).text = text := by
  rcases document.edited_cases edit with
    ⟨other, hother, _, hedited⟩ | ⟨other, hother, _, hedited⟩ | ⟨hrefused, _⟩
  · rw [hedited, hreplaces.unique hother]
    rfl
  · rw [hedited, hreplaces.unique hother]
    rfl
  · exact absurd ⟨text, hreplaces⟩ hrefused

theorem edited_of_not_replaces {document : Document} {edit : Edit}
    (hrefused : ¬ ∃ text, edit.Replaces document.text text) :
    document.edited edit = document := by
  rcases document.edited_cases edit with ⟨text, hreplaces, _⟩ | ⟨text, hreplaces, _⟩ | ⟨_, hedited⟩
  · exact absurd ⟨text, hreplaces⟩ hrefused
  · exact absurd ⟨text, hreplaces⟩ hrefused
  · exact hedited

private theorem edited_run_text (document : Document) (edits : List Edit) :
    Edited document.text edits (document.run edits).text := by
  induction edits generalizing document with
  | nil => exact Edited.done document.text
  | cons edit edits ih =>
      have hrest := ih (document.edited edit)
      rw [run_cons]
      by_cases hfits : ∃ text, edit.Replaces document.text text
      · obtain ⟨text, hreplaces⟩ := hfits
        rw [edited_text hreplaces] at hrest
        exact Edited.made hreplaces hrest
      · rw [edited_of_not_replaces hfits] at hrest ⊢
        exact Edited.refused hfits hrest

theorem edited_iff_run_text
    (document : Document) (edits : List Edit) (final : List Char) :
    Edited document.text edits final ↔ (document.run edits).text = final := by
  constructor
  · exact (edited_run_text document edits).unique
  · rintro rfl
    exact edited_run_text document edits

end Document

end Highlighter
