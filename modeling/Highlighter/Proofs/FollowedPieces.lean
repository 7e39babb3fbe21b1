import Highlighter.Proofs.LineCover
import Highlighter.Proofs.TakenTexts
import Mathlib.Tactic

/-!
# Pieces and what follows them

A property of pieces that may also speak of the text behind them, as "no digit
follows", holds of the pieces of a scan if every step keeps it: the pieces of
the later steps are what is left of the line.

A step is a match, so the property has to be shown of what rules take.  A rule
with one label gives its text as one piece; groups that lie side by side are
one piece each.
-/

namespace Highlighter

/-- Every piece has the property, told together with the text behind it. -/
def EachFollowed (keeps : Piece → List Char → Prop) : List Piece → List Char → Prop
  | [], _ => True
  | piece :: pieces, after =>
    keeps piece (pieces.flatMap (·.text) ++ after) ∧ EachFollowed keeps pieces after

section Followed

variable {keeps : Piece → List Char → Prop}

theorem eachFollowed_append {xs ys : List Piece} {after : List Char} :
    EachFollowed keeps (xs ++ ys) after ↔
      EachFollowed keeps xs (ys.flatMap (·.text) ++ after) ∧ EachFollowed keeps ys after := by
  induction xs with
  | nil => simp [EachFollowed]
  | cons x xs ih => simp [EachFollowed, ih, and_assoc]

theorem RuleTable.Scans.eachFollowed {table : RuleTable} {cap : Option Nat}
    (hstep : ∀ {cursor behind state next pieces},
      table.ScanStep cursor state pieces behind next → EachFollowed keeps pieces behind.rest)
    (hremainder : ∀ cursor : Cursor, keeps cursor.remainder [])
    {cursor : Cursor} {state : StateId} {count : Nat} {result : List Piece × StateId}
    (hscan : table.Scans cap cursor state count result) : EachFollowed keeps result.1 [] := by
  induction hscan using RuleTable.Scans.step_induction with
  | done => trivial
  | capped => exact ⟨hremainder _, trivial⟩
  | step _ _ hone hafter ih =>
      refine eachFollowed_append.mpr ⟨?_, ih⟩
      rw [hafter.tiles.flatten, List.append_nil]
      exact hstep hone

/-- A group that begins where the last cut lies is cut off behind it. -/
theorem groupCuts_abutting {start stop : Nat} (hlt : start < stop) (last : Nat) (label : Label)
    (groups : List (Label × Span)) :
    groupCuts last start ((label, ⟨start, stop⟩) :: groups) =
      (.label label, stop) :: groupCuts last stop groups := by
  have hopen : ¬ stop ≤ start := by omega
  simp [groupCuts, Span.isEmpty, hopen]

theorem cutPieces_after {cursor : Cursor} {text : List Char} (htext : text <+: cursor.rest)
    (mark : Mark) (cuts : List (Mark × Nat)) :
    cutPieces cursor.offset cursor.rest ((mark, (cursor.after text).offset) :: cuts) =
      ⟨mark, ⟨cursor.offset, (cursor.after text).offset⟩, text⟩ ::
        cutPieces (cursor.after text).offset (cursor.after text).rest cuts := by
  obtain ⟨back, hrest⟩ := htext
  have hlength : (cursor.after text).offset - cursor.offset = Text.byteLength text := by simp
  rw [cutPieces, hlength, Cursor.rest_after, ← hrest, Text.takeBytes_append,
    Text.dropBytes_append, List.drop_left]

/-- The mark of a rule whose matches are one piece. -/
def Labelling.mark? : Labelling → Option Mark
  | .whole label => some (.label label)
  | .classify => some .classify
  | .groups _ => none

theorem Rule.cuts_report {rule : Rule} {mark : Mark} (hmark : rule.labelling.mark? = some mark)
    (state : StateId) (cursor : Cursor) (thread : Thread) (place : Nat) :
    (rule.report state cursor thread place).cuts = [(mark, thread.cursor.offset)] := by
  simp only [RuleMatch.cuts, Rule.report]
  cases hlabelling : rule.labelling with
  | whole label =>
      rw [hlabelling] at hmark
      obtain rfl := Option.some.inj hmark
      rfl
  | classify =>
      rw [hlabelling] at hmark
      obtain rfl := Option.some.inj hmark
      rfl
  | groups labels => simp [hlabelling, Labelling.mark?] at hmark

/-- Where the rule matches, it takes a text with this property, told together
with the text behind it. -/
def Rule.Gives (rule : Rule) (shape : List Char → List Char → Prop) : Prop :=
  ∀ cursor thread, rule.Takes cursor thread →
    ∃ text,
      text <+: cursor.rest ∧
      thread.cursor = cursor.after text ∧
      shape text (cursor.after text).rest

theorem Rule.gives_of_accepts {rule : Rule} {language : Cursor → List Char → Prop}
    {shape : List Char → List Char → Prop} (haccepts : rule.plan.Accepts language)
    (hshape : ∀ cursor text, language cursor text → shape text (cursor.after text).rest) :
    rule.Gives shape := by
  intro cursor thread htakes
  have hway := Plan.matchAt?_mem_ways htakes.1
  obtain ⟨text, htext, hlanguage, hplace⟩ := (haccepts _ _).mp hway
  exact ⟨text, htext, congrArg Place.cursor hplace, hshape cursor text hlanguage⟩

/-- A rule without marks that matches nothing accepts no text there. -/
theorem Rule.not_accepted {rule : Rule} {language : Cursor → List Char → Prop} {cursor : Cursor}
    (hunmarked : rule.plan.unmarked = true) (haccepts : rule.plan.Accepts language)
    (hnil : ¬ language cursor []) (hfree : ∀ thread, ¬ rule.Takes cursor thread)
    {text : List Char} (htext : text <+: cursor.rest) : ¬ language cursor text := by
  intro hlanguage
  have hway := (haccepts (.start cursor) _).mpr ⟨text, htext, hlanguage, rfl⟩
  have hhead := Plan.matchAt?_eq_head? hunmarked cursor
  cases hmatch : rule.plan.matchAt? cursor with
  | none =>
      rw [hmatch, Option.map_none, eq_comm, List.head?_eq_none_iff] at hhead
      rw [hhead] at hway
      exact List.not_mem_nil hway
  | some thread =>
      obtain ⟨taken, _, htaken, hplace⟩ := (haccepts _ _).mp (Plan.matchAt?_mem_ways hmatch)
      have hne : taken ≠ [] := by
        rintro rfl
        exact hnil htaken
      have hcursor : thread.cursor = cursor.after taken := congrArg Place.cursor hplace
      have hpos := Text.byteLength_pos hne
      refine hfree thread ⟨hmatch, ?_⟩
      rw [hcursor, Cursor.offset_after]
      omega

/-- Without marks a rule takes the text of its first way. -/
theorem Rule.exists_takes {rule : Rule} {cursor : Cursor} {text : List Char}
    (hunmarked : rule.plan.unmarked = true) (hne : text ≠ [])
    (hhead : (rule.plan.ways (.start cursor)).head? = some ((Place.start cursor).after text)) :
    ∃ thread, rule.Takes cursor thread ∧ thread.cursor = cursor.after text := by
  have hmatch := Plan.matchAt?_eq_head? hunmarked cursor
  rw [hhead, Option.map_eq_some_iff] at hmatch
  obtain ⟨thread, hthread, hplace⟩ := hmatch
  have hcursor : thread.cursor = cursor.after text := congrArg Place.cursor hplace
  have hpos := Text.byteLength_pos hne
  refine ⟨thread, ⟨hthread, ?_⟩, hcursor⟩
  rw [hcursor, Cursor.offset_after]
  omega

/-- A text that stands at the cursor, as one piece. -/
def Cursor.piece (cursor : Cursor) (mark : Mark) (text : List Char) : Piece :=
  ⟨mark, ⟨cursor.offset, (cursor.after text).offset⟩, text⟩

/-- Where a rule with one label wins, the text that it takes is one piece. -/
theorem RuleTable.scanStep_of_wins {table : RuleTable} {rule : Rule} {mark : Mark}
    {cursor : Cursor} {thread : Thread} {state : StateId} {place : Nat} {text : List Char}
    (hwins : rule.Wins cursor thread (table.rules state) place)
    (hmark : rule.labelling.mark? = some mark)
    (htext : text <+: cursor.rest) (hcursor : thread.cursor = cursor.after text) :
    table.ScanStep cursor state [cursor.piece mark text] (cursor.after text)
      (rule.next.getD state) := by
  have hne : cursor.rest ≠ [] := by
    intro hrest
    rw [hrest, List.prefix_nil] at htext
    have hmoved := hwins.takes.2
    rw [hcursor, htext] at hmoved
    exact absurd hmoved (lt_irrefl _)
  have hstep := ScanStep.matched hne (firstMatch?_of_wins hwins 0)
  rw [rule.cuts_report hmark, hcursor, cutPieces_after htext] at hstep
  exact hstep

theorem Rule.eachFollowed_single {rule : Rule} {mark : Mark} {cursor : Cursor} {thread : Thread}
    {text : List Char} (hmark : rule.labelling.mark? = some mark)
    (htext : text <+: cursor.rest) (hcursor : thread.cursor = cursor.after text)
    (hkeeps : ∀ span, keeps ⟨mark, span, text⟩ (cursor.after text).rest)
    (state : StateId) (place : Nat) :
    EachFollowed keeps
      (cutPieces cursor.offset cursor.rest (rule.report state cursor thread place).cuts)
      thread.cursor.rest := by
  rw [rule.cuts_report hmark, hcursor, cutPieces_after htext]
  exact ⟨hkeeps _, trivial⟩

end Followed

end Highlighter
