import Highlighter.Proofs.OverlongTexts

/-!
# Edits that do not fit

An edit is refused for its bounds, or else because it would split a character.
A refused edit is as good as one never asked for: a document that was given
some edits is the one that was given those of them that it accepted, it counts
these, and its text has grown by what they add.

As long as no text goes beyond the greatest offset, to be refused is all that an
edit can fail by.  A longer text leaves lines behind that the index does not
know, and an edit that fits may then stop halfway.
-/

namespace Highlighter

/-- Why an edit does not fit a text; its bounds are looked at first. -/
inductive Edit.Misfits (edit : Edit) (text : List Char) : EditError → Prop
  | outOfBounds :
      edit.stop < edit.start ∨ Text.byteLength text < edit.stop →
        edit.Misfits text (.outOfBounds edit.start edit.stop (Text.byteLength text))
  | notBoundary :
      edit.start ≤ edit.stop → edit.stop ≤ Text.byteLength text →
        Text.isBoundary edit.start text = false ∨ Text.isBoundary edit.stop text = false →
          edit.Misfits text (.notBoundary edit.start edit.stop)

theorem Text.isBoundary_eq_false_iff {n : Nat} {cs : List Char} :
    isBoundary n cs = false ↔ splitAt? n cs = none := by
  rw [isBoundary, Option.isSome_eq_false_iff, Option.isNone_iff_eq_none]

theorem Edit.applyTo_eq_error_iff {edit : Edit} {text : List Char} {error : EditError} :
    edit.applyTo text = .error error ↔ edit.Misfits text error := by
  unfold Edit.applyTo
  constructor
  · intro happly
    split at happly
    next hbounds =>
      cases happly
      exact .outOfBounds hbounds
    next hbounds =>
      split at happly
      next => cases happly
      next hsplit =>
        cases happly
        apply Misfits.notBoundary (by omega) (by omega)
        rw [Text.isBoundary_eq_false_iff, Text.isBoundary_eq_false_iff]
        cases hstart : Text.splitAt? edit.start text with
        | none => exact Or.inl rfl
        | some front =>
            cases hstop : Text.splitAt? edit.stop text with
            | none => exact Or.inr rfl
            | some back => exact absurd hstop (hsplit _ _ _ _ hstart)
  · intro hmisfits
    cases hmisfits with
    | outOfBounds hbounds => rw [if_pos hbounds]
    | notBoundary hle hlength hsplit =>
        rw [if_neg (by omega)]
        rw [Text.isBoundary_eq_false_iff, Text.isBoundary_eq_false_iff] at hsplit
        rcases hsplit with hstart | hstop
        · rw [hstart]
        · rw [hstop]
          cases Text.splitAt? edit.start text <;> rfl

theorem Edit.exists_misfits_iff {edit : Edit} {text : List Char} :
    (∃ error, edit.Misfits text error) ↔
      edit.stop < edit.start ∨ Text.byteLength text < edit.stop ∨
        Text.isBoundary edit.start text = false ∨ Text.isBoundary edit.stop text = false := by
  constructor
  · rintro ⟨_, hbounds | ⟨_, _, hsplit⟩⟩
    · tauto
    · tauto
  · intro hmisfit
    by_cases hbounds : edit.stop < edit.start ∨ Text.byteLength text < edit.stop
    · exact ⟨_, .outOfBounds hbounds⟩
    · exact ⟨_, .notBoundary (by omega) (by omega) (by tauto)⟩

namespace Document

theorem update_eq_refused_iff {document : Document} {edit : Edit} {error : EditError} :
    document.update edit = .error (.refused error) ↔ edit.Misfits document.text error := by
  rw [← Edit.applyTo_eq_error_iff]
  cases happly : edit.applyTo document.text with
  | error other => simp [update_of_applyTo_eq_error happly]
  | ok text =>
      rw [update_of_replaces (Edit.applyTo_eq_ok_iff.mp happly)]
      split <;> simp

theorem edited_of_refused {document : Document} {edit : Edit} {error : EditError}
    (hupdate : document.update edit = .error (.refused error)) :
    document.edited edit = document := by
  rw [edited, hupdate]

/-- Whether the edit fits the text of the document. -/
def accepts (document : Document) (edit : Edit) : Bool :=
  (edit.applyTo document.text).isOk

/-- Of some edits the ones that the document accepts when they are made one
after another. -/
def accepted (document : Document) : List Edit → List Edit
  | [] => []
  | edit :: edits =>
    if document.accepts edit then edit :: (document.edited edit).accepted edits
    else document.accepted edits

/-- An edit changes the text and is counted, or is passed over. -/
theorem accepts_cases (document : Document) (edit : Edit) :
    (document.accepts edit = true ∧
      edit.Replaces document.text (document.edited edit).text ∧
      (document.edited edit).version = document.version + 1) ∨
    (document.accepts edit = false ∧ document.edited edit = document) := by
  cases happly : edit.applyTo document.text with
  | error error =>
      have hupdate := update_of_applyTo_eq_error happly
      exact Or.inr ⟨by rw [accepts, happly]; rfl, edited_of_refused hupdate⟩
  | ok text =>
      have hreplaces := Edit.applyTo_eq_ok_iff.mp happly
      refine Or.inl ⟨by rw [accepts, happly]; rfl, ?_, ?_⟩
      · rwa [edited_text hreplaces]
      · rcases document.edited_cases edit with
          ⟨_, _, _, hedited⟩ | ⟨_, _, _, hedited⟩ | ⟨hrefused, _⟩
        · rw [hedited]
          rfl
        · rw [hedited]
          rfl
        · exact absurd ⟨text, hreplaces⟩ hrefused

theorem accepted_cons_of_accepts {document : Document} {edit : Edit}
    (haccepts : document.accepts edit = true) (edits : List Edit) :
    document.accepted (edit :: edits) = edit :: (document.edited edit).accepted edits := by
  rw [accepted, if_pos haccepts]

theorem accepted_cons_of_not_accepts {document : Document} {edit : Edit}
    (haccepts : document.accepts edit = false) (edits : List Edit) :
    document.accepted (edit :: edits) = document.accepted edits := by
  rw [accepted, if_neg (by simp [haccepts])]

/-- What holds of a document and the edits that are to be made, when each edit
either changes the document or is passed over. -/
theorem edits_induction {motive : Document → List Edit → Prop}
    (nil : ∀ document, motive document [])
    (accepted : ∀ document edit edits,
      document.accepts edit = true →
      edit.Replaces document.text (document.edited edit).text →
      (document.edited edit).version = document.version + 1 →
      motive (document.edited edit) edits → motive document (edit :: edits))
    (refused : ∀ document edit edits,
      document.accepts edit = false → document.edited edit = document →
      motive document edits → motive document (edit :: edits))
    (document : Document) (edits : List Edit) : motive document edits := by
  induction edits generalizing document with
  | nil => exact nil document
  | cons edit edits ih =>
      rcases document.accepts_cases edit with
        ⟨haccepts, hreplaces, hversion⟩ | ⟨haccepts, hedited⟩
      · exact accepted document edit edits haccepts hreplaces hversion (ih _)
      · exact refused document edit edits haccepts hedited (ih _)

theorem run_accepted (document : Document) (edits : List Edit) :
    document.run (document.accepted edits) = document.run edits := by
  induction document, edits using edits_induction with
  | nil document => rfl
  | accepted document edit edits haccepts _ _ ih =>
      rw [accepted_cons_of_accepts haccepts, run_cons, run_cons, ih]
  | refused document edit edits haccepts hedited ih =>
      rw [accepted_cons_of_not_accepts haccepts, run_cons, hedited, ih]

theorem accepted_accepted (document : Document) (edits : List Edit) :
    document.accepted (document.accepted edits) = document.accepted edits := by
  induction document, edits using edits_induction with
  | nil document => rfl
  | accepted document edit edits haccepts _ _ ih =>
      rw [accepted_cons_of_accepts haccepts, accepted_cons_of_accepts haccepts, ih]
  | refused document edit edits haccepts _ ih =>
      rw [accepted_cons_of_not_accepts haccepts, ih]

theorem version_run (document : Document) (edits : List Edit) :
    (document.run edits).version =
      document.version + UInt64.ofNat (document.accepted edits).length := by
  induction document, edits using edits_induction with
  | nil document => simp [accepted]
  | accepted document edit edits haccepts _ hversion ih =>
      rw [run_cons, ih, hversion, accepted_cons_of_accepts haccepts, List.length_cons,
        UInt64.ofNat_add, UInt64.add_assoc, UInt64.add_comm 1]
      rfl
  | refused document edit edits haccepts hedited ih =>
      rw [run_cons, hedited, ih, accepted_cons_of_not_accepts haccepts]

theorem byteLength_run (document : Document) (edits : List Edit)
    (hsize : ∀ n, Text.byteLength (document.run (edits.take n)).text < 0x8000000000000000) :
    (Text.byteLength (document.run edits).text : Int) =
      Text.byteLength document.text + ((document.accepted edits).map Edit.delta).sum := by
  induction document, edits using edits_induction with
  | nil document => simp [accepted]
  | accepted document edit edits haccepts hreplaces _ ih =>
      have hdelta := hreplaces.delta_eq_of_lt (hsize 0) (hsize 1)
      rw [run_cons, ih fun n => hsize (n + 1), accepted_cons_of_accepts haccepts, List.map_cons,
        List.sum_cons, hdelta]
      omega
  | refused document edit edits haccepts hedited ih =>
      have hrest := ih fun n => by
        have hlater := hsize (n + 1)
        rwa [List.take_succ_cons, run_cons, hedited] at hlater
      rw [run_cons, hedited, hrest, accepted_cons_of_not_accepts haccepts]

/-- A settled document fails by nothing but a refusal. -/
theorem Settled.update_eq_error_iff {document : Document} {edit : Edit}
    {failure : UpdateFailure} (hsettled : document.Settled)
    (hsize : Text.byteLength document.text ≤ TextSize.greatest) :
    document.update edit = .error failure ↔
      ∃ error, failure = .refused error ∧ edit.Misfits document.text error := by
  constructor
  · intro hupdate
    cases happly : edit.applyTo document.text with
    | error error =>
        rw [update_of_applyTo_eq_error happly] at hupdate
        obtain rfl := Except.error.inj hupdate
        exact ⟨error, rfl, Edit.applyTo_eq_error_iff.mp happly⟩
    | ok text =>
        rw [hsettled.update_eq (Edit.applyTo_eq_ok_iff.mp happly) hsize] at hupdate
        cases hupdate
  · rintro ⟨error, rfl, hmisfits⟩
    exact update_eq_refused_iff.mpr hmisfits

/-- An edit is refused just when its range is reversed, ends behind the text or
splits a character, and leaves the whole document as it was.  So all that some
edits come to is what the accepted ones among them come to.  The lengths of
texts are below `2 ^ 63`, which signed differences of them need.  If no text was
beyond the greatest offset, there is no other way to fail. -/
theorem rejected_edits_leave_no_trace
    (scanner : Scanner) (text : List Char) (edits : List Edit) :
    let initial := ofText scanner text
    let document := initial.run edits
    let accepted := initial.accepted edits
    (∀ edit,
      (∃ error, document.update edit = .error (.refused error)) ↔
        edit.stop < edit.start ∨ Text.byteLength document.text < edit.stop ∨
          Text.isBoundary edit.start document.text = false ∨
          Text.isBoundary edit.stop document.text = false) ∧
    (∀ edit error,
      document.update edit = .error (.refused error) ↔ edit.Misfits document.text error) ∧
    (∀ edit error,
      document.update edit = .error (.refused error) → document.edited edit = document) ∧
    document = initial.run accepted ∧
    initial.accepted accepted = accepted ∧
    document.version = UInt64.ofNat accepted.length ∧
    (accepted.length < UInt64.size → document.version.toNat = accepted.length) ∧
    ((∀ n, Text.byteLength (initial.run (edits.take n)).text < 0x8000000000000000) →
      (Text.byteLength document.text : Int) =
        Text.byteLength text + (accepted.map Edit.delta).sum) ∧
    ((∀ n, Text.byteLength (initial.run (edits.take n)).text ≤ TextSize.greatest) →
      ∀ edit failure,
        document.update edit = .error failure ↔
          ∃ error, failure = .refused error ∧ edit.Misfits document.text error) := by
  intro initial document accepted
  have hversion : document.version = UInt64.ofNat accepted.length := by
    have hcounted := version_run initial edits
    have hinitial : initial.version = 0 := rfl
    rwa [hinitial, UInt64.zero_add] at hcounted
  refine ⟨?_, fun edit error => update_eq_refused_iff, fun edit error => edited_of_refused,
    (run_accepted initial edits).symm, accepted_accepted initial edits, hversion, ?_,
    byteLength_run initial edits, ?_⟩
  · intro edit
    simp only [update_eq_refused_iff]
    exact Edit.exists_misfits_iff
  · intro hfew
    rw [hversion]
    exact UInt64.toNat_ofNat_of_lt hfew
  · intro hsize edit failure
    have hwhole := hsize edits.length
    rw [List.take_length] at hwhole
    exact (run_settled (ofText_settled scanner text) edits hsize).update_eq_error_iff hwhole

/-- Two edits that fit, among one inside a character, one behind the end and one
that is reversed. -/
theorem rejected_edits_leave_no_trace_between :
    let initial := ofText Mode.plainText.scanner ['é']
    let edits : List Edit :=
      [.insert 1 ['x'], .insert 2 ['a', '\n'], .insert 9 ['x'], .delete 3 2, .delete 0 2]
    (∀ n, Text.byteLength (initial.run (edits.take n)).text ≤ TextSize.greatest) ∧
    initial.update (.insert 1 ['x']) = .error (.refused (.notBoundary 1 1)) ∧
    initial.accepted edits = [.insert 2 ['a', '\n'], .delete 0 2] ∧
    initial.run edits = initial.run [.insert 2 ['a', '\n'], .delete 0 2] ∧
    (initial.run edits).version.toNat = 2 ∧
    (Text.byteLength (initial.run edits).text : Int) = 2 ∧
    ∀ failure, (initial.run edits).update (.insert 1 ['x']) ≠ .error failure := by
  intro initial edits
  have hsize : ∀ n,
      Text.byteLength (initial.run (edits.take n)).text ≤ TextSize.greatest := by
    intro n
    match n with
    | 0 => decide
    | 1 => decide
    | 2 => decide
    | 3 => decide
    | 4 => decide
    | n + 5 =>
        rw [List.take_of_length_le (by simp [edits])]
        decide
  have haccepted : initial.accepted edits = [.insert 2 ['a', '\n'], .delete 0 2] := by decide
  obtain ⟨_, hrefused, _⟩ := rejected_edits_leave_no_trace Mode.plainText.scanner ['é'] []
  obtain ⟨_, _, _, hrun, _, _, hversion, hlength, hfailures⟩ :=
    rejected_edits_leave_no_trace Mode.plainText.scanner ['é'] edits
  have hmisfits : (Edit.insert 1 ['x']).Misfits ['é'] (.notBoundary 1 1) :=
    .notBoundary (by decide) (by decide) (Or.inl (by decide))
  have hcount := hversion (by rw [haccepted]; decide)
  have hgrown := hlength fun n => (hsize n).trans_lt (by decide)
  rw [haccepted] at hrun hcount hgrown
  refine ⟨hsize, (hrefused _ _).mpr hmisfits, haccepted, hrun, hcount, hgrown, ?_⟩
  intro failure hupdate
  obtain ⟨error, _, hmisfit⟩ := (hfailures hsize _ _).mp hupdate
  have htext : (initial.run edits).text = ['a', '\n'] := by decide
  rw [htext] at hmisfit
  rcases Edit.exists_misfits_iff.mp ⟨error, hmisfit⟩ with hbound | hbound | hbound | hbound
  all_goals exact absurd hbound (by decide)

/-- A line beyond the greatest offset is taken away by an edit that leaves it in
the text.  A second edit fits, and finds fewer lines than it takes away: it stops
when text and version have been changed. -/
theorem stops_behind_overlong (scanner : Scanner) {cut : List Char}
    (hplain : ∀ c ∈ cut, ¬ (c = '\n' ∨ c = '\r'))
    (hlong : TextSize.greatest ≤ Text.byteLength cut) :
    let document := (ofText scanner (cut ++ ['\n'])).run [.delete 0 (Text.byteLength cut)]
    let left := document.edited (.insert 1 ['x'])
    (Edit.insert 1 ['x']).Replaces document.text ['\n', 'x'] ∧
    document.update (.insert 1 ['x']) = .error (.stopped left) ∧
    document.text = ['\n'] ∧ document.version = 1 ∧
    left.text = ['\n', 'x'] ∧ left.version = 2 ∧
    left.lines = document.lines := by
  intro document left
  have hdocument : document = _ := edited_delete_all scanner hplain (by simp) hlong rfl
    (by decide : Text.byteLength ['\n'] ≤ TextSize.greatest) hlong
  have hreplaces : (Edit.insert 1 ['x']).Replaces document.text ['\n', 'x'] := by
    rw [hdocument]
    exact ⟨['\n'], [], [], rfl, rfl, rfl, rfl⟩
  have hcount : document.lineCount = 1 := by
    rw [hdocument, lineCount, Scanner.length_entries]
    decide
  have hwindow : document.window (.insert 1 ['x']) (.ofText ['\n', 'x']) = ⟨0, 1, 1⟩ := by
    rw [hdocument]
    rfl
  have hupdate := update_of_replaces hreplaces
  rw [hwindow, hcount, if_neg (by decide)] at hupdate
  have hleft : left = document.withText ['\n', 'x'] (.ofText ['\n', 'x']) := by
    rw [show left = document.edited (.insert 1 ['x']) from rfl, edited, hupdate]
  refine ⟨hreplaces, hleft ▸ hupdate, ?_⟩
  rw [hleft, hdocument]
  exact ⟨rfl, rfl, rfl, rfl, rfl⟩

theorem fitting_edit_stops_behind_overlong_text :
    let document :=
      (ofText CellTail.builtMode.scanner (List.replicate (2 ^ 32) 'a' ++ ['\n'])).run
        [.delete 0 (2 ^ 32)]
    let left := document.edited (.insert 1 ['x'])
    (Edit.insert 1 ['x']).Replaces document.text ['\n', 'x'] ∧
    document.update (.insert 1 ['x']) = .error (.stopped left) ∧
    document.text = ['\n'] ∧ document.version = 1 ∧
    left.text = ['\n', 'x'] ∧ left.version = 2 ∧
    left.lines = document.lines := by
  have hcut : Text.byteLength (List.replicate (2 ^ 32) 'a') = 2 ^ 32 := by
    rw [Text.byteLength_replicate]
    rfl
  have hplain : ∀ c ∈ List.replicate (2 ^ 32) 'a', ¬ (c = '\n' ∨ c = '\r') := by
    intro c hc
    rw [List.eq_of_mem_replicate hc]
    decide
  have hstops := stops_behind_overlong CellTail.builtMode.scanner hplain (by rw [hcut]; decide)
  rw [hcut] at hstops
  exact hstops

end Document

end Highlighter
