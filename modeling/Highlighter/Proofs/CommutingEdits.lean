import Highlighter.Proofs.EditDelta
import Highlighter.Proofs.OpenStrings
import Highlighter.Proofs.OverlongTexts

/-!
# Edits that lie apart

Two edits of one document, the one before the other, can be made in either
order.  The later one moves by the bytes that the earlier one adds, and by
nothing else, so both orders put the same text together.  What is kept of a
settled document follows from its text: the two ways through different lines
and different texts end in the same document.
-/

namespace Highlighter

namespace Edit

/-- The edit, moved by a number of bytes. -/
def shift (edit : Edit) (bytes : Int) : Edit :=
  { edit with
    start := (edit.start + bytes).toNat
    stop := (edit.stop + bytes).toNat }

/-- The signed difference does not wrap round for texts in range. -/
theorem Replaces.delta_eq {edit : Edit} {old new : List Char}
    (hreplaces : edit.Replaces old new)
    (hold : Text.byteLength old ≤ TextSize.greatest)
    (hnew : Text.byteLength new ≤ TextSize.greatest) :
    edit.delta = (Text.byteLength new : Int) - Text.byteLength old := by
  have hrange : TextSize.greatest < 0x8000000000000000 := by decide
  exact hreplaces.delta_eq_of_lt (by omega) (by omega)

/-- Behind an edit that lies before it, an edit still fits once it is moved,
and the order of the two does not matter. -/
theorem Replaces.commute {first second : Edit} {old afterFirst afterSecond : List Char}
    (hfirst : first.Replaces old afterFirst)
    (hsecond : second.Replaces old afterSecond)
    (hapart : first.stop ≤ second.start)
    (hdelta : first.delta = (Text.byteLength afterFirst : Int) - Text.byteLength old) :
    ∃ final,
      (second.shift first.delta).Replaces afterFirst final ∧
      first.Replaces afterSecond final ∧
      Text.byteLength final + Text.byteLength old =
        Text.byteLength afterFirst + Text.byteLength afterSecond := by
  obtain ⟨before, cut, behind, hold, rfl, hstart, hstop⟩ := hfirst
  obtain ⟨front, cut', after, hold', rfl, hstart', hstop'⟩ := hsecond
  obtain ⟨middle, rfl, rfl⟩ : ∃ middle,
      front = before ++ cut ++ middle ∧ behind = middle ++ (cut' ++ after) := by
    apply Text.exists_between_cuts
    · rw [← hold, hold', List.append_assoc]
    · omega
  subst hold
  simp only [Text.byteLength_append] at hstop hstart' hstop' hdelta
  push_cast at hdelta
  have hmoved : (second.shift first.delta).start =
      Text.byteLength (before ++ first.text ++ middle) := by
    simp only [shift, Text.byteLength_append]
    omega
  have hmoved' : (second.shift first.delta).stop =
      Text.byteLength (before ++ first.text ++ middle ++ cut') := by
    simp only [shift, Text.byteLength_append]
    omega
  refine ⟨before ++ first.text ++ middle ++ second.text ++ after, ?_, ?_, ?_⟩
  · exact ⟨before ++ first.text ++ middle, cut', after, by simp, rfl, hmoved, hmoved'⟩
  · refine ⟨before, cut, middle ++ second.text ++ after, by simp, by simp, hstart, ?_⟩
    rw [hstop, Text.byteLength_append]
  · simp only [Text.byteLength_append]
    omega

end Edit

namespace Document

/-- What an edit makes of a settled document. -/
structure Becomes (document : Document) (edit : Edit) (after : Document) : Prop where
  replaces : edit.Replaces document.text after.text
  settled : after.Settled
  scanner : after.scanner = document.scanner
  version : after.version = document.version + 1

theorem Settled.exists_becomes {document : Document} {edit : Edit} {new : List Char}
    (hsettled : document.Settled)
    (hreplaces : edit.Replaces document.text new)
    (hold : Text.byteLength document.text ≤ TextSize.greatest)
    (hnew : Text.byteLength new ≤ TextSize.greatest) :
    ∃ after delta,
      document.update edit = .ok (after, delta) ∧
      after.text = new ∧
      document.Becomes edit after := by
  have hframes := window_frames hsettled.index hreplaces hold hnew
  have hafter := rehighlight_settled hsettled hold hnew hframes
  exact ⟨_, _, hsettled.update_eq hreplaces hold, rfl, hreplaces, hafter, rfl, rfl⟩

/-- What a settled document keeps follows from its text. -/
theorem Settled.eq_of_text_eq {document document' : Document}
    (hsettled : document.Settled) (hsettled' : document'.Settled)
    (hscanner : document.scanner = document'.scanner)
    (htext : document.text = document'.text)
    (hversion : document.version = document'.version) : document = document' := by
  have hindex : document.index = document'.index := by
    rw [hsettled.index, hsettled'.index, htext]
  have hlines : document.lines = document'.lines := by
    rw [hsettled.lines, hsettled'.lines, hscanner, hindex, htext]
  cases document
  cases document'
  simp_all

/-- Two edits that lie apart end in the same document in either order, and none of
the updates fails.  All texts that the document has had must be in reach of its
offsets: a line beyond them is kept with fewer tokens than it has, until it is
scanned again. -/
theorem update_commutes
    (scanner : Scanner) (text : List Char) (edits : List Edit) {first second : Edit}
    {newFirst newSecond : List Char}
    (hsize : ∀ n,
      Text.byteLength ((ofText scanner text).run (edits.take n)).text ≤ TextSize.greatest)
    (hfirst : first.Replaces ((ofText scanner text).run edits).text newFirst)
    (hsecond : second.Replaces ((ofText scanner text).run edits).text newSecond)
    (hapart : first.stop ≤ second.start)
    (hnewFirst : Text.byteLength newFirst ≤ TextSize.greatest)
    (hnewSecond : Text.byteLength newSecond ≤ TextSize.greatest)
    (hboth : ∀ final, (second.shift first.delta).Replaces newFirst final →
      Text.byteLength final ≤ TextSize.greatest) :
    let document := (ofText scanner text).run edits
    ∃ afterFirst afterSecond final : Document, ∃ delta₁ delta₂ delta₁' delta₂',
      document.update first = .ok (afterFirst, delta₁) ∧
      document.update second = .ok (afterSecond, delta₂) ∧
      afterFirst.update (second.shift first.delta) = .ok (final, delta₂') ∧
      afterSecond.update first = .ok (final, delta₁') ∧
      (Text.byteLength final.text : Int) =
        Text.byteLength document.text + first.delta + second.delta := by
  intro document
  change first.Replaces document.text newFirst at hfirst
  change second.Replaces document.text newSecond at hsecond
  have hsettled : document.Settled := run_settled (ofText_settled scanner text) edits hsize
  have hold : Text.byteLength document.text ≤ TextSize.greatest := by
    have hwhole := hsize edits.length
    rwa [List.take_length] at hwhole
  have hdelta := hfirst.delta_eq hold hnewFirst
  have hdelta' := hsecond.delta_eq hold hnewSecond
  obtain ⟨new, hshifted, hunshifted, hlength⟩ := hfirst.commute hsecond hapart hdelta
  have hnew := hboth new hshifted
  obtain ⟨afterFirst, delta₁, hupdate₁, rfl, hleft⟩ :=
    hsettled.exists_becomes hfirst hold hnewFirst
  obtain ⟨afterSecond, delta₂, hupdate₂, rfl, hright⟩ :=
    hsettled.exists_becomes hsecond hold hnewSecond
  obtain ⟨final, delta₂', hupdate, htext, hlast⟩ :=
    hleft.settled.exists_becomes hshifted hnewFirst hnew
  obtain ⟨final', delta₁', hupdate', htext', hlast'⟩ :=
    hright.settled.exists_becomes hunshifted hnewSecond hnew
  have hfinal : final' = final := by
    apply hlast'.settled.eq_of_text_eq hlast.settled _ (htext'.trans htext.symm)
    · rw [hlast'.version, hright.version, hlast.version, hleft.version]
    · rw [hlast'.scanner, hright.scanner, hlast.scanner, hleft.scanner]
  refine ⟨afterFirst, afterSecond, final, delta₁, delta₂, delta₁', delta₂', hupdate₁, hupdate₂,
    hupdate, hfinal ▸ hupdate', ?_⟩
  rw [htext, hdelta, hdelta']
  omega

/-- A carriage return and a line feed put at one place inside a string, which end
two lines apart and one together. -/
theorem update_commutes_joined_terminator :
    let document := ofText CellTail.builtMode.scanner "\"ab".toList
    ∃ afterFirst afterSecond final : Document, ∃ delta₁ delta₂ delta₁' delta₂',
      document.update (.insert 2 ['\r']) = .ok (afterFirst, delta₁) ∧
      document.update (.insert 2 ['\n']) = .ok (afterSecond, delta₂) ∧
      afterFirst.update (.insert 3 ['\n']) = .ok (final, delta₂') ∧
      afterSecond.update (.insert 2 ['\r']) = .ok (final, delta₁') ∧
      (Text.byteLength final.text : Int) = 5 ∧
      final.lineState? 0 = some ⟨1⟩ := by
  intro document
  have hsize : ∀ n, Text.byteLength (document.run ([].take n)).text ≤ TextSize.greatest := by
    intro n
    rw [List.take_nil]
    decide
  have hfirst : (Edit.insert 2 ['\r']).Replaces document.text "\"a\rb".toList :=
    ⟨['"', 'a'], [], ['b'], rfl, rfl, rfl, rfl⟩
  have hsecond : (Edit.insert 2 ['\n']).Replaces document.text "\"a\nb".toList :=
    ⟨['"', 'a'], [], ['b'], rfl, rfl, rfl, rfl⟩
  have hshift : (Edit.insert 2 ['\n']).shift (Edit.insert 2 ['\r']).delta =
      .insert 3 ['\n'] := by decide
  have hboth : (Edit.insert 3 ['\n']).Replaces "\"a\rb".toList "\"a\r\nb".toList :=
    ⟨['"', 'a', '\r'], [], ['b'], rfl, rfl, rfl, rfl⟩
  have hresult :
      ((document.edited (.insert 2 ['\r'])).edited (.insert 3 ['\n'])).lineState? 0 =
        some ⟨1⟩ := by
    decide +kernel
  obtain ⟨afterFirst, afterSecond, final, delta₁, delta₂, delta₁', delta₂', hupdate₁, hupdate₂,
      hupdate, hupdate', hlength⟩ :=
    update_commutes CellTail.builtMode.scanner "\"ab".toList [] hsize hfirst hsecond (by decide)
      (by decide) (by decide) fun final hfinal => by
        rw [hshift] at hfinal
        rw [hfinal.unique hboth]
        decide
  rw [hshift] at hupdate
  change document.update (.insert 2 ['\r']) = _ at hupdate₁
  rw [edited_of_update hupdate₁, edited_of_update hupdate] at hresult
  exact ⟨afterFirst, afterSecond, final, delta₁, delta₂, delta₁', delta₂', hupdate₁, hupdate₂,
    hupdate, hupdate', hlength, hresult⟩

/-- The document of two lines whose second one has been kept as an empty line. -/
def withStaleLine : Document where
  scanner := CellTail.builtMode.scanner
  text := "aa\nb".toList
  index := .ofText "aa\nb".toList
  lines := [CellTail.builtMode.scanner.entry ⟨0⟩ ['a', 'a'],
    CellTail.builtMode.scanner.entry ⟨0⟩ []]
  version := 1

/-- The second line begins beyond the greatest offset until almost all of the first
one is deleted.  It then begins in the state in which it was scanned, and so is
not scanned again. -/
theorem run_delete_eq_withStaleLine {cut : List Char} (hletters : ∀ c ∈ cut, c = 'a')
    (hcut : Text.byteLength cut + 1 = TextSize.greatest) :
    (ofText CellTail.builtMode.scanner (cut ++ "aa\nb".toList)).run
        [.delete 0 (Text.byteLength cut)] =
      withStaleLine := by
  have hplain : ∀ c ∈ cut ++ ['a', 'a'], ¬ (c = '\n' ∨ c = '\r') := by
    intro c hc
    obtain rfl : c = 'a' := by
      rcases List.mem_append.mp hc with hc | hc
      · exact hletters c hc
      · simpa using hc
    decide
  have hlong : TextSize.greatest ≤ Text.byteLength (cut ++ ['a', 'a']) := by
    have hpair : Text.byteLength ['a', 'a'] = 2 := rfl
    rw [Text.byteLength_append, hpair]
    omega
  have htext : cut ++ "aa\nb".toList = cut ++ ['a', 'a'] ++ '\n' :: ['b'] := by simp
  obtain ⟨front, hfront, hdocument⟩ :=
    edited_delete_most CellTail.builtMode.scanner hplain (by simp) hlong htext (by decide)
      (by omega)
  have hquote : '"' ∉ front := by
    intro hmem
    rcases List.mem_append.mp (hfront _ hmem) with hinside | hinside
    · exact absurd (hletters _ hinside) (by decide)
    · simp at hinside
  have hstate : (CellTail.builtMode.scanner.line front
      CellTail.builtMode.scanner.table.start).endState = ⟨0⟩ :=
    CellTail.endState_of_no_quote _ _ hquote
  rw [hstate] at hdocument
  refine hdocument.trans ?_
  decide +kernel

/-- The document after edits that are all made. -/
def made? (document : Document) (edits : List Edit) : Option Document :=
  edits.foldlM (fun document edit => (document.update edit).toOption.map (·.1)) document

/-- The tokens of the second line, counted. -/
def secondCount? (document : Document) : Option Nat :=
  (document.line? 1).map (·.tokens.length)

/-- A quote put into the first line opens a string, and then a stale line behind it
is scanned again; behind a comment it is not.  The two orders of the edits give
the same text and leave its second line with different tokens. -/
theorem orders_differ_behind_overlong_text :
    let document :=
      (ofText CellTail.builtMode.scanner
        (List.replicate (2 ^ 32 - 2) 'a' ++ "aa\nb".toList)).run [.delete 0 (2 ^ 32 - 2)]
    let first := Edit.insert 0 ['#']
    let second := Edit.insert 1 ['"']
    document.text = "aa\nb".toList ∧
    (document.made? [first]).map (·.text) = some "#aa\nb".toList ∧
    (document.made? [second]).map (·.text) = some "a\"a\nb".toList ∧
    (document.made? [first, second.shift first.delta]).map
        (fun final => (final.text, final.secondCount?)) =
      some ("#a\"a\nb".toList, some 0) ∧
    (document.made? [second, first]).map (fun final => (final.text, final.secondCount?)) =
      some ("#a\"a\nb".toList, some 1) := by
  have hcut : Text.byteLength (List.replicate (2 ^ 32 - 2) 'a') = 2 ^ 32 - 2 := by
    rw [Text.byteLength_replicate]
    rfl
  have hdocument := run_delete_eq_withStaleLine
    (fun _ => List.eq_of_mem_replicate) (by rw [hcut]; decide)
  rw [hcut] at hdocument
  rw [hdocument]
  decide +kernel

end Document

end Highlighter
