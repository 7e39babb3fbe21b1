import Highlighter.Vocabulary
import Mathlib.Tactic

/-!
# Which words are listed

A vocabulary is made by calls that append to its lists the words between the
vertical bars of a text.  All that a call leaves behind is which words it lists
under its category, and a word is classified by the categories that list it.
So neither the order of the calls nor the way in which their texts are written
can be told from the categories of words.
-/

namespace Highlighter

namespace Vocabulary

/-- A part of the text without a bar in it, with nothing but a bar right before
it and right behind it. -/
def IsSegment (word text : List Char) : Prop :=
  '|' ∉ word ∧
  ∃ before after,
    text = before ++ word ++ after ∧
    (∀ c ∈ before.getLast?, c = '|') ∧
    (∀ c ∈ after.head?, c = '|')

/-! ## The words of a text -/

theorem segments_ne_nil (text : List Char) : segments text ≠ [] := by
  cases text with
  | nil => simp [segments]
  | cons c cs =>
      unfold segments
      split_ifs
      · simp
      · split <;> simp

theorem segments_append_bar (front back : List Char) :
    segments (front ++ '|' :: back) = segments front ++ segments back := by
  induction front with
  | nil => simp [segments]
  | cons c front ih =>
      rw [List.cons_append, segments, ih, segments]
      split_ifs
      · rfl
      · cases hfront : segments front with
        | nil => exact absurd hfront (segments_ne_nil front)
        | cons segment rest => rfl

theorem segments_of_not_mem {text : List Char} (htext : '|' ∉ text) :
    segments text = [text] := by
  induction text with
  | nil => rfl
  | cons c text ih =>
      rw [List.mem_cons, not_or] at htext
      rw [segments, if_neg (Ne.symm htext.1), ih htext.2]

/-- A text has no bar, or is read up to its first one. -/
theorem bar_induction {motive : List Char → Prop}
    (plain : ∀ word, '|' ∉ word → motive word)
    (bar : ∀ word rest, '|' ∉ word → motive rest → motive (word ++ '|' :: rest))
    (text : List Char) : motive text := by
  induction hlength : text.length using Nat.strong_induction_on generalizing text with
  | _ length ih =>
      by_cases hmem : '|' ∈ text
      · obtain ⟨word, rest, rfl, hword⟩ := List.eq_append_cons_of_mem hmem
        have hshorter : rest.length < length := by
          simp only [List.length_append, List.length_cons] at hlength
          omega
        exact bar word rest hword (ih rest.length hshorter rest rfl)
      · exact plain text hmem

theorem isSegment_of_mem_segments {word text : List Char} (hword : word ∈ segments text) :
    IsSegment word text := by
  induction text using bar_induction with
  | plain text htext =>
      rw [segments_of_not_mem htext, List.mem_singleton] at hword
      subst hword
      exact ⟨htext, [], [], by simp, by simp, by simp⟩
  | bar first rest hfirst ih =>
      rw [segments_append_bar, segments_of_not_mem hfirst, List.singleton_append,
        List.mem_cons] at hword
      rcases hword with rfl | hword
      · exact ⟨hfirst, [], '|' :: rest, by simp, by simp, by simp⟩
      · obtain ⟨hplain, before, after, rfl, hbefore, hafter⟩ := ih hword
        refine ⟨hplain, first ++ '|' :: before, after, by simp, ?_, hafter⟩
        cases before with
        | nil => simp
        | cons b before => simpa [List.getLast?_append] using hbefore

theorem IsSegment.mem_segments {word text : List Char} (hsegment : IsSegment word text) :
    word ∈ segments text := by
  obtain ⟨hplain, before, after, rfl, hbefore, hafter⟩ := hsegment
  have hback : ∃ rest, segments (word ++ after) = word :: rest := by
    cases after with
    | nil => exact ⟨[], by rw [List.append_nil, segments_of_not_mem hplain]⟩
    | cons c after =>
        obtain rfl : c = '|' := hafter c rfl
        exact ⟨segments after, by
          rw [segments_append_bar, segments_of_not_mem hplain, List.singleton_append]⟩
  obtain ⟨rest, hback⟩ := hback
  rw [List.append_assoc]
  cases hlast : before.getLast? with
  | none =>
      rw [List.getLast?_eq_none_iff.mp hlast, List.nil_append, hback]
      exact List.mem_cons_self
  | some c =>
      obtain rfl : c = '|' := hbefore c hlast
      obtain ⟨front, rfl⟩ := List.getLast?_eq_some_iff.mp hlast
      rw [List.append_assoc, List.singleton_append, segments_append_bar, hback]
      exact List.mem_append_right _ List.mem_cons_self

theorem mem_wordsOf {word text : String} :
    word ∈ wordsOf text ↔ word ≠ "" ∧ IsSegment word.toList text.toList := by
  have hsegment : IsSegment word.toList text.toList ↔ word.toList ∈ segments text.toList :=
    ⟨IsSegment.mem_segments, isSegment_of_mem_segments⟩
  rw [hsegment]
  simp only [wordsOf, List.mem_map, List.mem_filter]
  constructor
  · rintro ⟨segment, ⟨hmem, hne⟩, rfl⟩
    rw [String.toList_ofList]
    exact ⟨by simpa using hne, hmem⟩
  · intro ⟨hne, hmem⟩
    exact ⟨word.toList, ⟨hmem, by simpa using hne⟩, String.ofList_toList⟩

theorem wordsOf_append_bar (front back : String) :
    wordsOf (front ++ "|" ++ back) = wordsOf front ++ wordsOf back := by
  have hbar : (front ++ "|" ++ back).toList = front.toList ++ '|' :: back.toList := by simp
  simp only [wordsOf, hbar, segments_append_bar, List.filter_append, List.map_append]

theorem mem_wordsOf_intercalate {word : String} {words : List String} :
    word ∈ wordsOf ("|".intercalate words) ↔ ∃ w ∈ words, word ∈ wordsOf w := by
  induction words with
  | nil => simp [wordsOf, segments]
  | cons w words ih =>
      cases words with
      | nil => simp
      | cons w' words =>
          simp only [String.intercalate_cons_cons, wordsOf_append_bar, List.mem_append, ih,
            List.exists_mem_cons_iff]

theorem ne_empty_of_mem_wordsOf {word text : String} (hword : word ∈ wordsOf text) :
    text ≠ "" := by
  rintro rfl
  simp [wordsOf, segments] at hword

theorem mem_wordsOf_intercalate_congr {word : String} {words words' : List String}
    (hwords : ∀ w, w ≠ "" → (w ∈ words' ↔ w ∈ words)) :
    word ∈ wordsOf ("|".intercalate words') ↔ word ∈ wordsOf ("|".intercalate words) := by
  rw [mem_wordsOf_intercalate, mem_wordsOf_intercalate]
  constructor
  · intro ⟨w, hw, hword⟩
    exact ⟨w, (hwords w (ne_empty_of_mem_wordsOf hword)).mp hw, hword⟩
  · intro ⟨w, hw, hword⟩
    exact ⟨w, (hwords w (ne_empty_of_mem_wordsOf hword)).mpr hw, hword⟩

/-! ## The lists of a vocabulary -/

theorem mem_list_addWords {v : Vocabulary} {category other : Category} {text word : String} :
    word ∈ (v.addWords category text).list other ↔
      word ∈ v.list other ∨
        (other = category ∧ other ≠ .identifier ∧ word ∈ wordsOf text) := by
  cases category <;> cases other <;> simp [addWords, list]

/-- The vocabulary that texts of words make, each added to the list of a
category. -/
def ofCalls (calls : List (Category × String)) : Vocabulary :=
  calls.foldl (fun v call => v.addWords call.1 call.2) empty

/-- One of the texts for the category has the word between its bars. -/
def Lists (calls : List (Category × String)) (category : Category) (word : String) : Prop :=
  ∃ text, (category, text) ∈ calls ∧ word ≠ "" ∧ IsSegment word.toList text.toList

section Lists

variable {calls calls' : List (Category × String)} {category : Category} {word : String}

theorem lists_iff :
    Lists calls category word ↔ ∃ text, (category, text) ∈ calls ∧ word ∈ wordsOf text := by
  simp only [Lists, mem_wordsOf]

theorem lists_append :
    Lists (calls ++ calls') category word ↔
      Lists calls category word ∨ Lists calls' category word := by
  simp only [Lists, List.mem_append, or_and_right, exists_or]

theorem lists_cons {other : Category} {text : String} :
    Lists ((other, text) :: calls) category word ↔
      (category = other ∧ word ∈ wordsOf text) ∨ Lists calls category word := by
  simp only [lists_iff, List.mem_cons, Prod.mk.injEq, or_and_right, exists_or]
  constructor
  · rintro (⟨text, ⟨rfl, rfl⟩, hword⟩ | hcalls)
    · exact Or.inl ⟨rfl, hword⟩
    · exact Or.inr hcalls
  · rintro (⟨rfl, hword⟩ | hcalls)
    · exact Or.inl ⟨text, ⟨rfl, rfl⟩, hword⟩
    · exact Or.inr hcalls

theorem mem_list_foldl (v : Vocabulary) :
    word ∈ (calls.foldl (fun v call => v.addWords call.1 call.2) v).list category ↔
      word ∈ v.list category ∨ (category ≠ .identifier ∧ Lists calls category word) := by
  induction calls generalizing v with
  | nil => simp [Lists]
  | cons call calls ih =>
      rw [List.foldl_cons, ih, mem_list_addWords, lists_cons]
      tauto

theorem mem_list_ofCalls :
    word ∈ (ofCalls calls).list category ↔
      category ≠ .identifier ∧ Lists calls category word := by
  rw [ofCalls, mem_list_foldl]
  cases category <;> simp [empty, list]

end Lists

end Vocabulary

/-! ## Classification -/

/-- The first category in order of precedence with a property, or the category
of identifiers if there is none. -/
inductive Category.First (property : Category → Prop) : Category → Prop
  | listed {earlier later : List Category} {category : Category} :
      precedence = earlier ++ category :: later → property category →
        (∀ other ∈ earlier, ¬ property other) → First property category
  | unlisted : (∀ category ∈ precedence, ¬ property category) → First property identifier

theorem Category.ne_identifier_of_mem_precedence {category : Category}
    (hmem : category ∈ precedence) : category ≠ .identifier := by
  rintro rfl
  simp [precedence] at hmem

theorem Category.first_iff {property : Category → Bool} {category : Category} :
    First (property · = true) category ↔
      (precedence.find? property).getD .identifier = category := by
  constructor
  · intro hfirst
    cases hfirst with
    | @listed earlier later _ horder hhas hnone =>
        have hfind : precedence.find? property = some category :=
          List.find?_eq_some_iff_append.mpr
            ⟨hhas, earlier, later, horder, by simpa using hnone⟩
        rw [hfind, Option.getD_some]
    | unlisted hnone => rw [List.find?_eq_none.mpr hnone, Option.getD_none]
  · rintro rfl
    cases hfind : precedence.find? property with
    | none => exact First.unlisted (List.find?_eq_none.mp hfind)
    | some category =>
        obtain ⟨hhas, earlier, later, horder, hnone⟩ := List.find?_eq_some_iff_append.mp hfind
        exact First.listed horder hhas (by simpa using hnone)

theorem Category.First.congr {property property' : Category → Prop} {category : Category}
    (hsame : ∀ other ∈ precedence, property other ↔ property' other)
    (hfirst : First property category) : First property' category := by
  cases hfirst with
  | @listed earlier later _ horder hhas hnone =>
      apply First.listed horder
      · exact (hsame category (by simp [horder])).mp hhas
      · intro other hother
        rw [← hsame other (by simp [horder, hother])]
        exact hnone other hother
  | unlisted hnone =>
      apply First.unlisted
      intro other hother
      rw [← hsame other hother]
      exact hnone other hother

namespace Vocabulary

theorem contains_iff {v : Vocabulary} {category : Category} {word : String} :
    v.contains category word = true ↔ word ∈ v.list category :=
  List.contains_iff_mem

theorem classify_eq_iff {v : Vocabulary} {word : String} {category : Category} :
    v.classify word = category ↔ Category.First (word ∈ v.list ·) category := by
  rw [classify, ← Category.first_iff]
  simp only [contains_iff]

theorem classify_ofCalls_eq_iff {calls : List (Category × String)} {word : String}
    {category : Category} :
    (ofCalls calls).classify word = category ↔ Category.First (Lists calls · word) category := by
  have hsame : ∀ other ∈ Category.precedence,
      word ∈ (ofCalls calls).list other ↔ Lists calls other word := by
    intro other hother
    rw [mem_list_ofCalls]
    exact and_iff_right (Category.ne_identifier_of_mem_precedence hother)
  rw [classify_eq_iff]
  constructor
  · exact Category.First.congr hsame
  · exact Category.First.congr fun other hother => (hsame other hother).symm

/-- Calls that list the same words cannot be told apart. -/
theorem classify_ofCalls_congr {calls calls' : List (Category × String)} {word : String}
    (hsame : ∀ category ∈ Category.precedence,
      Lists calls' category word ↔ Lists calls category word) :
    (ofCalls calls').classify word = (ofCalls calls).classify word := by
  rw [classify_ofCalls_eq_iff]
  have hfirst : Category.First (Lists calls · word) ((ofCalls calls).classify word) :=
    classify_ofCalls_eq_iff.mp rfl
  exact hfirst.congr fun category hcategory => (hsame category hcategory).symm

theorem classify_ofCalls_of_unlisted {calls : List (Category × String)} {word : String}
    (hunlisted : ∀ category, ¬ Lists calls category word) :
    (ofCalls calls).classify word = .identifier :=
  classify_ofCalls_eq_iff.mpr (.unlisted fun category _ => hunlisted category)

/-- A word is classified by the categories under which it is listed, and by
nothing else.  The calls may come in any order and more than once, the words of
a text may be reordered or repeated and may have empty ones among them, and
calls for identifiers list nothing. -/
theorem classify_depends_on_listed_words (calls : List (Category × String)) :
    (∀ word category,
      (ofCalls calls).classify word = category ↔
        Category.First (Lists calls · word) category) ∧
    (∀ calls', (∀ call, call ∈ calls' ↔ call ∈ calls) →
      ∀ word, (ofCalls calls').classify word = (ofCalls calls).classify word) ∧
    (∀ front category words back, calls = front ++ (category, "|".intercalate words) :: back →
      ∀ words', (∀ w, w ≠ "" → (w ∈ words' ↔ w ∈ words)) →
      ∀ word,
        (ofCalls (front ++ (category, "|".intercalate words') :: back)).classify word =
          (ofCalls calls).classify word) ∧
    (∀ front text back, calls = front ++ (.identifier, text) :: back →
      ∀ word, (ofCalls (front ++ back)).classify word = (ofCalls calls).classify word) ∧
    (ofCalls calls).classify "" = .identifier ∧
    (∀ word : String, '|' ∈ word.toList → (ofCalls calls).classify word = .identifier) := by
  refine ⟨fun word category => classify_ofCalls_eq_iff, ?_, ?_, ?_, ?_, ?_⟩
  · intro calls' hcalls word
    apply classify_ofCalls_congr
    intro category _
    simp only [Lists, hcalls]
  · rintro front category words back rfl words' hwords word
    apply classify_ofCalls_congr
    intro other _
    rw [lists_append, lists_cons, mem_wordsOf_intercalate_congr hwords, lists_append, lists_cons]
  · rintro front text back rfl word
    apply classify_ofCalls_congr
    intro category hcategory
    have hne := Category.ne_identifier_of_mem_precedence hcategory
    rw [lists_append, lists_append, lists_cons]
    simp [hne]
  · apply classify_ofCalls_of_unlisted
    intro category hlists
    obtain ⟨_, _, hne, _⟩ := hlists
    exact hne rfl
  · intro word hbar
    apply classify_ofCalls_of_unlisted
    intro category hlists
    obtain ⟨_, _, _, hplain, _⟩ := hlists
    exact hplain hbar

/-- Two words on two lists each, with the calls in another order and one of them
made twice, and with the words of a text reordered among empty ones. -/
theorem classify_depends_on_listed_words_overlapping :
    let calls : List (Category × String) :=
      [(.keyword, "self|do"), (.pseudoVariable, "self"), (.invalidDeprecated, "do")]
    let reordered : List (Category × String) :=
      [(.invalidDeprecated, "do"), (.keyword, "self|do"), (.pseudoVariable, "self"),
        (.invalidDeprecated, "do")]
    let rewritten : List (Category × String) :=
      [(.keyword, "|do||self|do"), (.pseudoVariable, "self"), (.invalidDeprecated, "do")]
    (ofCalls calls).classify "self" = .pseudoVariable ∧
    (ofCalls reordered).classify "self" = .pseudoVariable ∧
    (ofCalls rewritten).classify "self" = .pseudoVariable ∧
    (ofCalls rewritten).classify "self|do" = .identifier := by
  intro calls reordered rewritten
  obtain ⟨_, hcalls, htexts, _, _, _⟩ := classify_depends_on_listed_words calls
  obtain ⟨_, _, _, _, _, hbar⟩ := classify_depends_on_listed_words rewritten
  have hbase : (ofCalls calls).classify "self" = .pseudoVariable := by decide
  have hreordered : (ofCalls reordered).classify "self" = (ofCalls calls).classify "self" := by
    apply hcalls
    intro call
    simp only [reordered, calls, List.mem_cons]
    tauto
  have hrewritten : (ofCalls rewritten).classify "self" = (ofCalls calls).classify "self" := by
    apply htexts [] .keyword ["self", "do"] _ rfl ["", "do", "", "self", "do"]
    intro w hw
    simp only [List.mem_cons, hw]
    tauto
  exact ⟨hbase, hreordered.trans hbase, hrewritten.trans hbase, hbar "self|do" (by decide)⟩

end Vocabulary

end Highlighter
