import Highlighter.Proofs.ListedWords
import Highlighter.Proofs.OrderedWords
import Mathlib.Tactic

/-!
# Words on several lists

A word is ambiguous when two categories list it.  The report has one entry for
each such word, which names its owners, and it is in order.  The entries can as
well be collected list by list and sorted at the end: a word on several lists
is met several times, but only the first of its owners enters it, so no order
in which the words of a list are gone through shows in the report.
-/

namespace Highlighter.Vocabulary

/-- Two categories list the word. -/
def Ambiguous (v : Vocabulary) (word : String) : Prop :=
  ∃ first second, first ≠ second ∧ word ∈ v.list first ∧ word ∈ v.list second

/-! ## The owners of a word -/

section Owners

variable {v : Vocabulary} {word : String}

theorem mem_precedence_of_mem_list {category : Category} (hword : word ∈ v.list category) :
    category ∈ Category.precedence := by
  cases category with
  | identifier => simp [list] at hword
  | _ => simp [Category.precedence]

theorem mem_owners {category : Category} :
    category ∈ v.owners word ↔ word ∈ v.list category := by
  rw [owners, List.mem_filter, contains_iff]
  constructor
  · intro howner
    exact howner.2
  · intro hword
    exact ⟨mem_precedence_of_mem_list hword, hword⟩

theorem owners_sublist : (v.owners word).Sublist Category.precedence :=
  List.filter_sublist

theorem nodup_owners : (v.owners word).Nodup :=
  owners_sublist.nodup (by decide)

theorem head?_owners {category : Category} (hword : word ∈ v.list category) :
    (v.owners word).head? = some (v.classify word) := by
  have hfind : (Category.precedence.find? (v.contains · word)).isSome :=
    List.find?_isSome.mpr
      ⟨category, mem_precedence_of_mem_list hword, contains_iff.mpr hword⟩
  obtain ⟨first, hfirst⟩ := Option.isSome_iff_exists.mp hfind
  rw [owners, List.head?_filter, classify, hfirst, Option.getD_some]

theorem Ambiguous.mem_list_classify (hambiguous : v.Ambiguous word) :
    word ∈ v.list (v.classify word) := by
  obtain ⟨listing, _, _, hlisting, _⟩ := hambiguous
  exact mem_owners.mp (List.mem_of_head? (head?_owners hlisting))

theorem one_lt_length_owners : 1 < (v.owners word).length ↔ v.Ambiguous word := by
  rw [← List.toFinset_card_of_nodup nodup_owners, Finset.one_lt_card]
  simp only [List.mem_toFinset, mem_owners]
  constructor
  · intro ⟨first, hfirst, second, hsecond, hne⟩
    exact ⟨first, second, hne, hfirst, hsecond⟩
  · intro ⟨first, second, hne, hfirst, hsecond⟩
    exact ⟨first, hfirst, second, hsecond, hne⟩

end Owners

/-! ## The report -/

section Report

variable {v : Vocabulary}

theorem mem_overlaps {word : String} {owners : List Category} :
    (word, owners) ∈ v.overlaps ↔ v.Ambiguous word ∧ owners = v.owners word := by
  unfold overlaps
  simp only [List.mem_filter, List.mem_map, Text.mem_sortWords, List.mem_flatMap,
    decide_eq_true_eq, Prod.mk.injEq]
  constructor
  · rintro ⟨⟨_, _, rfl, rfl⟩, hlength⟩
    exact ⟨one_lt_length_owners.mp hlength, rfl⟩
  · rintro ⟨hambiguous, rfl⟩
    have hlisted := hambiguous.mem_list_classify
    exact ⟨⟨word, ⟨_, mem_precedence_of_mem_list hlisted, hlisted⟩, rfl, rfl⟩,
      one_lt_length_owners.mpr hambiguous⟩

theorem overlaps_increasing (v : Vocabulary) :
    v.overlaps.Pairwise (fun one other => Text.bytes one.1 < Text.bytes other.1) := by
  unfold overlaps
  apply List.Pairwise.filter
  rw [List.pairwise_map]
  exact Text.bytes_sortWords_increasing _

theorem nodup_words_overlaps (v : Vocabulary) : (v.overlaps.map (·.1)).Nodup := by
  rw [List.Nodup, List.pairwise_map]
  apply v.overlaps_increasing.imp
  intro one other hlt heq
  rw [heq] at hlt
  exact List.lt_irrefl _ hlt

theorem mem_words_overlaps {word : String} :
    word ∈ v.overlaps.map (·.1) ↔ v.Ambiguous word := by
  rw [List.mem_map]
  constructor
  · rintro ⟨⟨_, owners⟩, hentry, rfl⟩
    exact (mem_overlaps.mp hentry).1
  · intro hambiguous
    exact ⟨(word, v.owners word), mem_overlaps.mpr ⟨hambiguous, rfl⟩, rfl⟩

theorem overlaps_eq_nil_iff : v.overlaps = [] ↔ ∀ word, ¬ v.Ambiguous word := by
  have hwords : v.overlaps = [] ↔ v.overlaps.map (·.1) = [] := List.map_eq_nil_iff.symm
  rw [hwords, List.eq_nil_iff_forall_not_mem]
  simp only [mem_words_overlaps]

theorem eq_overlaps_of_sorted {result : List (String × List Category)}
    (hperm : result.Perm v.overlaps)
    (hsorted : result.Pairwise (fun one other => Text.bytes one.1 ≤ Text.bytes other.1)) :
    result = v.overlaps := by
  apply hperm.eq_of_pairwise _ hsorted (v.overlaps_increasing.imp List.le_of_lt)
  intro ⟨one, owners⟩ ⟨other, owners'⟩ hone hother hle hge
  have hword : one = other := Text.bytes_injective (List.le_antisymm hle hge)
  have howners := (mem_overlaps.mp (hperm.subset hone)).2
  have howners' := (mem_overlaps.mp hother).2
  rw [howners, howners', hword]

end Report

/-! ## Collecting list by list -/

/-- The entries for the words of each category, as `sets` gives them: a word is
entered under the first of its owners. -/
def collect (v : Vocabulary) (sets : Category → List String) : List (String × List Category) :=
  Category.precedence.flatMap fun category =>
    ((sets category).filter fun word =>
      1 < (v.owners word).length && (v.owners word).head? == some category).map
        fun word => (word, v.owners word)

section Collect

variable {v : Vocabulary} {sets : Category → List String}

theorem mem_collect (hsets : ∀ category word, word ∈ sets category ↔ word ∈ v.list category)
    {entry : String × List Category} : entry ∈ v.collect sets ↔ entry ∈ v.overlaps := by
  obtain ⟨word, owners⟩ := entry
  rw [mem_overlaps]
  simp only [collect, List.mem_flatMap, List.mem_map, List.mem_filter, Bool.and_eq_true,
    decide_eq_true_eq, beq_iff_eq, one_lt_length_owners, Prod.mk.injEq]
  constructor
  · rintro ⟨_, _, _, ⟨_, hambiguous, _⟩, rfl, rfl⟩
    exact ⟨hambiguous, rfl⟩
  · rintro ⟨hambiguous, rfl⟩
    have hlisted := hambiguous.mem_list_classify
    exact ⟨v.classify word, mem_precedence_of_mem_list hlisted, word,
      ⟨(hsets _ _).mpr hlisted, hambiguous, head?_owners hlisted⟩, rfl, rfl⟩

theorem nodup_collect (hnodup : ∀ category, (sets category).Nodup) :
    (v.collect sets).Nodup := by
  have horder : Category.precedence.Nodup := by decide
  rw [collect, List.nodup_flatMap]
  constructor
  · intro category _
    apply List.Nodup.map
    · intro word word' heq
      exact congrArg Prod.fst heq
    · exact (hnodup category).filter _
  · -- A word has one first owner, so no two categories enter it.
    apply horder.imp
    intro first second hne entry hfirst hsecond
    simp only [List.mem_map, List.mem_filter, Bool.and_eq_true, beq_iff_eq] at hfirst hsecond
    obtain ⟨word, ⟨_, _, hhead⟩, rfl⟩ := hfirst
    obtain ⟨word', ⟨_, _, hhead'⟩, heq⟩ := hsecond
    rw [(Prod.mk.inj heq).1, hhead] at hhead'
    exact hne (Option.some.inj hhead')

theorem collect_perm (hnodup : ∀ category, (sets category).Nodup)
    (hsets : ∀ category word, word ∈ sets category ↔ word ∈ v.list category) :
    (v.collect sets).Perm v.overlaps := by
  apply (List.perm_ext_iff_of_nodup (nodup_collect hnodup) (nodup_words_overlaps v).of_map).mpr
  intro entry
  exact mem_collect hsets

end Collect

/-! ## The order of lookup -/

/-- The category of a word when the lists are looked up in some other order. -/
def classifyIn (v : Vocabulary) (order : List Category) (word : String) : Category :=
  (order.find? (v.contains · word)).getD .identifier

section Lookup

variable {v : Vocabulary} {word : String} {order : List Category}

theorem classifyIn_of_forall_not_mem (hword : ∀ category, word ∉ v.list category) :
    v.classifyIn order word = .identifier := by
  have hfind : order.find? (v.contains · word) = none := by
    rw [List.find?_eq_none]
    intro category _ hcontains
    exact hword category (contains_iff.mp hcontains)
  rw [classifyIn, hfind, Option.getD_none]

theorem classifyIn_of_not_ambiguous {category : Category} (hone : ¬ v.Ambiguous word)
    (hword : word ∈ v.list category) (hmem : category ∈ order) :
    v.classifyIn order word = category := by
  have hfind : (order.find? (v.contains · word)).isSome :=
    List.find?_isSome.mpr ⟨category, hmem, contains_iff.mpr hword⟩
  obtain ⟨found, hfound⟩ := Option.isSome_iff_exists.mp hfind
  have hcontains := List.find?_some hfound
  have hlisted : word ∈ v.list found := contains_iff.mp hcontains
  rw [classifyIn, hfound, Option.getD_some]
  by_contra hne
  exact hone ⟨found, category, hne, hlisted, hword⟩

theorem classifyIn_cons {category : Category} (hword : word ∈ v.list category) :
    v.classifyIn (category :: order) word = category := by
  have hcontains := contains_iff.mpr hword
  simp only [classifyIn, List.find?_cons, hcontains, Option.getD_some]

theorem classifyIn_eq_of_perm (hone : ¬ v.Ambiguous word)
    (hperm : order.Perm Category.precedence) : v.classifyIn order word = v.classify word := by
  have hclassify : v.classify word = v.classifyIn Category.precedence word := rfl
  rw [hclassify]
  by_cases hlisted : ∃ category, word ∈ v.list category
  · obtain ⟨category, hword⟩ := hlisted
    have hmem := mem_precedence_of_mem_list hword
    rw [classifyIn_of_not_ambiguous hone hword hmem,
      classifyIn_of_not_ambiguous hone hword (hperm.mem_iff.mpr hmem)]
  · rw [not_exists] at hlisted
    rw [classifyIn_of_forall_not_mem hlisted, classifyIn_of_forall_not_mem hlisted]

/-- An owner looked up first decides, so two owners decide differently. -/
theorem not_ambiguous_of_classifyIn_eq
    (hsame : ∀ order, order.Perm Category.precedence →
      v.classifyIn order word = v.classify word) : ¬ v.Ambiguous word := by
  have hdecides : ∀ category, word ∈ v.list category → v.classify word = category := by
    intro category hword
    have hmem := mem_precedence_of_mem_list hword
    rw [← hsame _ (List.perm_cons_erase hmem).symm, classifyIn_cons hword]
  intro ⟨first, second, hne, hfirst, hsecond⟩
  exact hne ((hdecides first hfirst).symm.trans (hdecides second hsecond))

end Lookup

/-- The report has one entry for each word on two lists or more and none for any
other, in the order of their bytes, whichever way the lists are gone through.
It is empty just when the lists have no word in common, and just when the order
of lookup does not matter. -/
theorem overlaps_report_ambiguous_words (v : Vocabulary) :
    (∀ word,
      (v.Ambiguous word → (v.overlaps.map (·.1)).count word = 1) ∧
      (¬ v.Ambiguous word → (v.overlaps.map (·.1)).count word = 0)) ∧
    v.overlaps.Pairwise (fun one other => Text.bytes one.1 < Text.bytes other.1) ∧
    (∀ word owners, (word, owners) ∈ v.overlaps →
      owners.Sublist Category.precedence ∧
      (∀ category, category ∈ owners ↔ word ∈ v.list category) ∧
      owners.head? = some (v.classify word)) ∧
    (∀ sets : Category → List String,
      (∀ category, (sets category).Nodup) →
      (∀ category word, word ∈ sets category ↔ word ∈ v.list category) →
      ∀ result : List (String × List Category),
        result.Perm (v.collect sets) →
        result.Pairwise (fun one other => Text.bytes one.1 ≤ Text.bytes other.1) →
        result = v.overlaps) ∧
    (v.overlaps = [] ↔
      ∀ first second, first ≠ second → (v.list first).Disjoint (v.list second)) ∧
    (v.overlaps = [] ↔
      ∀ order, order.Perm Category.precedence →
        ∀ word, v.classifyIn order word = v.classify word) := by
  refine ⟨?_, v.overlaps_increasing, ?_, ?_, ?_, ?_⟩
  · intro word
    rw [← mem_words_overlaps]
    exact ⟨List.count_eq_one_of_mem v.nodup_words_overlaps, List.count_eq_zero_of_not_mem⟩
  · intro word owners hentry
    obtain ⟨hambiguous, rfl⟩ := mem_overlaps.mp hentry
    exact ⟨owners_sublist, fun category => mem_owners,
      head?_owners hambiguous.mem_list_classify⟩
  · intro sets hnodup hsets result hperm hsorted
    exact eq_overlaps_of_sorted (hperm.trans (collect_perm hnodup hsets)) hsorted
  · rw [overlaps_eq_nil_iff]
    constructor
    · intro hnone first second hne word hfirst hsecond
      exact hnone word ⟨first, second, hne, hfirst, hsecond⟩
    · intro hdisjoint word ⟨first, second, hne, hfirst, hsecond⟩
      exact hdisjoint first second hne hfirst hsecond
  · rw [overlaps_eq_nil_iff]
    constructor
    · intro hnone order hperm word
      exact classifyIn_eq_of_perm (hnone word) hperm
    · intro hsame word
      exact not_ambiguous_of_classifyIn_eq fun order hperm => hsame order hperm word

/-- Lists with a word twice, gone through in an order that is not the one of the
report. -/
theorem overlaps_report_ambiguous_words_unsorted :
    let v : Vocabulary := ⟨["do", "é"], [], [], [], ["do", "é", "fn", "do"]⟩
    v.overlaps =
      [("do", [.invalidDeprecated, .keyword]), ("é", [.invalidDeprecated, .keyword])] ∧
    (v.overlaps.map (·.1)).count "do" = 1 ∧
    (v.overlaps.map (·.1)).count "fn" = 0 := by
  intro v
  let sets (category : Category) : List String := (v.list category).dedup.reverse
  let entries : List (String × List Category) :=
    [("do", [.invalidDeprecated, .keyword]), ("é", [.invalidDeprecated, .keyword])]
  obtain ⟨hcount, _, _, hcollect, _, _⟩ := overlaps_report_ambiguous_words v
  have hnodup : ∀ category, (sets category).Nodup := by
    intro category
    exact List.nodup_reverse.mpr (List.nodup_dedup _)
  have hsets : ∀ category word, word ∈ sets category ↔ word ∈ v.list category := by
    intro category word
    exact List.mem_reverse.trans List.mem_dedup
  have hperm : entries.Perm (v.collect sets) := List.Perm.swap _ _ []
  have hlt : Text.bytes "do" < Text.bytes "é" := Text.bytes_lt_of_lt (by decide)
  have hsorted :
      entries.Pairwise (fun one other => Text.bytes one.1 ≤ Text.bytes other.1) :=
    List.pairwise_pair.mpr (List.le_of_lt hlt)
  have hdo : v.Ambiguous "do" := ⟨.invalidDeprecated, .keyword, by decide, by decide, by decide⟩
  have hfn : ¬ v.Ambiguous "fn" := by
    rw [← one_lt_length_owners]
    decide
  exact ⟨(hcollect sets hnodup hsets entries hperm hsorted).symm, (hcount "do").1 hdo,
    (hcount "fn").2 hfn⟩

end Highlighter.Vocabulary
