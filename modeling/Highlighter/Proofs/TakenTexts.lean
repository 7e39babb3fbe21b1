import Highlighter.Proofs.CharClasses
import Highlighter.Proofs.MatchSpans
import Mathlib.Data.List.TakeWhile
import Mathlib.Tactic

/-!
# What plans take

A way of a plan without groups ends behind a text that it has taken.  The
texts that a plan accepts at a cursor are described part by part: what follows
one another takes texts that follow one another, a word takes its characters,
and a repetition takes characters of its class.

Greedy repetitions try the longest text first, so a run of characters takes as
much as what stands behind it allows.
-/

namespace Highlighter

/-! ## Behind a text -/

/-- The cursor behind a text that it stands before. -/
def Cursor.after (cursor : Cursor) : List Char → Cursor
  | [] => cursor
  | c :: cs => (cursor.past c cursor.rest.tail).after cs

namespace Cursor

variable (cursor : Cursor)

theorem after_append (xs ys : List Char) :
    cursor.after (xs ++ ys) = (cursor.after xs).after ys := by
  induction xs generalizing cursor with
  | nil => rfl
  | cons x xs ih => exact ih _

@[simp] theorem offset_after (cs : List Char) :
    (cursor.after cs).offset = cursor.offset + Text.byteLength cs := by
  induction cs generalizing cursor with
  | nil => simp [after]
  | cons c cs ih =>
      simp only [after, ih, past, Text.byteLength_cons]
      omega

@[simp] theorem rest_after (cs : List Char) :
    (cursor.after cs).rest = cursor.rest.drop cs.length := by
  induction cs generalizing cursor with
  | nil => simp [after]
  | cons c cs ih =>
      rw [after, ih, past, List.length_cons, List.drop_tail]

theorem rest_eq_append {cursor : Cursor} {text : List Char} (htext : text <+: cursor.rest) :
    cursor.rest = text ++ (cursor.after text).rest := by
  rw [rest_after, List.prefix_iff_eq_append.mp htext]

theorem before_after {cs : List Char} (hne : cs ≠ []) :
    (cursor.after cs).before = cs.getLast? := by
  induction cs generalizing cursor with
  | nil => exact absurd rfl hne
  | cons c cs ih =>
      rw [after]
      cases cs with
      | nil => rfl
      | cons d cs =>
          rw [ih _ (List.cons_ne_nil d cs), List.getLast?_cons_cons]

end Cursor

def Place.after (place : Place) (cs : List Char) : Place :=
  place.moveTo (place.cursor.after cs)

namespace Place

variable (place : Place)

@[simp] theorem cursor_after (cs : List Char) : (place.after cs).cursor = place.cursor.after cs :=
  rfl

@[simp] theorem after_nil : place.after [] = place :=
  rfl

@[simp] theorem after_after (xs ys : List Char) :
    (place.after xs).after ys = place.after (xs ++ ys) := by
  simp only [after, moveTo, Cursor.after_append]

theorem isBefore_after {cs : List Char} (hne : cs ≠ []) :
    place.isBefore (place.after cs) = true := by
  have hpos := Text.byteLength_pos hne
  simp only [isBefore, cursor_after, Cursor.offset_after, decide_eq_true_eq]
  omega

end Place

theorem append_prefix_iff {xs ys text : List Char} (hxs : xs <+: text) :
    xs ++ ys <+: text ↔ ys <+: text.drop xs.length := by
  obtain ⟨back, rfl⟩ := hxs
  rw [List.prefix_append_right_inj, List.drop_left]

theorem prefix_takeWhile_iff {keep : Char → Bool} {xs text : List Char} :
    xs <+: text.takeWhile keep ↔ xs <+: text ∧ ∀ c ∈ xs, keep c = true := by
  constructor
  · intro hxs
    refine ⟨hxs.trans (List.takeWhile_prefix keep), ?_⟩
    intro c hc
    exact List.mem_takeWhile_imp (hxs.subset hc)
  · rintro ⟨⟨back, rfl⟩, hkeep⟩
    rw [List.takeWhile_append_of_pos hkeep]
    exact List.prefix_append _ _

theorem takeWhile_append_eq {keep : Char → Bool} {run behind : List Char}
    (hrun : ∀ c ∈ run, keep c = true)
    (hbehind : ∀ c, behind.head? = some c → keep c = false) :
    (run ++ behind).takeWhile keep = run := by
  rw [List.takeWhile_append_of_pos hrun]
  cases behind with
  | nil => simp
  | cons c cs => simp [hbehind c rfl]

theorem drop_length_takeWhile (keep : Char → Bool) (text : List Char) :
    text.drop (text.takeWhile keep).length = text.dropWhile keep := by
  induction text with
  | nil => rfl
  | cons c cs ih => by_cases hc : keep c = true <;> simp [hc, ih]

theorem eq_false_of_head?_dropWhile {keep : Char → Bool} {text : List Char} {c : Char}
    (hc : (text.dropWhile keep).head? = some c) : keep c = false := by
  have hhead := List.head?_dropWhile_not keep text
  simpa [hc] using hhead

namespace Plan

/-- A way ends behind a text that it takes. -/
theorem ways_after (p : Plan) : ∀ place, ∀ later ∈ p.ways place,
    ∃ taken, taken <+: place.cursor.rest ∧ later.cursor = place.cursor.after taken := by
  refine p.ways_relates (fun place => ⟨[], List.nil_prefix, rfl⟩) ?_ ?_ ?_
  · rintro place middle later ⟨front, hfront, hmiddle⟩ ⟨back, hback, hlater⟩
    rw [hmiddle, Cursor.rest_after] at hback
    refine ⟨front ++ back, (append_prefix_iff hfront).mpr hback, ?_⟩
    rw [hlater, hmiddle, Cursor.after_append]
  · intro place c cs hrest
    refine ⟨[c], by simp [hrest], ?_⟩
    simp [Place.moveTo, Cursor.after, hrest]
  · rintro place later ⟨taken, hbegins, hlater⟩ index
    exact ⟨taken, hbegins, hlater⟩

/-- The ways of the plan are those that take the texts of the language, which
may depend on the cursor. -/
def Accepts (p : Plan) (language : Cursor → List Char → Prop) : Prop :=
  ∀ place later,
    later ∈ p.ways place ↔
      ∃ text,
        text <+: place.cursor.rest ∧
        language place.cursor text ∧
        later = place.after text

section Languages

variable {p q : Plan} {first second language : Cursor → List Char → Prop}

theorem Accepts.congr (hp : p.Accepts first)
    (hiff : ∀ cursor text, first cursor text ↔ second cursor text) : p.Accepts second := by
  intro place later
  simp only [hp place later, hiff]

theorem Accepts.of_ways (hq : q.Accepts language)
    (hways : ∀ place, p.ways place = q.ways place) : p.Accepts language := by
  intro place later
  rw [hways]
  exact hq place later

theorem mem_ways_seq {place later : Place} :
    later ∈ (seq p q).ways place ↔ ∃ middle ∈ p.ways place, later ∈ q.ways middle := by
  rw [ways, List.mem_flatMap]

theorem Accepts.seq (hp : p.Accepts first) (hq : q.Accepts second) :
    (seq p q).Accepts fun cursor text =>
      ∃ xs ys, text = xs ++ ys ∧ first cursor xs ∧ second (cursor.after xs) ys := by
  intro place later
  rw [mem_ways_seq]
  constructor
  · rintro ⟨middle, hmiddle, hlater⟩
    obtain ⟨xs, hxs, hfirst, rfl⟩ := (hp place middle).mp hmiddle
    obtain ⟨ys, hys, hsecond, rfl⟩ := (hq _ later).mp hlater
    rw [Place.cursor_after, Cursor.rest_after] at hys
    exact ⟨xs ++ ys, (append_prefix_iff hxs).mpr hys, ⟨xs, ys, rfl, hfirst, hsecond⟩,
      place.after_after xs ys⟩
  · rintro ⟨_, htext, ⟨xs, ys, rfl, hfirst, hsecond⟩, rfl⟩
    have hxs : xs <+: place.cursor.rest := (List.prefix_append xs ys).trans htext
    refine ⟨place.after xs, (hp place _).mpr ⟨xs, hxs, hfirst, rfl⟩, (hq _ _).mpr ?_⟩
    refine ⟨ys, ?_, hsecond, (place.after_after xs ys).symm⟩
    rw [Place.cursor_after, Cursor.rest_after]
    exact (append_prefix_iff hxs).mp htext

theorem Accepts.alt (hp : p.Accepts first) (hq : q.Accepts second) :
    (alt p q).Accepts fun cursor text => first cursor text ∨ second cursor text := by
  intro place later
  rw [ways, List.mem_append, hp, hq, ← exists_or]
  refine exists_congr fun text => ?_
  tauto

theorem look_accepts (assertion : Assertion) :
    (look assertion).Accepts fun cursor text => text = [] ∧ assertion.holds cursor = true := by
  intro place later
  by_cases hholds : assertion.holds place.cursor = true <;> simp [hholds]

end Languages

variable {set : CharSet} {place : Place}

theorem ways_one_cons {c : Char} {cs : List Char} (hrest : place.cursor.rest = c :: cs) :
    (one set).ways place = if set.contains c then [place.after [c]] else [] := by
  simp [hrest, Place.after, Cursor.after]

theorem one_accepts (set : CharSet) :
    (one set).Accepts fun _ text => ∃ c, text = [c] ∧ set.contains c = true := by
  intro place later
  cases hrest : place.cursor.rest with
  | nil =>
      simp only [ways, hrest, List.prefix_nil]
      grind
  | cons d cs =>
      rw [ways_one_cons hrest]
      by_cases hset : set.contains d = true <;> simp [hset]

/-! ## Words -/

/-- Takes the characters of the text. -/
def word (text : String) : Plan :=
  seqAll (text.toList.map fun c => one (.single c))

/-- Takes one of the texts, an earlier one in preference. -/
def anyWord (first : String) : List String → Plan
  | [] => word first
  | next :: texts => alt (word first) (anyWord next texts)

theorem ways_seqAll_cons (p : Plan) (ps : List Plan) (place : Place) :
    (seqAll (p :: ps)).ways place = (seq p (seqAll ps)).ways place := by
  cases ps with
  | nil => simp [seqAll]
  | cons q ps => rfl

theorem ways_seqAll_chars (cs : List Char) (place : Place) :
    (seqAll (cs.map fun c => one (.single c))).ways place =
      if cs <+: place.cursor.rest then [place.after cs] else [] := by
  induction cs generalizing place with
  | nil => simp [seqAll]
  | cons c cs ih =>
      rw [List.map_cons, ways_seqAll_cons, ways]
      cases hrest : place.cursor.rest with
      | nil => simp [hrest]
      | cons d rest =>
          rw [ways_one_cons hrest]
          by_cases hd : d = c
          · have hcs : (place.after [d]).cursor.rest = rest := by simp [hrest]
            have hafter : (place.after [d]).after cs = place.after (d :: cs) := rfl
            rw [if_pos (CharSet.contains_single.mpr hd), List.flatMap_singleton, ih, hcs, hafter]
            simp [hd]
          · simp [CharSet.contains_single, hd, Ne.symm hd]

theorem seqAll_chars_accepts (cs : List Char) :
    (seqAll (cs.map fun c => one (.single c))).Accepts fun _ text => text = cs := by
  intro place later
  rw [ways_seqAll_chars]
  by_cases hbegins : cs <+: place.cursor.rest <;> simp [hbegins]

theorem word_accepts (text : String) :
    (word text).Accepts fun _ taken => taken = text.toList :=
  seqAll_chars_accepts text.toList

theorem anyWord_accepts (first : String) (texts : List String) :
    (anyWord first texts).Accepts fun _ taken => String.ofList taken ∈ first :: texts := by
  induction texts generalizing first with
  | nil =>
      refine (word_accepts first).congr ?_
      intro _ taken
      rw [List.mem_singleton, ← String.toList_inj, String.toList_ofList]
  | cons next texts ih =>
      refine ((word_accepts first).alt (ih next)).congr ?_
      intro _ taken
      rw [List.mem_cons (b := first), ← String.toList_inj, String.toList_ofList]

/-! ## Runs -/

/-- A greedy repetition takes the beginnings of a run, the longest one first. -/
theorem ways_star_one (set : CharSet) (place : Place) :
    (star true (one set)).ways place =
      (place.cursor.rest.takeWhile set.contains).inits.reverse.map place.after := by
  rw [ways]
  generalize hleft : place.cursor.rest = left
  induction left generalizing place with
  | nil => simp [roundWays]
  | cons c left ih =>
      have hrest : (place.after [c]).cursor.rest = left := by simp [hleft]
      simp only [roundWays, if_true]
      rw [ways_one_cons hleft]
      by_cases hset : set.contains c = true
      · have hbefore := place.isBefore_after (List.cons_ne_nil c [])
        rw [if_pos hset, List.takeWhile_cons_of_pos hset, List.inits_cons, List.reverse_cons,
          List.map_append, ← List.map_reverse, List.map_map]
        rw [List.flatMap_singleton, if_pos hbefore, ih _ hrest]
        rfl
      · simp [hset]

theorem star_one_accepts (set : CharSet) :
    (star true (one set)).Accepts fun _ text => ∀ c ∈ text, set.contains c = true := by
  intro place later
  simp only [ways_star_one, List.mem_map, List.mem_reverse, List.mem_inits,
    prefix_takeWhile_iff, and_assoc, eq_comm]

theorem ways_many_one (set : CharSet) (place : Place) :
    (many true (one set)).ways place = (seq (one set) (star true (one set))).ways place := by
  refine List.flatMap_congr ?_
  intro middle hmiddle
  obtain ⟨_, _, ⟨c, rfl, _⟩, rfl⟩ := (one_accepts set place middle).mp hmiddle
  rw [if_pos (place.isBefore_after (List.cons_ne_nil c []))]
  rfl

theorem many_one_accepts (set : CharSet) :
    (many true (one set)).Accepts fun _ text =>
      text ≠ [] ∧ ∀ c ∈ text, set.contains c = true := by
  have hseq := (one_accepts set).seq (star_one_accepts set)
  refine (hseq.of_ways (ways_many_one set)).congr ?_
  intro _ text
  constructor
  · rintro ⟨_, run, rfl, ⟨c, rfl, hset⟩, hall⟩
    simpa using ⟨hset, hall⟩
  · rintro ⟨hne, hall⟩
    cases text with
    | nil => exact absurd rfl hne
    | cons c run =>
        rw [List.forall_mem_cons] at hall
        exact ⟨[c], run, rfl, ⟨c, rfl, hall.1⟩, hall.2⟩

theorem getLast?_inits (run : List Char) : run.inits.getLast? = some run := by
  induction run with
  | nil => rfl
  | cons c run ih => simp [List.getLast?_cons, ih]

/-- A greedy repetition takes the whole run in preference. -/
theorem head?_ways_many_one {c : Char} {cs : List Char} (hrest : place.cursor.rest = c :: cs)
    (hset : set.contains c = true) :
    ((many true (one set)).ways place).head? =
      some (place.after (place.cursor.rest.takeWhile set.contains)) := by
  have hcs : (place.after [c]).cursor.rest = cs := by simp [hrest]
  rw [ways_many_one, ways, ways_one_cons hrest, if_pos hset, List.flatMap_singleton,
    ways_star_one, hcs, List.head?_map, List.head?_reverse, getLast?_inits, hrest,
    List.takeWhile_cons_of_pos hset, Option.map_some, Place.after_after, List.singleton_append]

/-- A mark behind the repeated part changes nothing about the ways. -/
theorem ways_many_marked (greedy : Bool) (id : Nat) (p : Plan) (place : Place) :
    (many greedy (seq p (once id empty))).ways place = (many greedy p).ways place := by
  have hways : (seq p (once id empty)).ways = p.ways := by
    funext place
    simp
  rw [ways, hways]
  rfl

/-! ## The longest run -/

theorem pairwise_length_inits (run : List Char) :
    run.inits.Pairwise fun xs ys => xs.length ≤ ys.length := by
  induction run with
  | nil => simp
  | cons c run ih => simp [List.pairwise_map, ih]

/-- Of the beginnings of a run that are kept, the longest one comes first. -/
theorem longest_of_head? {run first : List Char} {keep : List Char → Bool}
    (hfirst : (run.inits.reverse.filter keep).head? = some first) :
    first <+: run ∧ keep first = true ∧
      ∀ xs, xs <+: run → keep xs = true → xs.length ≤ first.length := by
  obtain ⟨others, hlist⟩ := List.head?_eq_some_iff.mp hfirst
  have hmem : ∀ xs, xs ∈ first :: others ↔ xs <+: run ∧ keep xs = true := by
    intro xs
    rw [← hlist, List.mem_filter, List.mem_reverse, List.mem_inits]
  have hsorted : (first :: others).Pairwise fun xs ys => ys.length ≤ xs.length := by
    rw [← hlist]
    exact (List.pairwise_reverse.mpr (pairwise_length_inits run)).filter _
  obtain ⟨hbegins, hkeep⟩ := (hmem first).mp List.mem_cons_self
  refine ⟨hbegins, hkeep, ?_⟩
  intro xs hxs hkept
  rcases List.mem_cons.mp ((hmem xs).mpr ⟨hxs, hkept⟩) with rfl | hother
  · exact le_rfl
  · exact (List.pairwise_cons.mp hsorted).1 xs hother

theorem ways_run_look (set : CharSet) (assertion : Assertion) (place : Place) :
    (seq (star true (one set)) (look assertion)).ways place =
      ((place.cursor.rest.takeWhile set.contains).inits.reverse.filter
        fun run => assertion.holds (place.cursor.after run)).map place.after := by
  rw [ways, ways_star_one]
  generalize (place.cursor.rest.takeWhile set.contains).inits.reverse = runs
  induction runs with
  | nil => rfl
  | cons run runs ih =>
      rw [List.map_cons, List.flatMap_cons, ih, List.filter_cons]
      by_cases hholds : assertion.holds (place.cursor.after run) = true
      · simp [hholds]
      · simp [hholds]

/-- A character of one class and a run of another take as much as the assertion
behind them allows. -/
theorem matchAt?_longest {first : CharSet} {assertion : Assertion} {cursor : Cursor}
    {thread : Thread}
    (hmatch : (seq (one first) (seq (star true (one set)) (look assertion))).matchAt? cursor =
      some thread) :
    ∃ c run,
      c :: run <+: cursor.rest ∧
      first.contains c = true ∧
      (∀ d ∈ run, set.contains d = true) ∧
      assertion.holds (cursor.after (c :: run)) = true ∧
      thread.place = (Place.start cursor).after (c :: run) ∧
      ∀ longer, c :: longer <+: cursor.rest → (∀ d ∈ longer, set.contains d = true) →
        assertion.holds (cursor.after (c :: longer)) = true → longer.length ≤ run.length := by
  generalize hp : seq (one first) (seq (star true (one set)) (look assertion)) = p at hmatch
  have hunmarked : p.unmarked = true := hp ▸ rfl
  have hhead := matchAt?_eq_head? hunmarked cursor
  rw [hmatch, Option.map_some, ← hp, ways] at hhead
  cases hrest : cursor.rest with
  | nil => simp [Place.start, hrest] at hhead
  | cons c cs =>
      rw [ways_one_cons hrest] at hhead
      by_cases hfirst : first.contains c = true
      · rw [if_pos hfirst, List.flatMap_singleton, ways_run_look, List.head?_map] at hhead
        obtain ⟨run, hrun, hplace⟩ := Option.map_eq_some_iff.mp hhead.symm
        obtain ⟨hbegins, hholds, hlongest⟩ := longest_of_head? hrun
        have hcs : ((Place.start cursor).after [c]).cursor.rest = cs := by
          simp [Place.start, hrest]
        rw [hcs] at hbegins hlongest
        simp only [prefix_takeWhile_iff] at hbegins hlongest
        refine ⟨c, run, ?_, hfirst, hbegins.2, hholds, ?_, ?_⟩
        · exact List.cons_prefix_cons.mpr ⟨rfl, hbegins.1⟩
        · rw [← hplace, Place.after_after, List.singleton_append]
        · intro longer hlonger hset hedge
          exact hlongest longer ⟨(List.cons_prefix_cons.mp hlonger).2, hset⟩ hedge
      · rw [if_neg hfirst] at hhead
        simp at hhead

end Plan

end Highlighter
