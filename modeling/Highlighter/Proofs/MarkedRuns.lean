import Highlighter.Proofs.TakenTexts
import Mathlib.Tactic

/-!
# Runs with marks

A run that marks each place it comes by goes on to ever later places, so it is
never stopped by a mark of its own.  If no earlier attempt has left such marks
ahead, matching it is again trying its ways in order: it sets its marks on the
way to its end, and only then hands a place to the continuation.

What is found behind a run is then told by ways alone, as long as the
continuation, where it fails, leaves no marks that would stop it the next time.
-/

namespace Highlighter

/-! ## Marks -/

theorem mem_insert_mark {visited : Visited} {mark other : Nat × Nat} :
    other ∈ visited.insert mark ↔ other = mark ∨ other ∈ visited := by
  have heq : markOrder mark other = .eq ↔ other = mark := by
    simp only [markOrder, compareLex, compareOn, Ordering.then_eq_eq, Nat.compare_eq_eq]
    rw [← Prod.ext_iff, eq_comm]
  rw [Std.TreeSet.mem_insert, heq]

/-- The marks of a run that takes these characters from the offset on. -/
def markAlong (id : Nat) : Nat → List Char → Visited → Visited
  | _, [], visited => visited
  | offset, c :: cs, visited =>
    markAlong id (offset + c.utf8Size) cs (visited.insert (offset + c.utf8Size, id))

/-- No mark of this number has been set. -/
def NeverMarked (id : Nat) (visited : Visited) : Prop :=
  ∀ offset, (offset, id) ∉ visited

theorem neverMarked_empty (id : Nat) : NeverMarked id ∅ :=
  fun _ => Std.TreeSet.not_mem_emptyc

theorem NeverMarked.markAlong {id other : Nat} {visited : Visited}
    (hnever : NeverMarked other visited) (hne : other ≠ id) (offset : Nat) (cs : List Char) :
    NeverMarked other (markAlong id offset cs visited) := by
  induction cs generalizing offset visited with
  | nil => exact hnever
  | cons c cs ih =>
      refine ih ?_ _
      intro later hlater
      rcases mem_insert_mark.mp hlater with heq | hmem
      · exact hne (congrArg Prod.snd heq)
      · exact hnever later hmem

/-- No mark of this number stands behind the offset. -/
def ClearBehind (id offset : Nat) (visited : Visited) : Prop :=
  ∀ later, offset < later → (later, id) ∉ visited

theorem NeverMarked.clearBehind {id : Nat} {visited : Visited} (hnever : NeverMarked id visited)
    (offset : Nat) : ClearBehind id offset visited :=
  fun later _ => hnever later

/-! ## Runs -/

/-- The thread behind one character of a run and the mark that stands there. -/
def Thread.markedPast (thread : Thread) (id : Nat) (c : Char) (cs : List Char) : Thread :=
  (thread.moveTo (thread.cursor.past c cs)).visit id

section Step

variable {thread : Thread} {id : Nat} {c : Char} {cs : List Char}

theorem Thread.isBefore_markedPast : thread.isBefore (thread.markedPast id c cs) = true :=
  decide_eq_true (Nat.lt_add_of_pos_right c.utf8Size_pos)

theorem Thread.place_markedPast (hrest : thread.cursor.rest = c :: cs) :
    (thread.markedPast id c cs).place = thread.place.after [c] := by
  simp [markedPast, place, visit, moveTo, Place.after, Place.moveTo, Cursor.after, hrest]

theorem ClearBehind.markedPast
    (hclear : ClearBehind id thread.cursor.offset thread.visited) :
    ClearBehind id (thread.markedPast id c cs).cursor.offset
      (thread.markedPast id c cs).visited := by
  intro offset hlt hmem
  have hoffset : thread.cursor.offset + c.utf8Size < offset := hlt
  rcases mem_insert_mark.mp hmem with heq | hmem
  · exact absurd (congrArg Prod.fst heq) (Nat.ne_of_gt hoffset)
  · exact hclear offset (by omega) hmem

end Step

namespace Plan

/-- One round of a run that marks the places it comes by. -/
def markedStep (set : CharSet) (id : Nat) : Plan :=
  seq (one set) (once id empty)

section Runs

variable {set : CharSet} {id : Nat} {thread : Thread}

theorem run_markedStep_of_contains {c : Char} {cs : List Char}
    (hclear : ClearBehind id thread.cursor.offset thread.visited)
    (hrest : thread.cursor.rest = c :: cs)
    (hset : set.contains c = true)
    (next : Continuation) :
    (markedStep set id).run thread next = next (thread.markedPast id c cs) := by
  have hfree : (thread.moveTo (thread.cursor.past c cs)).hasVisited id = false := by
    rw [Thread.hasVisited, ← Bool.not_eq_true, ← Std.TreeSet.mem_iff_contains]
    exact hclear _ (Nat.lt_add_of_pos_right c.utf8Size_pos)
  simp [markedStep, run, hrest, hset, hfree, Thread.markedPast]

theorem run_markedStep_of_stopped
    (hstop : thread.cursor.rest.takeWhile set.contains = [])
    (next : Continuation) :
    (markedStep set id).run thread next = .error thread.visited := by
  cases hrest : thread.cursor.rest with
  | nil => simp [markedStep, run, hrest]
  | cons c cs =>
      have hset : ¬ set.contains c = true := by simpa [hrest] using hstop
      simp [markedStep, run, hrest, hset]

theorem ways_star_one_cons {place : Place} {c : Char} {cs : List Char}
    (hrest : place.cursor.rest = c :: cs) (hset : set.contains c = true) :
    (star true (one set)).ways place =
      (star true (one set)).ways (place.after [c]) ++ [place] := by
  have hcs : (place.after [c]).cursor.rest = cs := by simp [hrest]
  rw [ways_star_one, ways_star_one, hcs, hrest, List.takeWhile_cons_of_pos hset, List.inits_cons,
    List.reverse_cons, List.map_append, ← List.map_reverse, List.map_map]
  rfl

theorem ways_star_one_of_stopped {place : Place}
    (hstop : place.cursor.rest.takeWhile set.contains = []) :
    (star true (one set)).ways place = [place] := by
  rw [ways_star_one, hstop]
  simp

theorem ways_many_one_cons {place : Place} {c : Char} {cs : List Char}
    (hrest : place.cursor.rest = c :: cs) (hset : set.contains c = true) :
    (many true (one set)).ways place = (star true (one set)).ways (place.after [c]) := by
  rw [ways_many_one, ways, ways_one_cons hrest, if_pos hset, List.flatMap_singleton]

/-- The ways of a run take its beginnings but the empty one, the longest first. -/
theorem ways_many_one_eq (set : CharSet) (place : Place) :
    (many true (one set)).ways place =
      (place.cursor.rest.takeWhile set.contains).inits.tail.reverse.map place.after := by
  cases hrest : place.cursor.rest with
  | nil => simp [hrest]
  | cons c cs =>
      by_cases hset : set.contains c = true
      · have hcs : (place.after [c]).cursor.rest = cs := by simp [hrest]
        rw [ways_many_one_cons hrest hset, ways_star_one, hcs, List.takeWhile_cons_of_pos hset,
          List.inits_cons, List.tail_cons, ← List.map_reverse, List.map_map]
        rfl
      · simp [hrest, hset]

theorem rounds_markedStep (next : Continuation)
    (hclear : ClearBehind id thread.cursor.offset thread.visited) :
    rounds (markedStep set id).run true next thread.cursor.rest thread =
      tryAll next ((star true (one set)).ways thread.place)
        (markAlong id thread.cursor.offset (thread.cursor.rest.takeWhile set.contains)
          thread.visited) := by
  generalize hleft : thread.cursor.rest = left
  induction left generalizing thread with
  | nil =>
      have hways : (star true (one set)).ways thread.place = [thread.place] :=
        ways_star_one_of_stopped (by simp [hleft])
      rw [hways, tryAll_singleton]
      rfl
  | cons c left ih =>
      simp only [rounds, if_true]
      by_cases hset : set.contains c = true
      · have hways : (star true (one set)).ways thread.place =
            (star true (one set)).ways (thread.markedPast id c left).place ++ [thread.place] := by
          rw [Thread.place_markedPast hleft]
          exact ways_star_one_cons hleft hset
        -- The mark of this round is set before any of the later places is tried.
        rw [Thread.either, run_markedStep_of_contains hclear hleft hset,
          if_pos Thread.isBefore_markedPast, ih hclear.markedPast rfl, hways, tryAll_append,
          List.takeWhile_cons_of_pos hset]
        simp only [tryAll_singleton]
        rfl
      · have hstop : thread.cursor.rest.takeWhile set.contains = [] := by simp [hleft, hset]
        have hways : (star true (one set)).ways thread.place = [thread.place] :=
          ways_star_one_of_stopped hstop
        rw [Thread.either, run_markedStep_of_stopped hstop, hways, tryAll_singleton,
          List.takeWhile_cons_of_neg hset]
        rfl

/-- Matching a marked run is trying its ways in order. -/
theorem run_many_markedStep (next : Continuation)
    (hclear : ClearBehind id thread.cursor.offset thread.visited) :
    (many true (markedStep set id)).run thread next =
      tryAll next ((many true (one set)).ways thread.place)
        (markAlong id thread.cursor.offset (thread.cursor.rest.takeWhile set.contains)
          thread.visited) := by
  rw [run]
  cases hrest : thread.cursor.rest with
  | nil =>
      rw [run_markedStep_of_stopped (by simp [hrest]), ways_many_one_eq]
      simp [hrest, tryAll, markAlong]
  | cons c cs =>
      by_cases hset : set.contains c = true
      · have hways : (many true (one set)).ways thread.place =
            (star true (one set)).ways (thread.markedPast id c cs).place := by
          rw [Thread.place_markedPast hrest]
          exact ways_many_one_cons hrest hset
        rw [run_markedStep_of_contains hclear hrest hset, if_pos Thread.isBefore_markedPast,
          rounds_markedStep next hclear.markedPast, hways, List.takeWhile_cons_of_pos hset]
        rfl
      · have hstop : thread.cursor.rest.takeWhile set.contains = [] := by simp [hrest, hset]
        rw [run_markedStep_of_stopped hstop, ways_many_one_eq]
        simp [hstop, hset, tryAll, markAlong]

end Runs

end Plan

/-! ## What is found -/

/-- The attempt comes to the place, or it fails and what it leaves is kept. -/
def Finds (Keeps : Visited → Prop) (attempt : Attempt) : Option Place → Prop
  | some place => ∃ visited, attempt = .ok (place.thread visited)
  | none => ∃ visited, attempt = .error visited ∧ Keeps visited

theorem tryAll_finds {Keeps : Visited → Prop} {next : Continuation} {ways : Place → List Place}
    (hnext : ∀ place visited, Keeps visited →
      Finds Keeps (next (place.thread visited)) (ways place).head?)
    (places : List Place) {visited : Visited} (hkeeps : Keeps visited) :
    Finds Keeps (tryAll next places visited) (places.flatMap ways).head? := by
  induction places generalizing visited with
  | nil => exact ⟨visited, rfl, hkeeps⟩
  | cons place places ih =>
      have hfirst := hnext place visited hkeeps
      rw [List.flatMap_cons, List.head?_append]
      cases hways : (ways place).head? with
      | none =>
          rw [hways] at hfirst
          obtain ⟨left, hfail, hleft⟩ := hfirst
          simp only [tryAll, hfail, Option.none_or]
          exact ih hleft
      | some later =>
          rw [hways] at hfirst
          obtain ⟨left, hfound⟩ := hfirst
          simp only [tryAll, hfound, Option.some_or]
          exact ⟨left, rfl⟩

namespace Plan

/-- A marked run, held by a group. -/
def markedRun (index : Nat) (set : CharSet) (id : Nat) : Plan :=
  group index (many true (markedStep set id))

theorem ways_markedRun (index : Nat) (set : CharSet) (id : Nat) (place : Place) :
    (markedRun index set id).ways place =
      (place.cursor.rest.takeWhile set.contains).inits.tail.reverse.map
        fun run => (place.after run).record index place.cursor.offset := by
  rw [markedRun, ways, markedStep, ways_many_marked, ways_many_one_eq, List.map_map]
  rfl

theorem mem_tail_inits {run xs : List Char} : xs ∈ run.inits.tail ↔ xs ≠ [] ∧ xs <+: run := by
  cases run with
  | nil => simp
  | cons c run =>
      cases xs with
      | nil => simp
      | cons d xs => simp [and_comm, eq_comm]

theorem head?_ways_markedRun (index : Nat) (set : CharSet) (id : Nat) (place : Place) :
    ((markedRun index set id).ways place).head? =
      if place.cursor.rest.takeWhile set.contains = [] then none
      else some ((place.after (place.cursor.rest.takeWhile set.contains)).record index
        place.cursor.offset) := by
  rw [ways_markedRun, List.head?_map, List.head?_reverse]
  cases place.cursor.rest.takeWhile set.contains with
  | nil => rfl
  | cons c run => simp [getLast?_inits]

/-- A marked run that ends the match finds the first of its ways, or sets no
marks. -/
theorem run_markedRun_finds (index : Nat) (set : CharSet) (id : Nat) (place : Place)
    {visited : Visited} (hnever : NeverMarked id visited) :
    Finds (NeverMarked id) ((markedRun index set id).run (place.thread visited) .ok)
      ((markedRun index set id).ways place).head? := by
  rw [ways_markedRun, markedRun, run, run_many_markedStep _ (hnever.clearBehind _)]
  change Finds _ (tryAll _ ((many true (one set)).ways place)
    (markAlong id place.cursor.offset (place.cursor.rest.takeWhile set.contains) visited)) _
  rw [ways_many_one_eq]
  cases place.cursor.rest.takeWhile set.contains with
  | nil => exact ⟨visited, rfl, hnever⟩
  | cons c run =>
      obtain ⟨first, others, hruns⟩ : ∃ first others,
          (c :: run).inits.tail.reverse = first :: others := by
        apply List.exists_cons_of_ne_nil
        cases run <;> simp
      rw [hruns]
      exact ⟨_, rfl⟩

section TwoRuns

variable {index index' id id' : Nat} {set set' : CharSet} {place later : Place}

theorem run_markedRuns_finds (index index' : Nat) (set set' : CharSet) {id id' : Nat}
    (hne : id' ≠ id) (place : Place) :
    Finds (NeverMarked id')
      ((seq (markedRun index set id) (markedRun index' set' id')).run (place.thread ∅) .ok)
      ((seq (markedRun index set id) (markedRun index' set' id')).ways place).head? := by
  have hclear : ClearBehind id (place.thread ∅).cursor.offset (place.thread ∅).visited :=
    (neverMarked_empty id).clearBehind _
  rw [run, markedRun, run, run_many_markedStep _ hclear, ways, ways, markedStep,
    ways_many_marked, List.flatMap_map]
  refine tryAll_finds ?_ _ ((neverMarked_empty id').markAlong hne _ _)
  intro later visited hnever
  exact run_markedRun_finds index' set' id' (later.record index place.cursor.offset) hnever

/-- The first run takes as much as leaves something to the second, and the
second takes all that it finds there. -/
theorem head?_ways_markedRuns
    (hhead : ((seq (markedRun index set id) (markedRun index' set' id')).ways place).head? =
      some later) :
    ∃ xs ys,
      xs ≠ [] ∧
      xs <+: place.cursor.rest.takeWhile set.contains ∧
      ys ≠ [] ∧
      ys = (place.cursor.after xs).rest.takeWhile set'.contains ∧
      later = (((place.after xs).record index place.cursor.offset).after ys).record index'
        (place.cursor.after xs).offset ∧
      ∀ longer, longer <+: place.cursor.rest.takeWhile set.contains →
        (place.cursor.after longer).rest.takeWhile set'.contains ≠ [] →
        longer.length ≤ xs.length := by
  generalize hrun : place.cursor.rest.takeWhile set.contains = run
  rw [ways, ways_markedRun, hrun, List.flatMap_map, List.head?_flatMap,
    List.findSome?_eq_some_iff] at hhead
  obtain ⟨front, xs, back, htexts, hfound, hfail⟩ := hhead
  simp only [head?_ways_markedRun] at hfound hfail
  have hmem : ∀ text, text ∈ front ++ xs :: back ↔ text ≠ [] ∧ text <+: run := by
    intro text
    rw [← htexts, List.mem_reverse, mem_tail_inits]
  -- The beginnings of the run are tried from the longest down.
  have hsorted : (front ++ xs :: back).Pairwise fun xs ys => ys.length ≤ xs.length := by
    rw [← htexts]
    exact List.pairwise_reverse.mpr (pairwise_length_inits run).tail
  obtain ⟨hxs, hbegins⟩ := (hmem xs).mp (by simp)
  split at hfound
  next => simp at hfound
  next hys =>
    refine ⟨xs, _, hxs, hbegins, hys, rfl, (Option.some.inj hfound).symm, ?_⟩
    intro longer hlonger hleaves
    by_contra hlt
    have hne : longer ≠ [] := by
      rintro rfl
      simp at hlt
    have hlater := (hmem longer).mpr ⟨hne, hlonger⟩
    simp only [List.mem_append, List.mem_cons] at hlater
    rcases hlater with hfront | rfl | hback
    · have hnone := hfail longer hfront
      split at hnone
      next hleft => exact hleaves hleft
      next => simp at hnone
    · exact hlt le_rfl
    · have hle := (List.pairwise_cons.mp (List.pairwise_append.mp hsorted).2.1).1 longer hback
      exact hlt hle

theorem run_markedRuns_eq_ok (hne : id' ≠ id) {found : Thread}
    (hrun : (seq (markedRun index set id) (markedRun index' set' id')).run (place.thread ∅) .ok =
      .ok found) :
    ((seq (markedRun index set id) (markedRun index' set' id')).ways place).head? =
      some found.place := by
  have hfinds := run_markedRuns_finds index index' set set' hne place
  rw [hrun] at hfinds
  cases hhead : ((seq (markedRun index set id) (markedRun index' set' id')).ways place).head? with
  | none =>
      rw [hhead] at hfinds
      obtain ⟨_, hfail, _⟩ := hfinds
      simp at hfail
  | some later =>
      rw [hhead] at hfinds
      obtain ⟨visited, hfound⟩ := hfinds
      rw [Except.ok.inj hfound]
      rfl

end TwoRuns

end Plan

end Highlighter
