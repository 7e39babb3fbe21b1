import Highlighter.Proofs.ScanRuns
import Mathlib.Data.Option.Basic

/-!
# What stands before a match

A plan sees the text before the cursor only through assertions that look back.
If it takes a character before each of them, they see what the plan has taken,
and the plan matches alike at two cursors with the same text ahead, wherever
they stand in their lines.  This is one relation between attempts, which every
such plan respects; marks are compared by the place where they were made.
-/

namespace Highlighter

def Assertion.looksBack : Assertion → Bool
  | textEnd => false
  | lineEnd => false
  | noWordAfter _ => false
  | _ => true

namespace Plan

/-- Whether every way of the plan takes a character. -/
def takesSome : Plan → Bool
  | empty => false
  | one _ => true
  | look _ => false
  | seq p q => p.takesSome || q.takesSome
  | alt p q => p.takesSome && q.takesSome
  | group _ p => p.takesSome
  | star _ _ => false
  | many _ p => p.takesSome
  | once _ p => p.takesSome

/-- Whether no assertion looks back to before the place where the plan begins. -/
def blind : Plan → Bool
  | empty => true
  | one _ => true
  | look assertion => !assertion.looksBack
  | seq p q => p.blind && (p.takesSome || q.blind)
  | alt p q => p.blind && q.blind
  | group _ p => p.blind
  | star _ p => p.blind
  | many _ p => p.blind
  | once _ p => p.blind

end Plan

/-! ## Moved attempts -/

def Span.shift (bytes : Nat) (span : Span) : Span :=
  ⟨span.start + bytes, span.stop + bytes⟩

/-- `moved` stands before the same text as `cursor`, further on by a number of
bytes; if `same` is set, behind the same character. -/
structure Cursor.Moved (bytes : Nat) (same : Bool) (cursor moved : Cursor) : Prop where
  rest : moved.rest = cursor.rest
  offset : moved.offset = cursor.offset + bytes
  before : same = true → moved.before = cursor.before

def MarksMoved (bytes : Nat) (visited moved : Visited) : Prop :=
  ∀ offset id, moved.contains (offset + bytes, id) = visited.contains (offset, id)

structure Thread.Moved (bytes : Nat) (same : Bool) (thread moved : Thread) : Prop where
  cursor : thread.cursor.Moved bytes same moved.cursor
  groups : moved.groups = thread.groups.map fun group => (group.1, group.2.shift bytes)
  visited : MarksMoved bytes thread.visited moved.visited

inductive AttemptMoved (bytes : Nat) : Attempt → Attempt → Prop
  | ok {thread moved : Thread} :
      thread.Moved bytes false moved →
      AttemptMoved bytes (.ok thread) (.ok moved)
  | error {visited moved : Visited} :
      MarksMoved bytes visited moved →
      AttemptMoved bytes (.error visited) (.error moved)

def ContinuationMoved (bytes : Nat) (same : Bool) (next moved : Continuation) : Prop :=
  ∀ thread thread', thread.Moved bytes same thread' →
    AttemptMoved bytes (next thread) (moved thread')

/-- Moved threads and continuations give moved attempts.  The continuation may
rely on `after`, when the threads have `before`. -/
def Respects (bytes : Nat) (before after : Bool) (body : Thread → Continuation → Attempt) : Prop :=
  ∀ thread thread' next next',
    thread.Moved bytes before thread' →
    ContinuationMoved bytes after next next' →
    AttemptMoved bytes (body thread next) (body thread' next')

section Moved

variable {bytes : Nat} {same : Bool}

theorem Cursor.Moved.weaken {cursor moved : Cursor} {weaker : Bool}
    (hmoved : cursor.Moved bytes same moved) (hweaker : weaker = true → same = true) :
    cursor.Moved bytes weaker moved :=
  ⟨hmoved.rest, hmoved.offset, fun hsame => hmoved.before (hweaker hsame)⟩

theorem Cursor.Moved.past {cursor moved : Cursor} (hmoved : cursor.Moved bytes same moved)
    (c : Char) (cs : List Char) : (cursor.past c cs).Moved bytes true (moved.past c cs) := by
  refine ⟨rfl, ?_, fun _ => rfl⟩
  simp only [Cursor.past, hmoved.offset]
  omega

theorem Assertion.holds_moved {assertion : Assertion} {cursor moved : Cursor}
    (hmoved : cursor.Moved bytes same moved)
    (hblind : same = true ∨ assertion.looksBack = false) :
    assertion.holds moved = assertion.holds cursor := by
  have hrest := hmoved.rest
  rcases hblind with hsame | hahead
  · have hbefore := hmoved.before hsame
    cases assertion <;>
      simp only [holds, Cursor.atEnd, Cursor.atWordEdge, Cursor.wordBefore, Cursor.wordAfter,
        Cursor.insideLineBreak, hrest, hbefore]
  · cases assertion with
    | textEnd => simp only [holds, Cursor.atEnd, hrest]
    | lineEnd => simp only [holds, hrest]
    | noWordAfter alphabet => simp only [holds, Cursor.wordAfter, hrest]
    | _ => simp [looksBack] at hahead

theorem MarksMoved.insert {visited moved : Visited} (hmoved : MarksMoved bytes visited moved)
    (offset id : Nat) :
    MarksMoved bytes (visited.insert (offset, id)) (moved.insert (offset + bytes, id)) := by
  have horder : ∀ a b : Nat, compare (a + bytes) (b + bytes) = compare a b := by
    intro a b
    simp only [Nat.compare_eq_ite_lt, Nat.add_lt_add_iff_right]
  intro offset' id'
  rw [Std.TreeSet.contains_insert, Std.TreeSet.contains_insert, hmoved]
  simp only [compareLex, compareOn, horder]

namespace Thread.Moved

variable {thread moved : Thread}

theorem weaken {weaker : Bool} (hmoved : thread.Moved bytes same moved)
    (hweaker : weaker = true → same = true) : thread.Moved bytes weaker moved :=
  ⟨hmoved.cursor.weaken hweaker, hmoved.groups, hmoved.visited⟩

theorem withVisited {visited visited' : Visited} (hmoved : thread.Moved bytes same moved)
    (hvisited : MarksMoved bytes visited visited') :
    Thread.Moved bytes same { thread with visited } { moved with visited := visited' } :=
  ⟨hmoved.cursor, hmoved.groups, hvisited⟩

theorem record {start start' : Nat} (hmoved : thread.Moved bytes same moved)
    (hstart : start' = start + bytes) (index : Nat) :
    (thread.record index start).Moved bytes same (moved.record index start') := by
  refine ⟨hmoved.cursor, ?_, hmoved.visited⟩
  simp only [Thread.record, List.map_cons, hmoved.groups, hmoved.cursor.offset, hstart, Span.shift]

theorem visit (hmoved : thread.Moved bytes same moved) (id : Nat) :
    (thread.visit id).Moved bytes same (moved.visit id) := by
  apply hmoved.withVisited
  rw [hmoved.cursor.offset]
  exact hmoved.visited.insert thread.cursor.offset id

theorem isBefore_eq {later later' : Thread} {same' : Bool} (hmoved : thread.Moved bytes same moved)
    (hlater : later.Moved bytes same' later') : moved.isBefore later' = thread.isBefore later := by
  simp only [isBefore, hmoved.cursor.offset, hlater.cursor.offset, Nat.add_lt_add_iff_right]

end Thread.Moved

theorem ContinuationMoved.strengthen {next next' : Continuation} {stronger : Bool}
    (hnext : ContinuationMoved bytes same next next') (hstronger : same = true → stronger = true) :
    ContinuationMoved bytes stronger next next' :=
  fun thread thread' hthread => hnext thread thread' (hthread.weaken hstronger)

theorem Respects.weaken {body : Thread → Continuation → Attempt} {after weaker : Bool}
    (hbody : Respects bytes same after body) (hweaker : weaker = true → after = true) :
    Respects bytes same weaker body :=
  fun thread thread' next next' hthread hnext =>
    hbody thread thread' next next' hthread (hnext.strengthen hweaker)

theorem either_moved {first first' second second' : Continuation}
    (hfirst : ContinuationMoved bytes same first first')
    (hsecond : ContinuationMoved bytes same second second') :
    ContinuationMoved bytes same (fun thread => thread.either first second)
      (fun thread => thread.either first' second') := by
  intro thread thread' hthread
  have htried := hfirst thread thread' hthread
  simp only [Thread.either]
  generalize first thread = attempt at htried
  generalize first' thread' = attempt' at htried
  cases htried with
  | ok hfound => exact .ok hfound
  | error hvisited => exact hsecond _ _ (hthread.withVisited hvisited)

/-! ## Plans -/

theorem rounds_respects {body : Thread → Continuation → Attempt}
    (hbody : Respects bytes same same body) (greedy : Bool) (left : List Char) :
    Respects bytes same same fun thread next => rounds body greedy next left thread := by
  induction left with
  | nil =>
      intro thread thread' next next' hthread hnext
      exact hnext thread thread' hthread
  | cons c left ih =>
      intro thread thread' next next' hthread hnext
      have hagain : ContinuationMoved bytes same
          (fun thread => body thread fun later =>
            if thread.isBefore later then rounds body greedy next left later
            else .error later.visited)
          (fun thread => body thread fun later =>
            if thread.isBefore later then rounds body greedy next' left later
            else .error later.visited) := by
        intro thread thread' hthread
        apply hbody thread thread' _ _ hthread
        intro later later' hlater
        simp only [hthread.isBefore_eq hlater]
        by_cases hbefore : thread.isBefore later = true
        · simp only [hbefore, if_true]
          exact ih later later' next next' hlater hnext
        · simp only [hbefore]
          exact .error hlater.visited
      cases greedy with
      | true => exact either_moved hagain hnext thread thread' hthread
      | false => exact either_moved hnext hagain thread thread' hthread

namespace Plan

/-- A plan that is blind, or that begins behind the same character, does not
see where it is matched. -/
theorem run_respects (p : Plan) {same : Bool} (hblind : same = true ∨ p.blind = true) :
    Respects bytes same (same || p.takesSome) p.run := by
  induction p generalizing same with
  | empty =>
      intro thread thread' next next' hthread hnext
      apply hnext thread thread' (hthread.weaken _)
      simp [takesSome]
  | one set =>
      intro thread thread' next next' hthread hnext
      simp only [run, hthread.cursor.rest]
      cases thread.cursor.rest with
      | nil => exact .error hthread.visited
      | cons c cs =>
          by_cases hset : set.contains c = true
          · simp only [hset, if_true]
            apply hnext
            exact ⟨(hthread.cursor.past c cs).weaken fun _ => rfl, hthread.groups, hthread.visited⟩
          · simp only [hset]
            exact .error hthread.visited
  | look assertion =>
      intro thread thread' next next' hthread hnext
      have hholds := Assertion.holds_moved hthread.cursor (by simpa [blind] using hblind)
      simp only [run, hholds]
      by_cases hhold : assertion.holds thread.cursor = true
      · simp only [hhold, if_true]
        apply hnext thread thread' (hthread.weaken _)
        simp [takesSome]
      · simp only [hhold]
        exact .error hthread.visited
  | seq p q hp hq =>
      intro thread thread' next next' hthread hnext
      simp only [blind, Bool.and_eq_true, Bool.or_eq_true] at hblind
      apply hp (by tauto) thread thread' _ _ hthread
      intro middle middle' hmiddle
      apply hq (by rw [Bool.or_eq_true]; tauto) middle middle' _ _ hmiddle
      apply hnext.strengthen
      simp [takesSome, or_assoc]
  | alt p q hp hq =>
      intro thread thread' next next' hthread hnext
      simp only [blind, Bool.and_eq_true] at hblind
      have hfirst : Respects bytes same (same || (alt p q).takesSome) p.run := by
        apply (hp (by tauto)).weaken
        simp only [takesSome, Bool.or_eq_true, Bool.and_eq_true]
        tauto
      have hsecond : Respects bytes same (same || (alt p q).takesSome) q.run := by
        apply (hq (by tauto)).weaken
        simp only [takesSome, Bool.or_eq_true, Bool.and_eq_true]
        tauto
      exact either_moved (fun _ _ hthread => hfirst _ _ _ _ hthread hnext)
        (fun _ _ hthread => hsecond _ _ _ _ hthread hnext) thread thread' hthread
  | group index p hp =>
      intro thread thread' next next' hthread hnext
      apply hp hblind thread thread' _ _ hthread
      intro later later' hlater
      exact hnext _ _ (hlater.record hthread.cursor.offset index)
  | star greedy p hp =>
      intro thread thread' next next' hthread hnext
      have hbody : Respects bytes same same p.run :=
        (hp hblind).weaken fun hsame => by simp [hsame]
      simp only [run, hthread.cursor.rest]
      apply rounds_respects hbody greedy _ thread thread' _ _ hthread
      apply hnext.strengthen
      simp [takesSome]
  | many greedy p hp =>
      intro thread thread' next next' hthread hnext
      apply hp hblind thread thread' _ _ hthread
      intro later later' hlater
      simp only [hthread.isBefore_eq hlater, hlater.cursor.rest]
      by_cases hbefore : thread.isBefore later = true
      · simp only [hbefore, if_true]
        have hblind' : (same || p.takesSome) = true ∨ p.blind = true := by
          rw [Bool.or_eq_true]
          exact hblind.imp_left Or.inl
        have hbody : Respects bytes (same || p.takesSome) (same || p.takesSome) p.run :=
          (hp hblind').weaken fun hsame => by simp [hsame]
        exact rounds_respects hbody greedy _ later later' next next' hlater hnext
      · simp only [hbefore]
        exact hnext later later' hlater
  | once id p hp =>
      intro thread thread' next next' hthread hnext
      have hvisited : thread'.hasVisited id = thread.hasVisited id := by
        simp only [Thread.hasVisited, hthread.cursor.offset, hthread.visited _ id]
      simp only [run, hvisited]
      by_cases hmarked : thread.hasVisited id = true
      · simp only [hmarked, if_true]
        exact .error hthread.visited
      · simp only [hmarked]
        exact hp hblind _ _ _ _ (hthread.visit id) hnext

theorem matchAt?_moved {p : Plan} (hblind : p.blind = true) {cursor moved : Cursor}
    (hmoved : cursor.Moved bytes false moved) :
    Option.Rel (Thread.Moved bytes false) (p.matchAt? cursor) (p.matchAt? moved) := by
  have hstart : (Thread.start cursor).Moved bytes false (Thread.start moved) :=
    ⟨hmoved, rfl, fun _ _ => rfl⟩
  have hok : ContinuationMoved bytes (false || p.takesSome) .ok .ok :=
    fun _ _ hthread => .ok (hthread.weaken fun hsame => absurd hsame Bool.false_ne_true)
  have hrun := p.run_respects (Or.inr hblind) _ _ _ _ hstart hok
  unfold matchAt?
  generalize p.run (Thread.start cursor) .ok = attempt at hrun
  generalize p.run (Thread.start moved) .ok = attempt' at hrun
  cases hrun with
  | ok hthread => exact .some hthread
  | error => exact .none

end Plan

end Moved

end Highlighter
