import Highlighter.Pattern.Matching
import Mathlib.Tactic

/-!
# The ways a plan matches

Matching tries the ways of a plan one after another, each of them by calling
the continuation.  `Plan.ways` lists them in order of preference, without a
continuation: a way ends at a place, which is a cursor with what the groups
hold there.

A match always ends in one of the ways.  For a plan without marks more is
true: matching it is trying its ways in order, so the match is the first of
them.  Marks only make matching pass ways over.
-/

namespace Highlighter

/-- Where a way ends: a thread without the marks that it has come by. -/
structure Place where
  cursor : Cursor
  groups : List (Nat × Span)
deriving DecidableEq, Repr

def Thread.place (thread : Thread) : Place :=
  ⟨thread.cursor, thread.groups⟩

namespace Place

def start (cursor : Cursor) : Place :=
  ⟨cursor, []⟩

def thread (place : Place) (visited : Visited) : Thread :=
  ⟨place.cursor, place.groups, visited⟩

def moveTo (place : Place) (cursor : Cursor) : Place :=
  { place with cursor }

def record (place : Place) (index start : Nat) : Place :=
  { place with groups := (index, ⟨start, place.cursor.offset⟩) :: place.groups }

def isBefore (place later : Place) : Bool :=
  place.cursor.offset < later.cursor.offset

end Place

namespace Thread

@[simp] theorem cursor_place (thread : Thread) : thread.place.cursor = thread.cursor :=
  rfl

@[simp] theorem thread_place (thread : Thread) :
    thread.place.thread thread.visited = thread :=
  rfl

@[simp] theorem isBefore_place (thread later : Thread) :
    thread.place.isBefore later.place = thread.isBefore later :=
  rfl

end Thread

/-- The ways through the rounds of a loop whose body has these ways. -/
def roundWays (body : Place → List Place) (greedy : Bool) : List Char → Place → List Place
  | [], place => [place]
  | _ :: left, place =>
    let again := (body place).flatMap fun later =>
      if place.isBefore later then roundWays body greedy left later else []
    if greedy then again ++ [place] else place :: again

/-- The ways in which a plan matches, the preferred one first. -/
@[simp]
def Plan.ways : Plan → Place → List Place
  | empty, place => [place]
  | one set, place =>
    match place.cursor.rest with
    | [] => []
    | c :: cs => if set.contains c then [place.moveTo (place.cursor.past c cs)] else []
  | look assertion, place => if assertion.holds place.cursor then [place] else []
  | seq p q, place => (p.ways place).flatMap q.ways
  | alt p q, place => p.ways place ++ q.ways place
  | group index p, place => (p.ways place).map (·.record index place.cursor.offset)
  | star greedy p, place => roundWays p.ways greedy place.cursor.rest place
  | many greedy p, place =>
    (p.ways place).flatMap fun later =>
      if place.isBefore later then roundWays p.ways greedy later.cursor.rest later else [later]
  | once _ p, place => p.ways place

/-! ## A match is one of the ways -/

/-- Whatever succeeds has handed the end of one of the ways to the
continuation. -/
def Follows (body : Thread → Continuation → Attempt) (ways : Place → List Place) : Prop :=
  ∀ thread next found,
    body thread next = .ok found →
      ∃ later : Thread, later.place ∈ ways thread.place ∧ next later = .ok found

theorem Thread.either_eq_ok {thread found : Thread} {first second : Continuation}
    (hfound : thread.either first second = .ok found) :
    first thread = .ok found ∨
      ∃ visited, second { thread with visited } = .ok found := by
  unfold either at hfound
  split at hfound
  next later hfirst =>
    rw [← hfound]
    exact Or.inl hfirst
  next visited _ => exact Or.inr ⟨visited, hfound⟩

theorem mem_roundWays_cons {body : Place → List Place} {greedy : Bool} {c : Char}
    {left : List Char} {place later : Place} :
    later ∈ roundWays body greedy (c :: left) place ↔
      later = place ∨
        ∃ middle ∈ body place, place.isBefore middle = true ∧
          later ∈ roundWays body greedy left middle := by
  have hagain : later ∈ ((body place).flatMap fun middle =>
      if place.isBefore middle then roundWays body greedy left middle else []) ↔
        ∃ middle ∈ body place, place.isBefore middle = true ∧
          later ∈ roundWays body greedy left middle := by
    simp [List.mem_flatMap]
  cases greedy with
  | true =>
      rw [← hagain, or_comm]
      simp [roundWays]
  | false =>
      rw [← hagain]
      simp [roundWays]

/-- What holds between the ends of each round holds between those of a loop. -/
theorem roundWays_relates {Relates : Place → Place → Prop}
    (hrefl : ∀ place, Relates place place)
    (htrans : ∀ {place middle later},
      Relates place middle → Relates middle later → Relates place later)
    {body : Place → List Place}
    (hbody : ∀ place, ∀ later ∈ body place, Relates place later)
    {greedy : Bool} {left : List Char} {place later : Place}
    (hlater : later ∈ roundWays body greedy left place) : Relates place later := by
  induction left generalizing place with
  | nil =>
      obtain rfl := List.mem_singleton.mp hlater
      exact hrefl _
  | cons c left ih =>
      rcases mem_roundWays_cons.mp hlater with rfl | ⟨middle, hmiddle, _, hrest⟩
      · exact hrefl _
      · exact htrans (hbody place middle hmiddle) (ih hrest)

namespace Plan

theorem mem_ways_one {set : CharSet} {place later : Place} :
    later ∈ (one set).ways place ↔
      ∃ c cs,
        place.cursor.rest = c :: cs ∧
        set.contains c = true ∧
        later = place.moveTo (place.cursor.past c cs) := by
  rw [ways]
  split
  next hrest => simp [hrest]
  next c cs hrest => simp [hrest]

theorem mem_ways_look {assertion : Assertion} {place later : Place} :
    later ∈ (look assertion).ways place ↔
      assertion.holds place.cursor = true ∧ later = place := by
  simp

theorem mem_ways_many {greedy : Bool} {p : Plan} {place later : Place} :
    later ∈ (many greedy p).ways place ↔
      ∃ middle ∈ p.ways place,
        if place.isBefore middle then later ∈ roundWays p.ways greedy middle.cursor.rest middle
        else later = middle := by
  rw [ways, List.mem_flatMap]
  refine exists_congr fun middle => and_congr_right fun _ => ?_
  split
  next => rfl
  next => exact List.mem_singleton

/-- What holds across a character and is kept when a group is recorded holds
between the ends of every way. -/
theorem ways_relates {Relates : Place → Place → Prop}
    (hrefl : ∀ place, Relates place place)
    (htrans : ∀ {place middle later},
      Relates place middle → Relates middle later → Relates place later)
    (hone : ∀ place c cs, place.cursor.rest = c :: cs →
      Relates place (place.moveTo (place.cursor.past c cs)))
    (hrecord : ∀ {place later}, Relates place later → ∀ index,
      Relates place (later.record index place.cursor.offset))
    (p : Plan) : ∀ place, ∀ later ∈ p.ways place, Relates place later := by
  induction p with
  | empty =>
      intro place later hlater
      obtain rfl := List.mem_singleton.mp hlater
      exact hrefl _
  | one set =>
      intro place later hlater
      obtain ⟨c, cs, hrest, _, rfl⟩ := mem_ways_one.mp hlater
      exact hone place c cs hrest
  | look assertion =>
      intro place later hlater
      obtain ⟨_, rfl⟩ := mem_ways_look.mp hlater
      exact hrefl _
  | seq p q hp hq =>
      intro place later hlater
      obtain ⟨middle, hmiddle, hrest⟩ := List.mem_flatMap.mp hlater
      exact htrans (hp place middle hmiddle) (hq middle later hrest)
  | alt p q hp hq =>
      intro place later hlater
      rcases List.mem_append.mp hlater with hfirst | hsecond
      · exact hp place later hfirst
      · exact hq place later hsecond
  | group index p hp =>
      intro place later hlater
      obtain ⟨middle, hmiddle, rfl⟩ := List.mem_map.mp hlater
      exact hrecord (hp place middle hmiddle) index
  | star greedy p hp =>
      intro place later hlater
      exact roundWays_relates hrefl htrans hp hlater
  | many greedy p hp =>
      intro place later hlater
      obtain ⟨middle, hmiddle, hrest⟩ := mem_ways_many.mp hlater
      have hfirst := hp place middle hmiddle
      split at hrest
      next => exact htrans hfirst (roundWays_relates hrefl htrans hp hrest)
      next =>
        rw [hrest]
        exact hfirst
  | once id p hp => exact hp

end Plan

theorem rounds_follows {body : Thread → Continuation → Attempt} {ways : Place → List Place}
    (hbody : Follows body ways) (greedy : Bool) (left : List Char) :
    Follows (fun thread next => rounds body greedy next left thread)
      (roundWays ways greedy left) := by
  induction left with
  | nil =>
      intro thread next found hfound
      exact ⟨thread, by simp [roundWays], hfound⟩
  | cons c left ih =>
      intro thread next found hfound
      have hagain : ∀ visited,
          (body { thread with visited } fun later =>
            if Thread.isBefore { thread with visited } later then
              rounds body greedy next left later
            else .error later.visited) = .ok found →
          ∃ later : Thread, later.place ∈ roundWays ways greedy (c :: left) thread.place ∧
            next later = .ok found := by
        intro visited hround
        obtain ⟨middle, hmiddle, hrest⟩ := hbody _ _ _ hround
        split at hrest
        next hbefore =>
          obtain ⟨later, hlater, hnext⟩ := ih _ _ _ hrest
          exact ⟨later, mem_roundWays_cons.mpr (Or.inr ⟨_, hmiddle, hbefore, hlater⟩), hnext⟩
        next => simp at hrest
      have hexit : ∀ visited, next { thread with visited } = .ok found →
          ∃ later : Thread, later.place ∈ roundWays ways greedy (c :: left) thread.place ∧
            next later = .ok found := by
        intro visited hnext
        exact ⟨{ thread with visited }, mem_roundWays_cons.mpr (Or.inl rfl), hnext⟩
      simp only [rounds] at hfound
      split at hfound
      next =>
        rcases Thread.either_eq_ok hfound with hround | ⟨visited, hnext⟩
        · exact hagain thread.visited hround
        · exact hexit visited hnext
      next =>
        rcases Thread.either_eq_ok hfound with hnext | ⟨visited, hround⟩
        · exact hexit thread.visited hnext
        · exact hagain visited hround

namespace Plan

theorem run_follows (p : Plan) : Follows p.run p.ways := by
  induction p with
  | empty =>
      intro thread next found hfound
      exact ⟨thread, by simp, hfound⟩
  | one set =>
      intro thread next found hfound
      rw [run] at hfound
      split at hfound
      next => simp at hfound
      next c cs hrest =>
        split at hfound
        next hset =>
          refine ⟨_, ?_, hfound⟩
          simp [Thread.place, Thread.moveTo, Place.moveTo, hrest, hset]
        next => simp at hfound
  | look assertion =>
      intro thread next found hfound
      rw [run] at hfound
      split at hfound
      next hholds => exact ⟨thread, by simp [Thread.place, hholds], hfound⟩
      next => simp at hfound
  | seq p q hp hq =>
      intro thread next found hfound
      obtain ⟨middle, hmiddle, hrest⟩ := hp _ _ _ hfound
      obtain ⟨later, hlater, hnext⟩ := hq _ _ _ hrest
      exact ⟨later, List.mem_flatMap.mpr ⟨_, hmiddle, hlater⟩, hnext⟩
  | alt p q hp hq =>
      intro thread next found hfound
      rcases Thread.either_eq_ok hfound with hfirst | ⟨visited, hsecond⟩
      · obtain ⟨later, hlater, hnext⟩ := hp _ _ _ hfirst
        exact ⟨later, List.mem_append_left _ hlater, hnext⟩
      · obtain ⟨later, hlater, hnext⟩ := hq _ _ _ hsecond
        exact ⟨later, List.mem_append_right _ hlater, hnext⟩
  | group index p hp =>
      intro thread next found hfound
      obtain ⟨later, hlater, hnext⟩ := hp _ _ _ hfound
      exact ⟨_, List.mem_map_of_mem hlater, hnext⟩
  | star greedy p hp =>
      intro thread next found hfound
      exact rounds_follows hp greedy thread.cursor.rest thread next found hfound
  | many greedy p hp =>
      intro thread next found hfound
      obtain ⟨middle, hmiddle, hrest⟩ := hp _ _ _ hfound
      split at hrest
      next hbefore =>
        obtain ⟨later, hlater, hnext⟩ :=
          rounds_follows hp greedy middle.cursor.rest middle next found hrest
        refine ⟨later, List.mem_flatMap.mpr ⟨_, hmiddle, ?_⟩, hnext⟩
        rw [Thread.isBefore_place, if_pos hbefore]
        exact hlater
      next hbefore =>
        refine ⟨middle, List.mem_flatMap.mpr ⟨_, hmiddle, ?_⟩, hrest⟩
        rw [Thread.isBefore_place, if_neg hbefore]
        exact List.mem_singleton_self _
  | once id p hp =>
      intro thread next found hfound
      rw [run] at hfound
      split at hfound
      next => simp at hfound
      next => exact hp (thread.visit id) next found hfound

theorem matchAt?_eq_some_iff {p : Plan} {cursor : Cursor} {thread : Thread} :
    p.matchAt? cursor = some thread ↔ p.run (Thread.start cursor) .ok = .ok thread := by
  unfold matchAt?
  cases p.run (Thread.start cursor) .ok with
  | ok found => simp [Except.toOption]
  | error visited => simp [Except.toOption]

theorem matchAt?_mem_ways {p : Plan} {cursor : Cursor} {thread : Thread}
    (hmatch : p.matchAt? cursor = some thread) :
    thread.place ∈ p.ways (.start cursor) := by
  obtain ⟨later, hlater, hfound⟩ := p.run_follows _ _ _ (matchAt?_eq_some_iff.mp hmatch)
  simp only [Except.ok.injEq] at hfound
  exact hfound ▸ hlater

end Plan

/-! ## Without marks, matching tries the ways in order -/

/-- Hands the places to the continuation until it succeeds. -/
def tryAll (next : Continuation) : List Place → Visited → Attempt
  | [], visited => .error visited
  | place :: places, visited =>
    match next (place.thread visited) with
    | .ok found => .ok found
    | .error visited => tryAll next places visited

theorem tryAll_append (next : Continuation) (xs ys : List Place) (visited : Visited) :
    tryAll next (xs ++ ys) visited =
      match tryAll next xs visited with
      | .ok found => .ok found
      | .error visited => tryAll next ys visited := by
  induction xs generalizing visited with
  | nil => rfl
  | cons place places ih =>
      simp only [List.cons_append, tryAll]
      cases next (place.thread visited) with
      | ok found => rfl
      | error visited => exact ih visited

theorem tryAll_singleton (next : Continuation) (place : Place) (visited : Visited) :
    tryAll next [place] visited = next (place.thread visited) := by
  simp only [tryAll]
  cases next (place.thread visited) with
  | ok found => rfl
  | error visited => rfl

theorem either_eq_tryAll {thread : Thread} {first second next : Continuation}
    {xs ys : List Place}
    (hfirst : first thread = tryAll next xs thread.visited)
    (hsecond : ∀ visited, second { thread with visited } = tryAll next ys visited) :
    thread.either first second = tryAll next (xs ++ ys) thread.visited := by
  rw [Thread.either, hfirst, tryAll_append]
  cases tryAll next xs thread.visited with
  | ok found => rfl
  | error visited => exact hsecond visited

theorem tryAll_flatMap (next : Continuation) (ways : Place → List Place) (places : List Place)
    (visited : Visited) :
    tryAll next (places.flatMap ways) visited =
      tryAll (fun middle => tryAll next (ways middle.place) middle.visited) places visited := by
  induction places generalizing visited with
  | nil => rfl
  | cons place places ih =>
      rw [List.flatMap_cons, tryAll_append]
      simp only [tryAll, Thread.place, Place.thread]
      cases tryAll next (ways place) visited with
      | ok found => rfl
      | error visited => exact ih visited

theorem tryAll_map (next : Continuation) (move : Place → Place) (places : List Place)
    (visited : Visited) :
    tryAll next (places.map move) visited =
      tryAll (fun middle => next ((move middle.place).thread middle.visited)) places visited := by
  rw [List.map_eq_flatMap, tryAll_flatMap]
  simp only [tryAll_singleton]

/-- Matching is trying the ways in order. -/
def Tries (body : Thread → Continuation → Attempt) (ways : Place → List Place) : Prop :=
  ∀ thread next, body thread next = tryAll next (ways thread.place) thread.visited

theorem rounds_tries {body : Thread → Continuation → Attempt} {ways : Place → List Place}
    (hbody : Tries body ways) (greedy : Bool) (left : List Char) :
    Tries (fun thread next => rounds body greedy next left thread)
      (roundWays ways greedy left) := by
  induction left with
  | nil =>
      intro thread next
      exact (tryAll_singleton next thread.place thread.visited).symm
  | cons c left ih =>
      intro thread next
      have hagain : ∀ visited,
          (body { thread with visited } fun later =>
            if Thread.isBefore { thread with visited } later then
              rounds body greedy next left later
            else .error later.visited) =
          tryAll next ((ways thread.place).flatMap fun later =>
            if thread.place.isBefore later then roundWays ways greedy left later else [])
            visited := by
        intro visited
        rw [hbody, tryAll_flatMap]
        congr 1
        funext later
        rw [Thread.isBefore_place]
        by_cases hbefore : thread.isBefore later = true
        · rw [if_pos hbefore, ← ih later next]
          exact if_pos hbefore
        · rw [if_neg hbefore]
          exact if_neg hbefore
      have hexit : ∀ visited, next { thread with visited } = tryAll next [thread.place] visited :=
        fun visited => (tryAll_singleton next thread.place visited).symm
      cases greedy with
      | true =>
          simp only [rounds, roundWays, if_true]
          exact either_eq_tryAll (hagain thread.visited) hexit
      | false =>
          simp only [rounds, roundWays, Bool.false_eq_true, if_false]
          rw [← List.singleton_append]
          exact either_eq_tryAll (hexit thread.visited) hagain

namespace Plan

/-- Whether no mark stands in the plan. -/
def unmarked : Plan → Bool
  | empty => true
  | one _ => true
  | look _ => true
  | seq p q => p.unmarked && q.unmarked
  | alt p q => p.unmarked && q.unmarked
  | group _ p => p.unmarked
  | star _ p => p.unmarked
  | many _ p => p.unmarked
  | once _ _ => false

theorem run_tries {p : Plan} (hunmarked : p.unmarked = true) : Tries p.run p.ways := by
  induction p with
  | empty =>
      intro thread next
      exact (tryAll_singleton next thread.place thread.visited).symm
  | one set =>
      intro thread next
      simp only [run, ways, Thread.cursor_place]
      cases thread.cursor.rest with
      | nil => rfl
      | cons c cs =>
          by_cases hset : set.contains c = true
          · simp only [hset, if_true, tryAll_singleton]
            rfl
          · simp only [hset]
            rfl
  | look assertion =>
      intro thread next
      simp only [run, ways, Thread.cursor_place]
      by_cases hholds : assertion.holds thread.cursor = true
      · simp only [hholds, if_true, tryAll_singleton, Thread.thread_place]
      · simp only [hholds]
        rfl
  | seq p q hp hq =>
      simp only [unmarked, Bool.and_eq_true] at hunmarked
      intro thread next
      rw [run, ways, hp hunmarked.1, tryAll_flatMap]
      congr 1
      funext middle
      exact hq hunmarked.2 middle next
  | alt p q hp hq =>
      simp only [unmarked, Bool.and_eq_true] at hunmarked
      intro thread next
      exact either_eq_tryAll (hp hunmarked.1 thread next)
        (fun visited => hq hunmarked.2 { thread with visited } next)
  | group index p hp =>
      intro thread next
      rw [run, ways, tryAll_map, hp hunmarked]
      rfl
  | star greedy p hp =>
      intro thread next
      exact rounds_tries (hp hunmarked) greedy thread.cursor.rest thread next
  | many greedy p hp =>
      intro thread next
      rw [run, ways, hp hunmarked, tryAll_flatMap]
      congr 1
      funext middle
      simp only [Thread.isBefore_place]
      by_cases hbefore : thread.isBefore middle = true
      · simp only [hbefore, if_true]
        exact rounds_tries (hp hunmarked) greedy middle.cursor.rest middle next
      · simp only [hbefore]
        exact (tryAll_singleton next middle.place middle.visited).symm
  | once id p => simp [unmarked] at hunmarked

/-- Without marks, the match is the first of the ways. -/
theorem matchAt?_eq_head? {p : Plan} (hunmarked : p.unmarked = true) (cursor : Cursor) :
    (p.matchAt? cursor).map Thread.place = (p.ways (.start cursor)).head? := by
  have hrun := run_tries hunmarked (Thread.start cursor) .ok
  have hplace : (Thread.start cursor).place = .start cursor := rfl
  rw [matchAt?, hrun, hplace]
  cases p.ways (.start cursor) with
  | nil => rfl
  | cons place places => rfl

end Plan

end Highlighter
