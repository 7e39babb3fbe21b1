import Highlighter.Proofs.ByteOffsets
import Highlighter.Proofs.PlanWays
import Highlighter.Table.Basic
import Mathlib.Tactic

/-!
# Where matches lie

A match begins at the cursor and ends at a cursor further on in the same
line; what its groups took lies between the two.  Both are facts about the
places where the ways of a plan can end, and they hold of every plan.

Of the rules of a state, the first one that matches something wins.
-/

namespace Highlighter

/-- `later` stands further on in the text that `cursor` stands in, or in the
same place. -/
def Cursor.Reaches (cursor later : Cursor) : Prop :=
  ∃ taken,
    cursor.rest = taken ++ later.rest ∧
    later.offset = cursor.offset + Text.byteLength taken

/-- The span begins and ends between characters of what lies between the two
cursors. -/
def Span.Between (span : Span) (cursor later : Cursor) : Prop :=
  ∃ first last,
    cursor.Reaches first ∧
    first.Reaches last ∧
    last.Reaches later ∧
    span = ⟨first.offset, last.offset⟩

namespace Cursor

theorem Reaches.refl (cursor : Cursor) : cursor.Reaches cursor :=
  ⟨[], by simp, by simp⟩

theorem Reaches.trans {cursor middle later : Cursor}
    (hfirst : cursor.Reaches middle) (hsecond : middle.Reaches later) :
    cursor.Reaches later := by
  obtain ⟨front, hfront, hmiddle⟩ := hfirst
  obtain ⟨back, hback, hlater⟩ := hsecond
  refine ⟨front ++ back, ?_, ?_⟩
  · rw [hfront, hback, List.append_assoc]
  · rw [hlater, hmiddle, Text.byteLength_append, Nat.add_assoc]

theorem reaches_past {cursor : Cursor} {c : Char} {cs : List Char}
    (hrest : cursor.rest = c :: cs) : cursor.Reaches (cursor.past c cs) :=
  ⟨[c], by simpa [past] using hrest, by simp [past]⟩

theorem Reaches.offset_le {cursor later : Cursor} (hreaches : cursor.Reaches later) :
    cursor.offset ≤ later.offset := by
  obtain ⟨taken, _, hoffset⟩ := hreaches
  omega

theorem Reaches.length_rest_lt {cursor later : Cursor} (hreaches : cursor.Reaches later)
    (hlt : cursor.offset < later.offset) :
    later.rest.length < cursor.rest.length := by
  obtain ⟨taken, hrest, hoffset⟩ := hreaches
  have htaken : taken ≠ [] := by
    rintro rfl
    simp at hoffset
    omega
  have hlength := List.length_pos_of_ne_nil htaken
  rw [hrest, List.length_append]
  omega

end Cursor

theorem Span.Between.mono {span : Span} {cursor cursor' later later' : Cursor}
    (hbetween : span.Between cursor later)
    (hstart : cursor'.Reaches cursor) (hstop : later.Reaches later') :
    span.Between cursor' later' := by
  obtain ⟨first, last, hfirst, hspan, hlast, rfl⟩ := hbetween
  exact ⟨first, last, hstart.trans hfirst, hspan, hlast.trans hstop, rfl⟩

namespace Place

/-- Every group that `later` has recorded and `place` has not lies between
their cursors. -/
structure Advances (place later : Place) : Prop where
  reaches : place.cursor.Reaches later.cursor
  groups : ∀ group ∈ later.groups,
    group ∈ place.groups ∨ group.2.Between place.cursor later.cursor

theorem advances_moveTo (place : Place) {cursor : Cursor}
    (hreaches : place.cursor.Reaches cursor) : place.Advances (place.moveTo cursor) :=
  ⟨hreaches, fun _ hgroup => Or.inl hgroup⟩

theorem Advances.refl (place : Place) : place.Advances place :=
  place.advances_moveTo (.refl _)

theorem Advances.trans {place middle later : Place}
    (hfirst : place.Advances middle) (hsecond : middle.Advances later) :
    place.Advances later := by
  refine ⟨hfirst.reaches.trans hsecond.reaches, ?_⟩
  intro group hgroup
  rcases hsecond.groups group hgroup with hmiddle | hbetween
  · rcases hfirst.groups group hmiddle with hold | hbetween
    · exact Or.inl hold
    · exact Or.inr (hbetween.mono (.refl _) hsecond.reaches)
  · exact Or.inr (hbetween.mono hfirst.reaches (.refl _))

theorem Advances.record {place later : Place}
    (hadvances : place.Advances later) (index : Nat) :
    place.Advances (later.record index place.cursor.offset) := by
  refine ⟨hadvances.reaches, ?_⟩
  intro group hgroup
  rcases List.mem_cons.mp hgroup with rfl | hgroup
  · exact Or.inr
      ⟨place.cursor, later.cursor, .refl _, hadvances.reaches, .refl _, rfl⟩
  · exact hadvances.groups group hgroup

end Place

namespace Plan

theorem ways_advance (p : Plan) : ∀ place, ∀ later ∈ p.ways place, place.Advances later :=
  p.ways_relates Place.Advances.refl Place.Advances.trans
    (fun place _ _ hrest => place.advances_moveTo (Cursor.reaches_past hrest))
    Place.Advances.record

theorem matchAt?_advances {p : Plan} {cursor : Cursor} {thread : Thread}
    (hmatch : p.matchAt? cursor = some thread) :
    (Place.start cursor).Advances thread.place :=
  p.ways_advance _ _ (matchAt?_mem_ways hmatch)

end Plan

/-! ## Matches of rules -/

theorem Thread.mem_groups_of_group? {thread : Thread} {index : Nat} {span : Span}
    (hgroup : thread.group? index = some span) : (index, span) ∈ thread.groups := by
  obtain ⟨front, back, hgroups, _⟩ := List.lookup_eq_some_iff.mp hgroup
  rw [hgroups]
  exact List.mem_append_right front List.mem_cons_self

theorem exists_group_of_mem_groupSpans
    {thread : Thread} {index : Nat} {labels : List Label} {group : Label × Span}
    (hmem : group ∈ groupSpans thread index labels) :
    ∃ place, index ≤ place ∧ thread.group? place = some group.2 := by
  induction labels generalizing index with
  | nil => simp [groupSpans] at hmem
  | cons label labels ih =>
      rw [groupSpans] at hmem
      split at hmem
      next span hspan =>
        rcases List.mem_cons.mp hmem with rfl | hmem
        · exact ⟨index, le_refl _, hspan⟩
        · obtain ⟨place, hle, hplace⟩ := ih hmem
          exact ⟨place, by omega, hplace⟩
      next =>
        obtain ⟨place, hle, hplace⟩ := ih hmem
        exact ⟨place, by omega, hplace⟩

/-- A match as it is found at a cursor, with the cursor `behind` it.  Nothing
more than this is ever used of how a pattern matches. -/
structure RuleMatch.Fits (m : RuleMatch) (cursor behind : Cursor) : Prop where
  reaches : cursor.Reaches behind
  nonempty : cursor.offset < behind.offset
  span : m.span = ⟨cursor.offset, behind.offset⟩
  groups : ∀ spans, m.label = .groups spans →
    ∀ group ∈ spans, group.2.Between cursor behind

theorem Labelling.ofMatch_groups_between
    {labelling : Labelling} {cursor : Cursor} {thread : Thread}
    (hadvances : (Place.start cursor).Advances thread.place)
    {spans : List (Label × Span)} (hspans : labelling.ofMatch thread = .groups spans) :
    ∀ group ∈ spans, group.2.Between cursor thread.cursor := by
  intro group hgroup
  cases labelling with
  | whole label => simp [ofMatch] at hspans
  | classify => simp [ofMatch] at hspans
  | groups labels =>
      simp only [ofMatch, MatchLabel.groups.injEq] at hspans
      subst hspans
      obtain ⟨index, _, hindex⟩ := exists_group_of_mem_groupSpans hgroup
      rcases hadvances.groups _ (Thread.mem_groups_of_group? hindex) with hold | hbetween
      · simp [Place.start] at hold
      · exact hbetween

/-- The rule matches something at the cursor. -/
def Rule.Takes (rule : Rule) (cursor : Cursor) (thread : Thread) : Prop :=
  rule.plan.matchAt? cursor = some thread ∧ cursor.offset < thread.cursor.offset

/-- The rule stands at `place` in a list of rules, and is the first of them
that matches something. -/
inductive Rule.Wins (cursor : Cursor) (rule : Rule) (thread : Thread) :
    List Rule → Nat → Prop
  | here {rules : List Rule} :
      rule.Takes cursor thread →
      Wins cursor rule thread (rule :: rules) 0
  | behind {passed : Rule} {rules : List Rule} {place : Nat} :
      (∀ thread, ¬ passed.Takes cursor thread) →
      Wins cursor rule thread rules place →
      Wins cursor rule thread (passed :: rules) (place + 1)

theorem Rule.Wins.takes
    {cursor : Cursor} {rule : Rule} {thread : Thread} {rules : List Rule} {place : Nat}
    (hwins : rule.Wins cursor thread rules place) : rule.Takes cursor thread := by
  induction hwins with
  | here htakes => exact htakes
  | behind _ _ ih => exact ih

theorem Rule.Wins.mem
    {cursor : Cursor} {rule : Rule} {thread : Thread} {rules : List Rule} {place : Nat}
    (hwins : rule.Wins cursor thread rules place) : rule ∈ rules := by
  induction hwins with
  | here => exact List.mem_cons_self
  | behind _ _ ih => exact List.mem_cons_of_mem _ ih

theorem Rule.Wins.getElem?_eq
    {cursor : Cursor} {rule : Rule} {thread : Thread} {rules : List Rule} {place : Nat}
    (hwins : rule.Wins cursor thread rules place) : rules[place]? = some rule := by
  induction hwins with
  | here => rfl
  | behind _ _ ih => rwa [List.getElem?_cons_succ]

/-- Behind a rule that stands in the list, another one wins only if that rule
matches nothing. -/
theorem Rule.Wins.mem_or_not_takes
    {cursor : Cursor} {rule passed : Rule} {thread : Thread} {front back : List Rule}
    {place : Nat} (hwins : rule.Wins cursor thread (front ++ passed :: back) place) :
    rule ∈ front ++ [passed] ∨ ∀ thread, ¬ passed.Takes cursor thread := by
  induction front generalizing place with
  | nil =>
      cases hwins with
      | here => exact Or.inl List.mem_cons_self
      | behind hpassed => exact Or.inr hpassed
  | cons first front ih =>
      cases hwins with
      | here => exact Or.inl List.mem_cons_self
      | behind _ hrest =>
          rcases ih hrest with hmem | hpassed
          · exact Or.inl (List.mem_cons_of_mem _ hmem)
          · exact Or.inr hpassed

def Rule.report (rule : Rule) (state : StateId) (cursor : Cursor) (thread : Thread)
    (place : Nat) : RuleMatch where
  label := rule.labelling.ofMatch thread
  span := ⟨cursor.offset, thread.cursor.offset⟩
  next := rule.next.getD state
  rule := place

theorem firstMatch?_wins
    {state : StateId} {cursor behind : Cursor} {index : Nat} {rules : List Rule} {m : RuleMatch}
    (hmatch : firstMatch? state cursor index rules = some (m, behind)) :
    ∃ (rule : Rule) (thread : Thread) (place : Nat),
      rule.Wins cursor thread rules place ∧
      behind = thread.cursor ∧
      m = rule.report state cursor thread (index + place) := by
  induction rules generalizing index with
  | nil => simp [firstMatch?] at hmatch
  | cons first rules ih =>
      have hskip : (∀ thread, ¬ first.Takes cursor thread) →
          firstMatch? state cursor (index + 1) rules = some (m, behind) →
          ∃ (rule : Rule) (thread : Thread) (place : Nat),
            rule.Wins cursor thread (first :: rules) place ∧
            behind = thread.cursor ∧
            m = rule.report state cursor thread (index + place) := by
        intro hpassed hrest
        obtain ⟨rule, thread, place, hwins, hbehind, hm⟩ := ih hrest
        refine ⟨rule, thread, place + 1, .behind hpassed hwins, hbehind, ?_⟩
        rw [hm, Nat.add_assoc, Nat.add_comm 1 place]
      rw [firstMatch?] at hmatch
      split at hmatch
      next hnone =>
        refine hskip ?_ hmatch
        rintro thread ⟨hthread, _⟩
        simp [hnone] at hthread
      next thread hthread =>
        split at hmatch
        next hnonempty =>
          simp only [Option.some.injEq, Prod.mk.injEq] at hmatch
          obtain ⟨rfl, rfl⟩ := hmatch
          exact ⟨first, thread, 0, .here ⟨hthread, hnonempty⟩, rfl, rfl⟩
        next hempty =>
          refine hskip ?_ hmatch
          rintro other ⟨hother, hnonempty⟩
          obtain rfl := Option.some.inj (hthread.symm.trans hother)
          exact hempty hnonempty

theorem firstMatch?_of_passed {state : StateId} {cursor : Cursor} {passed : Rule}
    (hpassed : ∀ thread, ¬ passed.Takes cursor thread) (index : Nat) (rules : List Rule) :
    firstMatch? state cursor index (passed :: rules) =
      firstMatch? state cursor (index + 1) rules := by
  rw [firstMatch?]
  split
  next => rfl
  next thread hthread => exact if_neg fun hnonempty => hpassed thread ⟨hthread, hnonempty⟩

theorem firstMatch?_of_wins
    {state : StateId} {cursor : Cursor} {rule : Rule} {thread : Thread} {rules : List Rule}
    {place : Nat} (hwins : rule.Wins cursor thread rules place) (index : Nat) :
    firstMatch? state cursor index rules =
      some (rule.report state cursor thread (index + place), thread.cursor) := by
  induction hwins generalizing index with
  | here htakes =>
      rw [firstMatch?, htakes.1]
      exact if_pos htakes.2
  | behind hpassed _ ih =>
      rw [firstMatch?_of_passed hpassed, ih, Nat.add_right_comm, Nat.add_assoc]

theorem firstMatch?_fits
    {state : StateId} {cursor behind : Cursor} {index : Nat} {rules : List Rule} {m : RuleMatch}
    (hmatch : firstMatch? state cursor index rules = some (m, behind)) :
    m.Fits cursor behind := by
  obtain ⟨rule, thread, place, hwins, rfl, rfl⟩ := firstMatch?_wins hmatch
  have hadvances := Plan.matchAt?_advances hwins.takes.1
  exact
    { reaches := hadvances.reaches
      nonempty := hwins.takes.2
      span := rfl
      groups := fun spans hspans => Labelling.ofMatch_groups_between hadvances hspans }

theorem RuleTable.matchFrom?_fits
    {table : RuleTable} {state : StateId} {cursor behind : Cursor} {m : RuleMatch}
    (hmatch : table.matchFrom? state cursor = some (m, behind)) :
    m.Fits cursor behind :=
  firstMatch?_fits hmatch

theorem RuleTable.rest_ne_nil_of_matchFrom?
    {table : RuleTable} {state : StateId} {cursor behind : Cursor} {m : RuleMatch}
    (hmatch : table.matchFrom? state cursor = some (m, behind)) : cursor.rest ≠ [] := by
  have hfits := matchFrom?_fits hmatch
  have hlt := hfits.reaches.length_rest_lt hfits.nonempty
  exact List.ne_nil_of_length_pos (Nat.zero_lt_of_lt hlt)

theorem RuleTable.exists_state_of_mem_rules {table : RuleTable} {id : StateId} {rule : Rule}
    (hrule : rule ∈ table.rules id) : ∃ state ∈ table.states, rule ∈ state.rules := by
  unfold RuleTable.rules at hrule
  cases hstate : table.state? id with
  | none => simp [hstate] at hrule
  | some state =>
      have hmem : state ∈ table.states := List.mem_of_getElem? hstate
      exact ⟨state, hmem, by simpa [hstate] using hrule⟩

end Highlighter
