import Highlighter.Proofs.GroupNumbers
import Highlighter.Proofs.MatchSpans
import Mathlib.Tactic

/-!
# How groups lie to each other

An attempt records a group when it comes to the end of it.  A group that is
recorded after another one either begins where that one has ended, or it is
open around it and has the lower number.  So of two groups that take part in a
match, the one with the lower number holds all of the other or none of it.
-/

namespace Highlighter

/-- How a group that is recorded later lies to one that is recorded earlier. -/
def RecordedAfter (later earlier : Nat × Span) : Prop :=
  earlier.2.stop ≤ later.2.start ∨
  (later.1 < earlier.1 ∧
    later.2.start ≤ earlier.2.start ∧
    earlier.2.stop ≤ later.2.stop)

/-- The span holds all of the other one or none of it. -/
def Span.HoldsOrAvoids (span other : Span) : Prop :=
  other.stop ≤ span.start ∨
  (span.start ≤ other.start ∧ other.stop ≤ span.stop) ∨
  span.stop ≤ other.start

/-- On the way to `later` groups with numbers above `n` were recorded. -/
structure Place.Records (n : Nat) (place later : Place) (recorded : List (Nat × Span)) : Prop where
  groups : later.groups = recorded ++ place.groups
  ordered : recorded.Pairwise RecordedAfter
  forward : place.cursor.offset ≤ later.cursor.offset
  above : ∀ group ∈ recorded, n < group.1
  within : ∀ group ∈ recorded,
    place.cursor.offset ≤ group.2.start ∧ group.2.stop ≤ later.cursor.offset

namespace Place

variable {n index : Nat} {place middle later : Place} {first second recorded : List (Nat × Span)}

theorem records_moveTo {cursor : Cursor}
    (hforward : place.cursor.offset ≤ cursor.offset) :
    Records n place (place.moveTo cursor) [] where
  groups := rfl
  ordered := .nil
  forward := hforward
  above := List.forall_mem_nil _
  within := List.forall_mem_nil _

theorem Records.refl (place : Place) : Records n place place [] :=
  records_moveTo (le_refl _)

theorem Records.trans
    (hfirst : Records n place middle first)
    (hsecond : Records n middle later second) :
    Records n place later (second ++ first) where
  groups := by
    rw [hsecond.groups, hfirst.groups, List.append_assoc]
  ordered := by
    refine List.pairwise_append.mpr ⟨hsecond.ordered, hfirst.ordered, ?_⟩
    intro group hgroup earlier hearlier
    exact Or.inl ((hfirst.within earlier hearlier).2.trans (hsecond.within group hgroup).1)
  forward := hfirst.forward.trans hsecond.forward
  above := List.forall_mem_append.mpr ⟨hsecond.above, hfirst.above⟩
  within := by
    have hmiddle := hfirst.forward
    have hlater := hsecond.forward
    refine List.forall_mem_append.mpr ⟨?_, ?_⟩
    · intro group hgroup
      have hwithin := hsecond.within group hgroup
      omega
    · intro group hgroup
      have hwithin := hfirst.within group hgroup
      omega

/-- A group is recorded behind all that was recorded inside of it. -/
theorem Records.record
    (hrecords : Records index place later recorded)
    (hindex : n < index) :
    Records n place (later.record index place.cursor.offset)
      ((index, ⟨place.cursor.offset, later.cursor.offset⟩) :: recorded) where
  groups := by
    rw [Place.record, hrecords.groups, List.cons_append]
  ordered := by
    refine List.pairwise_cons.mpr ⟨?_, hrecords.ordered⟩
    intro group hgroup
    exact Or.inr ⟨hrecords.above group hgroup, hrecords.within group hgroup⟩
  forward := hrecords.forward
  above := by
    refine List.forall_mem_cons.mpr ⟨hindex, ?_⟩
    intro group hgroup
    exact hindex.trans (hrecords.above group hgroup)
  within := List.forall_mem_cons.mpr ⟨⟨le_refl _, le_refl _⟩, hrecords.within⟩

end Place

theorem roundWays_record {n : Nat} {body : Place → List Place}
    (hbody : ∀ place, ∀ later ∈ body place, ∃ recorded, Place.Records n place later recorded)
    {greedy : Bool} {left : List Char} {place later : Place}
    (hlater : later ∈ roundWays body greedy left place) :
    ∃ recorded, Place.Records n place later recorded := by
  refine roundWays_relates (fun place => ⟨[], .refl place⟩) ?_ hbody hlater
  rintro place middle later ⟨first, hfirst⟩ ⟨second, hsecond⟩
  exact ⟨second ++ first, hfirst.trans hsecond⟩

namespace Plan

theorem ways_record {n : Nat} {p : Plan}
    (hp : p.Numbered n) :
    ∀ place, ∀ later ∈ p.ways place, ∃ recorded, Place.Records n place later recorded := by
  induction p generalizing n with
  | empty =>
      intro place later hlater
      obtain rfl := List.mem_singleton.mp hlater
      exact ⟨[], .refl _⟩
  | one set =>
      intro place later hlater
      obtain ⟨c, cs, hrest, _, rfl⟩ := mem_ways_one.mp hlater
      exact ⟨[], Place.records_moveTo (Cursor.reaches_past hrest).offset_le⟩
  | look assertion =>
      intro place later hlater
      obtain ⟨_, rfl⟩ := mem_ways_look.mp hlater
      exact ⟨[], .refl _⟩
  | seq p q ihp ihq =>
      intro place later hlater
      obtain ⟨middle, hmiddle, hrest⟩ := List.mem_flatMap.mp hlater
      obtain ⟨first, hfirst⟩ := ihp hp.1 place middle hmiddle
      obtain ⟨second, hsecond⟩ := ihq hp.2 middle later hrest
      exact ⟨_, hfirst.trans hsecond⟩
  | alt p q ihp ihq =>
      intro place later hlater
      rcases List.mem_append.mp hlater with hfirst | hsecond
      · exact ihp hp.1 place later hfirst
      · exact ihq hp.2 place later hsecond
  | group index p ih =>
      intro place later hlater
      obtain ⟨middle, hmiddle, rfl⟩ := List.mem_map.mp hlater
      obtain ⟨recorded, hrecords⟩ := ih hp.2 place middle hmiddle
      exact ⟨_, hrecords.record hp.1⟩
  | star greedy p ih =>
      intro place later hlater
      exact roundWays_record (ih hp) hlater
  | many greedy p ih =>
      intro place later hlater
      obtain ⟨middle, hmiddle, hrest⟩ := mem_ways_many.mp hlater
      obtain ⟨first, hfirst⟩ := ih hp place middle hmiddle
      split at hrest
      next =>
        obtain ⟨second, hsecond⟩ := roundWays_record (ih hp) hrest
        exact ⟨_, hfirst.trans hsecond⟩
      next =>
        rw [hrest]
        exact ⟨first, hfirst⟩
  | once id p ih => exact ih hp

theorem matchAt?_recordedAfter {p : Plan} {cursor : Cursor} {thread : Thread}
    (hp : p.Numbered 0)
    (hmatch : p.matchAt? cursor = some thread) : thread.groups.Pairwise RecordedAfter := by
  obtain ⟨recorded, hrecords⟩ := ways_record hp _ _ (matchAt?_mem_ways hmatch)
  have hgroups : thread.groups = recorded := by
    have happend := hrecords.groups
    rwa [Place.start, List.append_nil] at happend
  rw [hgroups]
  exact hrecords.ordered

end Plan

/-! ## The groups of a match -/

theorem Thread.holdsOrAvoids {thread : Thread}
    (hgroups : thread.groups.Pairwise RecordedAfter)
    {low high : Nat} {span other : Span}
    (hlt : low < high)
    (hspan : thread.group? low = some span)
    (hother : thread.group? high = some other) : span.HoldsOrAvoids other := by
  have hlow := mem_groups_of_group? hspan
  have hhigh := mem_groups_of_group? hother
  have hne : (low, span) ≠ (high, other) := by
    intro heq
    exact absurd (congrArg Prod.fst heq) hlt.ne
  have heither : thread.groups.Pairwise fun a b => RecordedAfter a b ∨ RecordedAfter b a :=
    hgroups.imp Or.inl
  have hsymm : Std.Symm fun a b => RecordedAfter a b ∨ RecordedAfter b a :=
    ⟨fun _ _ => Or.symm⟩
  rcases heither.forall hlow hhigh hne with
    (hbefore | ⟨_, hinside⟩) | (hbehind | ⟨hindex, _⟩)
  · exact Or.inl hbefore
  · exact Or.inr (Or.inl hinside)
  · exact Or.inr (Or.inr hbehind)
  · exact absurd hindex hlt.asymm

theorem groupSpans_holdOrAvoid {thread : Thread}
    (hgroups : thread.groups.Pairwise RecordedAfter) (index : Nat) (labels : List Label) :
    (groupSpans thread index labels).Pairwise fun a b => a.2.HoldsOrAvoids b.2 := by
  induction labels generalizing index with
  | nil => exact .nil
  | cons label labels ih =>
      rw [groupSpans]
      split
      next span hspan =>
        refine List.pairwise_cons.mpr ⟨?_, ih _⟩
        intro group hgroup
        obtain ⟨place, hle, hplace⟩ := exists_group_of_mem_groupSpans hgroup
        exact Thread.holdsOrAvoids hgroups hle hspan hplace
      next => exact ih _

/-- Of the groups that take part in a match, each holds all of any later one
or none of it. -/
theorem RuleTable.matchFrom?_holdOrAvoid {calls : List DraftCall} {table : RuleTable}
    (hbuild : RuleTable.ofCalls calls = .ok table)
    {state : StateId} {cursor behind : Cursor} {m : RuleMatch} {groups : List (Label × Span)}
    (hmatch : table.matchFrom? state cursor = some (m, behind))
    (hlabel : m.label = .groups groups) :
    groups.Pairwise fun a b => a.2.HoldsOrAvoids b.2 := by
  obtain ⟨rule, thread, place, hwins, _, rfl⟩ := firstMatch?_wins hmatch
  have hnumbered := numbered_of_ofCalls hbuild hwins.mem
  have hrecorded := Plan.matchAt?_recordedAfter hnumbered hwins.takes.1
  rw [Rule.report] at hlabel
  cases hlabelling : rule.labelling with
  | whole label => simp [hlabelling, Labelling.ofMatch] at hlabel
  | classify => simp [hlabelling, Labelling.ofMatch] at hlabel
  | groups labels =>
      simp only [hlabelling, Labelling.ofMatch, MatchLabel.groups.injEq] at hlabel
      rw [← hlabel]
      exact groupSpans_holdOrAvoid hrecorded 1 labels

end Highlighter
