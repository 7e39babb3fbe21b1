import Highlighter.Proofs.ExistingStates
import Mathlib.Tactic

/-!
# Numbers of groups

Capture groups are numbered in the order in which they are opened.  So a group
that stands inside of another one has the higher number.  The reader keeps its
open groups in this order, and nothing that is done to a pattern afterwards
takes a group out of another one: not putting it into simplified form, not
writing its repetitions out, and not marking its choices.
-/

namespace Highlighter

namespace Pattern

/-- Every group has a number above `n` and above those of the groups around
it. -/
def Numbered : Nat → Pattern → Prop
  | _, empty => True
  | _, literal _ => True
  | _, one _ _ => True
  | _, look _ => True
  | n, seq p q => p.Numbered n ∧ q.Numbered n
  | n, alt p q => p.Numbered n ∧ q.Numbered n
  | n, group index p => n < index ∧ p.Numbered index
  | n, times _ _ _ p => p.Numbered n

theorem Numbered.mono {m n : Nat} {p : Pattern}
    (hnumbered : p.Numbered n)
    (hle : m ≤ n) : p.Numbered m := by
  induction p with
  | empty => trivial
  | literal => trivial
  | one => trivial
  | look => trivial
  | seq p q hp hq => exact ⟨hp hnumbered.1, hq hnumbered.2⟩
  | alt p q hp hq => exact ⟨hp hnumbered.1, hq hnumbered.2⟩
  | group index p => exact ⟨hle.trans_lt hnumbered.1, hnumbered.2⟩
  | times _ _ _ p hp => exact hp hnumbered

theorem numbered_of_groupCount {p : Pattern}
    (hcount : p.groupCount = 0)
    (n : Nat) : p.Numbered n := by
  induction p with
  | empty => trivial
  | literal => trivial
  | one => trivial
  | look => trivial
  | seq p q hp hq =>
      have hsum : p.groupCount + q.groupCount = 0 := hcount
      exact ⟨hp (by omega), hq (by omega)⟩
  | alt p q hp hq =>
      have hsum : p.groupCount + q.groupCount = 0 := hcount
      exact ⟨hp (by omega), hq (by omega)⟩
  | group index p => exact absurd hcount (Nat.succ_ne_zero _)
  | times _ _ _ p hp => exact hp hcount

variable {n : Nat}

theorem numbered_parts {p : Pattern} :
    (∀ part ∈ p.parts, part.Numbered n) ↔ p.Numbered n := by
  induction p with
  | seq p q hp hq =>
      simp only [parts, Numbered, List.mem_append, or_imp, forall_and, hp, hq]
  | _ => simp [parts, Numbered]

theorem numbered_branches {p : Pattern} :
    (∀ branch ∈ p.branches, branch.Numbered n) ↔ p.Numbered n := by
  induction p with
  | alt p q hp hq =>
      simp only [branches, Numbered, List.mem_append, or_imp, forall_and, hp, hq]
  | _ => simp [branches, Numbered]

theorem numbered_ofParts {ps : List Pattern} :
    (ofParts ps).Numbered n ↔ ∀ p ∈ ps, p.Numbered n := by
  fun_induction ofParts ps with
  | case1 => simp [Numbered]
  | case2 p => simp
  | case3 p ps hne ih => simp only [Numbered, ih, List.forall_mem_cons]

theorem numbered_ofBranches {ps : List Pattern} :
    (ofBranches ps).Numbered n ↔ ∀ p ∈ ps, p.Numbered n := by
  fun_induction ofBranches ps with
  | case1 => simp [never, Numbered]
  | case2 p => simp
  | case3 p ps hne ih => simp only [Numbered, ih, List.forall_mem_cons]

theorem groupCount_ofSet (alphabet : Alphabet) (set : CharSet) :
    (ofSet alphabet set).groupCount = 0 := by
  unfold ofSet
  split
  next => rfl
  next => split <;> rfl
  next => rfl

theorem numbered_consPart {p : Pattern} {ps : List Pattern}
    (hp : p.Numbered n)
    (hps : ∀ q ∈ ps, q.Numbered n) : ∀ q ∈ consPart p ps, q.Numbered n := by
  fun_cases consPart p ps with
  | case1 cs ds ps =>
      rw [List.forall_mem_cons] at hps ⊢
      exact ⟨trivial, hps.2⟩
  | case2 => exact List.forall_mem_cons.mpr ⟨hp, hps⟩

theorem numbered_sequence {ps : List Pattern}
    (hps : ∀ p ∈ ps, p.Numbered n) : (sequence ps).Numbered n := by
  have hparts : ∀ part ∈ ps.flatMap parts, part.Numbered n := by
    intro part hpart
    obtain ⟨p, hp, hpart⟩ := List.mem_flatMap.mp hpart
    exact numbered_parts.mpr (hps p hp) part hpart
  refine numbered_ofParts.mpr ?_
  generalize ps.flatMap parts = joined at hparts
  induction joined with
  | nil => simp
  | cons part joined ih =>
      rw [List.forall_mem_cons] at hparts
      exact numbered_consPart hparts.1 (ih hparts.2)

theorem numbered_choice {ps : List Pattern}
    (hps : ∀ p ∈ ps, p.Numbered n) : (choice ps).Numbered n := by
  unfold choice
  split
  next p => exact hps p List.mem_cons_self
  next =>
    split
    next => exact numbered_of_groupCount (groupCount_ofSet _ _) n
    next =>
      split
      next => exact numbered_of_groupCount (groupCount_ofSet _ _) n
      next => exact numbered_ofBranches.mpr hps

theorem sharedStart_begins (ps qs : List Pattern) : sharedStart ps qs <+: ps := by
  fun_induction sharedStart ps qs with
  | case1 ps p qs ih => exact (List.prefix_cons_inj p).mpr ih
  | case2 => exact List.nil_prefix
  | case3 => exact List.nil_prefix

/-- What branches share is part of the first one. -/
theorem mem_parts_of_mem_sharedParts {ps : List Pattern} {part : Pattern}
    (hpart : part ∈ sharedParts ps) : ∃ p ∈ ps, part ∈ p.parts := by
  fun_cases sharedParts ps with
  | case1 => simp [sharedParts] at hpart
  | case2 p hseq =>
      rw [sharedParts, if_pos hseq] at hpart
      exact ⟨p, List.mem_cons_self, hpart⟩
  | case3 p hseq =>
      rw [sharedParts, if_neg hseq] at hpart
      simp at hpart
  | case4 p ps hne hseq =>
      rw [sharedParts, if_pos hseq] at hpart
      · exact ⟨p, List.mem_cons_self, (sharedStart_begins _ _).subset hpart⟩
      · exact hne
  | case5 p ps hne hseq =>
      rw [sharedParts, if_neg hseq] at hpart
      · simp at hpart
      · exact hne

theorem numbered_alternatives {ps : List Pattern}
    (hps : ∀ p ∈ ps, p.Numbered n) : (alternatives ps).Numbered n := by
  have hbranches : ∀ branch ∈ ps.flatMap branches, branch.Numbered n := by
    intro branch hbranch
    obtain ⟨p, hp, hbranch⟩ := List.mem_flatMap.mp hbranch
    exact numbered_branches.mpr (hps p hp) branch hbranch
  unfold alternatives
  split
  next p hone =>
    rw [hone] at hbranches
    exact hbranches p List.mem_cons_self
  next bs _ =>
    split
    next => exact numbered_choice hbranches
    next =>
      refine numbered_sequence ?_
      rw [List.forall_mem_append, List.forall_mem_singleton]
      constructor
      · intro part hpart
        obtain ⟨branch, hbranch, hpart⟩ := mem_parts_of_mem_sharedParts hpart
        exact numbered_parts.mpr (hbranches branch hbranch) part hpart
      · refine numbered_choice ?_
        intro branch hbranch
        obtain ⟨rest, hrest, hbranch⟩ := List.mem_flatMap.mp hbranch
        obtain ⟨whole, hwhole, rfl⟩ := List.mem_map.mp hrest
        refine numbered_branches.mpr (numbered_sequence ?_) branch hbranch
        intro part hpart
        exact numbered_parts.mpr (hbranches whole hwhole) part (List.mem_of_mem_drop hpart)

theorem Numbered.repeated {p : Pattern}
    (hp : p.Numbered n)
    (greedy : Bool) (least : Nat) (most : Option Nat) :
    (repeated greedy least most p).Numbered n := by
  dsimp only [Pattern.repeated]
  generalize (if p.takesNone then min least 1 else least) = low
  generalize (if p.takesNone then some (min (most.getD 1) 1) else most) = high
  split
  next => trivial
  next =>
    split
    next => exact hp
    next => exact hp

end Pattern

/-! ## The reader -/

namespace PatternReader

/-- All that one step can do to the reader. -/
inductive Turns (reader : PatternReader) : PatternReader → Prop
  | push {p : NestedPattern} :
      p.pattern.groupCount = 0 →
      Turns reader (reader.push p)
  | openPlain (flags : Flags) :
      Turns reader (reader.openGroup none flags)
  | openCapture (names : List String) :
      Turns reader { reader with names }.openCapture
  | close {group : OpenGroup} {outer : List OpenGroup} :
      reader.outer = group :: outer →
      Turns reader
        { reader with group := group.push (reader.group.body.grouped reader.group.capture), outer }
  | bar :
      Turns reader { reader with group := reader.group.bar }
  | switch (flags : Flags) :
      Turns reader (reader.switchFlags flags)
  | repeatLast {group : OpenGroup} (greedy : Bool) (least : Nat) (most : Option Nat) :
      reader.group.repeatLast? (.repeated greedy least most) = some group →
      Turns reader { reader with group }

variable {reader later : PatternReader} {cs rest : List Char}

theorem pushSet_turns (reader : PatternReader) (set : CharSet) (depth : Nat) :
    reader.Turns (reader.pushSet set depth) :=
  .push (Pattern.groupCount_ofSet _ _)

theorem pushChar_turns (reader : PatternReader) (c : Char) :
    reader.Turns (reader.pushChar c) :=
  .push (Pattern.groupCount_ofSet _ _)

theorem pushLook_turns (reader : PatternReader) (assertion : Assertion) :
    reader.Turns (reader.pushLook assertion) :=
  .push rfl

theorem repeat?_turns {least : Nat} {most : Option Nat}
    (hrepeat : reader.repeat? least most cs = some (later, rest)) : reader.Turns later := by
  obtain ⟨group, hgroup, heq⟩ := Option.map_eq_some_iff.mp hrepeat
  obtain ⟨rfl, _⟩ := Prod.mk.inj heq
  exact .repeatLast _ least most hgroup

theorem named?_turns
    (hnamed : reader.named? cs = some (later, rest)) : reader.Turns later := by
  obtain ⟨⟨name, behind⟩, _, hopened⟩ := Option.bind_eq_some_iff.mp hnamed
  simp only [Option.ite_none_left_eq_some, Option.some.injEq, Prod.mk.injEq] at hopened
  obtain ⟨_, rfl, _⟩ := hopened
  exact .openCapture (name :: reader.names)

theorem parenthesis?_turns
    (hparenthesis : reader.parenthesis? cs = some (later, rest)) : reader.Turns later := by
  unfold parenthesis? at hparenthesis
  split at hparenthesis
  next => simp at hparenthesis
  next => simp at hparenthesis
  next => simp at hparenthesis
  next => simp at hparenthesis
  next => exact named?_turns hparenthesis
  next => exact named?_turns hparenthesis
  next =>
    obtain ⟨⟨flags, isGroup, behind⟩, _, heq⟩ := Option.map_eq_some_iff.mp hparenthesis
    obtain ⟨rfl, _⟩ := Prod.mk.inj heq
    cases isGroup with
    | false => exact .switch flags
    | true => exact .openPlain flags
  next =>
    obtain ⟨rfl, _⟩ := Prod.mk.inj (Option.some.inj hparenthesis)
    exact .openCapture reader.names

theorem escape?_turns
    (hescape : reader.escape? cs = some (later, rest)) : reader.Turns later := by
  obtain ⟨⟨escape, behind⟩, _, heq⟩ := Option.map_eq_some_iff.mp hescape
  cases escape with
  | char c =>
      obtain ⟨rfl, _⟩ := Prod.mk.inj heq
      exact reader.pushChar_turns c
  | set set =>
      obtain ⟨rfl, _⟩ := Prod.mk.inj heq
      exact reader.pushSet_turns set 0
  | look assertion =>
      obtain ⟨rfl, _⟩ := Prod.mk.inj heq
      exact reader.pushLook_turns assertion

theorem close?_turns (hclose : reader.close? = some later) : reader.Turns later := by
  unfold close? at hclose
  split at hclose
  next => simp at hclose
  next group outer houter =>
    obtain rfl := Option.some.inj hclose
    exact .close houter

theorem step?_turns {c : Char}
    (hstep : reader.step? c cs = some (later, rest)) : reader.Turns later := by
  unfold step? at hstep
  split at hstep
  next => exact parenthesis?_turns hstep
  next =>
    obtain ⟨closed, hclosed, heq⟩ := Option.map_eq_some_iff.mp hstep
    obtain ⟨rfl, _⟩ := Prod.mk.inj heq
    exact close?_turns hclosed
  next =>
    obtain ⟨rfl, _⟩ := Prod.mk.inj (Option.some.inj hstep)
    exact .bar
  next =>
    obtain ⟨⟨set, behind⟩, _, heq⟩ := Option.map_eq_some_iff.mp hstep
    obtain ⟨rfl, _⟩ := Prod.mk.inj heq
    exact reader.pushSet_turns set.set set.depth
  next =>
    obtain ⟨set, _, heq⟩ := Option.map_eq_some_iff.mp hstep
    obtain ⟨rfl, _⟩ := Prod.mk.inj heq
    exact reader.pushSet_turns set 0
  next =>
    obtain ⟨rfl, _⟩ := Prod.mk.inj (Option.some.inj hstep)
    exact reader.pushLook_turns _
  next =>
    obtain ⟨rfl, _⟩ := Prod.mk.inj (Option.some.inj hstep)
    exact reader.pushLook_turns _
  next => exact repeat?_turns hstep
  next => exact repeat?_turns hstep
  next => exact repeat?_turns hstep
  next =>
    obtain ⟨_, _, hrepeat⟩ := Option.bind_eq_some_iff.mp hstep
    exact repeat?_turns hrepeat
  next => exact escape?_turns hstep
  next =>
    obtain ⟨rfl, _⟩ := Prod.mk.inj (Option.some.inj hstep)
    exact reader.pushChar_turns c

/-- What every step keeps up holds at the end. -/
theorem loop_induction {Keeps : PatternReader → Prop}
    (hturns : ∀ reader later, Keeps reader → reader.Turns later → Keeps later)
    {n : Nat}
    (hloop : loop n reader cs = some later)
    (hreader : Keeps reader) : Keeps later := by
  induction n generalizing reader cs with
  | zero =>
      rw [loop] at hloop
      split at hloop
      next => exact Option.some.inj hloop ▸ hreader
      next => simp at hloop
  | succ n ih =>
      rw [loop] at hloop
      split at hloop
      next => exact Option.some.inj hloop ▸ hreader
      next =>
        obtain ⟨⟨next, behind⟩, hstep, hrest⟩ := Option.bind_eq_some_iff.mp hloop
        exact ih hrest (hturns reader next hreader (step?_turns hstep))

end PatternReader

/-- The number of the innermost capture group that is open. -/
def openNumber : List OpenGroup → Nat
  | [] => 0
  | group :: outer => group.capture.getD (openNumber outer)

/-- What has been read of the group is numbered above `n`. -/
structure OpenGroup.Numbered (group : OpenGroup) (n : Nat) : Prop where
  branches : ∀ branch ∈ group.branches, branch.pattern.Numbered n
  items : ∀ item ∈ group.items, item.pattern.pattern.Numbered n

/-- Each open group has a higher number than those around it, and so has
everything inside of it. -/
def NumberedStack : List OpenGroup → Prop
  | [] => True
  | group :: outer =>
    group.Numbered (openNumber (group :: outer)) ∧
    (∀ index, group.capture = some index → openNumber outer < index) ∧
    NumberedStack outer

namespace OpenGroup

variable {group : OpenGroup} {n : Nat}

theorem numbered_opened (capture : Option Nat) (flags : Flags) (n : Nat) :
    (opened capture flags).Numbered n :=
  ⟨List.forall_mem_nil _, List.forall_mem_nil _⟩

theorem Numbered.push (hgroup : group.Numbered n) {p : NestedPattern}
    (hp : p.pattern.Numbered n) : (group.push p).Numbered n :=
  ⟨hgroup.branches, List.forall_mem_cons.mpr ⟨hp, hgroup.items⟩⟩

theorem Numbered.branch (hgroup : group.Numbered n) : group.branch.pattern.Numbered n := by
  refine Pattern.numbered_sequence ?_
  intro p hp
  simp only [List.mem_map, List.mem_reverse] at hp
  obtain ⟨_, ⟨item, hitem, rfl⟩, rfl⟩ := hp
  exact hgroup.items item hitem

theorem Numbered.bar (hgroup : group.Numbered n) : group.bar.Numbered n :=
  ⟨List.forall_mem_cons.mpr ⟨hgroup.branch, hgroup.branches⟩, List.forall_mem_nil _⟩

theorem Numbered.body (hgroup : group.Numbered n) : group.body.pattern.Numbered n := by
  refine Pattern.numbered_alternatives ?_
  intro p hp
  simp only [List.mem_map, List.mem_reverse] at hp
  obtain ⟨branch, hbranch, rfl⟩ := hp
  rcases List.mem_cons.mp hbranch with rfl | hbranch
  · exact hgroup.branch
  · exact hgroup.branches branch hbranch

theorem Numbered.repeatLast? (hgroup : group.Numbered n) {later : OpenGroup}
    {greedy : Bool} {least : Nat} {most : Option Nat}
    (hrepeat : group.repeatLast? (.repeated greedy least most) = some later) :
    later.Numbered n ∧ later.capture = group.capture := by
  unfold OpenGroup.repeatLast? at hrepeat
  split at hrepeat
  next p items hitems =>
    obtain rfl := Option.some.inj hrepeat
    have hall := hgroup.items
    rw [hitems, List.forall_mem_cons] at hall
    have hp := Pattern.Numbered.repeated hall.1 greedy least most
    exact ⟨⟨hgroup.branches, List.forall_mem_cons.mpr ⟨hp, hall.2⟩⟩, rfl⟩
  next => simp at hrepeat

end OpenGroup

theorem NumberedStack.openNumber_outer_le {group : OpenGroup} {outer : List OpenGroup}
    (hstack : NumberedStack (group :: outer)) :
    openNumber outer ≤ openNumber (group :: outer) := by
  rw [openNumber]
  cases hcapture : group.capture with
  | none => exact le_refl _
  | some index => exact (hstack.2.1 index hcapture).le

/-- A group that is closed is numbered as a part of the group around it. -/
theorem NumberedStack.grouped {group : OpenGroup} {outer : List OpenGroup}
    (hstack : NumberedStack (group :: outer)) :
    (group.body.grouped group.capture).pattern.Numbered (openNumber outer) := by
  have hbody := hstack.1.body
  rw [openNumber] at hbody
  cases hcapture : group.capture with
  | none =>
      rw [hcapture] at hbody
      exact hbody
  | some index =>
      rw [hcapture] at hbody
      exact ⟨hstack.2.1 index hcapture, hbody⟩

namespace PatternReader

/-- The open groups are numbered, by numbers that have been given out. -/
structure Numbered (reader : PatternReader) : Prop where
  stack : NumberedStack (reader.group :: reader.outer)
  counted : openNumber (reader.group :: reader.outer) ≤ reader.captures

theorem numbered_start : start.Numbered :=
  ⟨⟨OpenGroup.numbered_opened _ _ _, nofun, trivial⟩, le_refl _⟩

variable {reader later : PatternReader}

theorem Numbered.withGroup
    (hreader : reader.Numbered) {group : OpenGroup}
    (hcapture : group.capture = reader.group.capture)
    (hgroup : ∀ n, reader.group.Numbered n → group.Numbered n) :
    Numbered { reader with group } := by
  obtain ⟨⟨hread, hnumber, houter⟩, hcounted⟩ := hreader
  have hsame : openNumber (group :: reader.outer) = openNumber (reader.group :: reader.outer) := by
    rw [openNumber, hcapture, openNumber]
  refine ⟨⟨?_, ?_, houter⟩, ?_⟩
  · rw [hsame]
    exact hgroup _ hread
  · rw [hcapture]
    exact hnumber
  · rw [hsame]
    exact hcounted

theorem Turns.numbered
    (hturns : reader.Turns later)
    (hreader : reader.Numbered) : later.Numbered := by
  cases hturns with
  | push hcount =>
      refine hreader.withGroup rfl ?_
      intro n hgroup
      exact hgroup.push (Pattern.numbered_of_groupCount hcount n)
  | openPlain flags =>
      exact ⟨⟨OpenGroup.numbered_opened _ _ _, nofun, hreader.stack⟩, hreader.counted⟩
  | openCapture names =>
      refine ⟨⟨OpenGroup.numbered_opened _ _ _, ?_, hreader.stack⟩, le_refl _⟩
      intro index hindex
      obtain rfl := Option.some.inj hindex
      exact Nat.lt_succ_of_le hreader.counted
  | @close group outer houter =>
      obtain ⟨hstack, hcounted⟩ := hreader
      rw [houter] at hstack hcounted
      have hle := hstack.openNumber_outer_le
      obtain ⟨hgroup, hnumber, hrest⟩ := hstack.2.2
      exact ⟨⟨hgroup.push hstack.grouped, hnumber, hrest⟩, hle.trans hcounted⟩
  | bar => exact hreader.withGroup rfl fun _ hgroup => hgroup.bar
  | switch flags =>
      refine hreader.withGroup rfl ?_
      intro n hgroup
      exact ⟨hgroup.branches, List.forall_mem_cons.mpr ⟨trivial, hgroup.items⟩⟩
  | repeatLast greedy least most hrepeat =>
      have hkept := fun n hgroup => OpenGroup.Numbered.repeatLast? (n := n) hgroup hrepeat
      exact hreader.withGroup (hkept _ hreader.stack.1).2 fun n hgroup => (hkept n hgroup).1

end PatternReader

theorem Pattern.read_numbered {text : String} {pattern : Pattern}
    (hread : Pattern.read text = .ok pattern) : pattern.Numbered 0 := by
  unfold Pattern.read at hread
  split at hread
  next => simp at hread
  next parsed hparsed =>
    split at hread
    next =>
      obtain rfl := Except.ok.inj hread
      obtain ⟨reader, hloop, hbody⟩ := Option.bind_eq_some_iff.mp hparsed
      have hreader := PatternReader.loop_induction
        (fun _ _ hbefore hturns => hturns.numbered hbefore) hloop PatternReader.numbered_start
      obtain ⟨_, hpattern⟩ := Option.ite_none_right_eq_some.mp hbody
      obtain rfl := Option.some.inj hpattern
      exact hreader.stack.1.body.mono (Nat.zero_le _)
    next => simp at hread

/-! ## Plans -/

namespace Plan

/-- Every group has a number above `n` and above those of the groups around
it. -/
def Numbered : Nat → Plan → Prop
  | _, empty => True
  | _, one _ => True
  | _, look _ => True
  | n, seq p q => p.Numbered n ∧ q.Numbered n
  | n, alt p q => p.Numbered n ∧ q.Numbered n
  | n, group index p => n < index ∧ p.Numbered index
  | n, star _ p => p.Numbered n
  | n, many _ p => p.Numbered n
  | n, once _ p => p.Numbered n

variable {n : Nat} {p : Plan}

theorem numbered_seqAll {ps : List Plan}
    (hps : ∀ p ∈ ps, p.Numbered n) : (seqAll ps).Numbered n := by
  fun_induction seqAll ps with
  | case1 => trivial
  | case2 p => exact hps p List.mem_cons_self
  | case3 p ps hne ih =>
      rw [List.forall_mem_cons] at hps
      exact ⟨hps.1, ih hps.2⟩

theorem Numbered.optional (hp : p.Numbered n) (greedy : Bool) :
    (optional greedy p).Numbered n := by
  cases greedy with
  | false => exact ⟨trivial, hp⟩
  | true => exact ⟨hp, trivial⟩

theorem Numbered.atMost (hp : p.Numbered n) (greedy : Bool) (most : Nat) :
    (atMost greedy p most).Numbered n := by
  induction most with
  | zero => trivial
  | succ most ih =>
      have hround : (Plan.seq p (Plan.atMost greedy p most)).Numbered n := ⟨hp, ih⟩
      exact hround.optional greedy

theorem Numbered.anyTimes (hp : p.Numbered n) (greedy takesSome : Bool) :
    (anyTimes greedy takesSome p).Numbered n := by
  cases takesSome with
  | false =>
      have hmany : (Plan.many greedy p).Numbered n := hp
      exact hmany.optional greedy
  | true => exact hp

theorem Numbered.copies (hp : p.Numbered n) (count : Nat) {last : List Plan}
    (hlast : ∀ q ∈ last, q.Numbered n) :
    (seqAll (List.replicate count p ++ last)).Numbered n := by
  refine numbered_seqAll (List.forall_mem_append.mpr ⟨?_, hlast⟩)
  intro q hq
  exact List.eq_of_mem_replicate hq ▸ hp

theorem Numbered.times (hp : p.Numbered n) (greedy takesSome : Bool) (least : Nat)
    (most : Option Nat) : (times greedy takesSome least most p).Numbered n := by
  unfold Plan.times
  split
  next => exact hp.anyTimes greedy takesSome
  next => exact hp.copies _ (List.forall_mem_singleton.mpr hp)
  next =>
    split
    next =>
      have hcopies := hp.copies least (List.forall_mem_nil _)
      rwa [List.append_nil] at hcopies
    next => exact hp.copies _ (List.forall_mem_singleton.mpr (hp.atMost greedy _))

theorem Numbered.markFrom (hp : p.Numbered n) (isLone : Bool) (first : Nat) :
    (markFrom isLone first p).plan.Numbered n := by
  induction p generalizing n isLone first with
  | empty => trivial
  | one => trivial
  | look => trivial
  | seq p q ihp ihq => exact ⟨ihp hp.1 _ _, ihq hp.2 _ _⟩
  | alt p q ihp ihq =>
      have hboth := And.intro (ihp hp.1 isLone first)
        (ihq hp.2 isLone (Plan.markFrom isLone first p).next)
      rw [Plan.markFrom]
      split
      next => exact hboth
      next => exact hboth
  | group index p ih => exact ⟨hp.1, ih hp.2 _ _⟩
  | star greedy p ih =>
      rw [Plan.markFrom]
      split
      next => exact hp
      next => exact ⟨ih hp _ _, trivial⟩
  | many greedy p ih =>
      rw [Plan.markFrom]
      split
      next => exact hp
      next => exact ⟨ih hp _ _, trivial⟩
  | once id p => exact hp

end Plan

theorem Pattern.Numbered.plan {n : Nat} {p : Pattern}
    (hp : p.Numbered n) : p.plan.Numbered n := by
  induction p generalizing n with
  | empty => trivial
  | literal cs =>
      refine Plan.numbered_seqAll ?_
      intro q hq
      obtain ⟨c, _, rfl⟩ := List.mem_map.mp hq
      trivial
  | one => trivial
  | look => trivial
  | seq p q ihp ihq => exact ⟨ihp hp.1, ihq hp.2⟩
  | alt p q ihp ihq => exact ⟨ihp hp.1, ihq hp.2⟩
  | group index p ih => exact ⟨hp.1, ih hp.2⟩
  | times greedy least most p ih => exact (ih hp).times greedy _ least most

/-- The groups of every rule of a built table are numbered. -/
theorem RuleTable.numbered_of_ofCalls {calls : List DraftCall} {table : RuleTable}
    (hbuild : RuleTable.ofCalls calls = .ok table)
    {id : StateId} {rule : Rule}
    (hrule : rule ∈ table.rules id) : rule.plan.Numbered 0 := by
  obtain ⟨state, hstate, hrule⟩ := exists_state_of_mem_rules hrule
  obtain ⟨body, clauses, hcompiled, hclause⟩ := Draft.clause_of_mem_rules hbuild hstate hrule
  obtain ⟨declaration, _, hdeclaration⟩ := exists_of_mem_right hcompiled hclause
  cases hdeclaration with
  | rule hread _ => exact (Pattern.read_numbered hread).plan.markFrom true 0

end Highlighter
