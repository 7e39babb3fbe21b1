import Highlighter.Table.Build
import Mathlib.Tactic

/-!
# Defects of declarations

A declaration is defective on its own: its pattern cannot be read, its labels
do not fit the groups of the pattern, or it names a state that was not
declared.  Compiling all declarations fails with the first defect in their
order, and otherwise gives a clause for each.
-/

namespace Highlighter

theorem Except.bind_eq_ok_iff {ε α β : Type} {x : Except ε α} {f : α → Except ε β} {b : β} :
    (x >>= f) = .ok b ↔ ∃ a, x = .ok a ∧ f a = .ok b := by
  cases x <;> simp [bind, Except.bind]

theorem Except.bind_eq_error_iff {ε α β : Type} {x : Except ε α} {f : α → Except ε β} {e : ε} :
    (x >>= f) = .error e ↔ x = .error e ∨ ∃ a, x = .ok a ∧ f a = .error e := by
  cases x <;> simp [bind, Except.bind]

theorem Except.map_eq_ok_iff {ε α β : Type} {x : Except ε α} {f : α → β} {b : β} :
    x.map f = .ok b ↔ ∃ a, x = .ok a ∧ f a = b := by
  cases x <;> simp [Except.map]

theorem Except.map_eq_error_iff {ε α β : Type} {x : Except ε α} {f : α → β} {e : ε} :
    x.map f = .error e ↔ x = .error e := by
  cases x <;> simp [Except.map]

/-- A declaration with its place. -/
structure Site where
  state : String
  index : Nat
  declaration : Declaration

/-- The declarations of a state, numbered from `index`. -/
def Site.ofBody (state : String) : Nat → List Declaration → List Site
  | _, [] => []
  | index, declaration :: body =>
    ⟨state, index, declaration⟩ :: Site.ofBody state (index + 1) body

/-- All declarations, state by state. -/
def Site.ofStates (states : List StateDraft) : List Site :=
  states.flatMap fun state => Site.ofBody state.name 0 state.body

/-- There is a label for each group of the pattern, if groups are labelled. -/
def Labelling.FitsGroups (labelling : Labelling) (pattern : Pattern) : Prop :=
  ∀ labels, labelling = .groups labels → pattern.groupCount = labels.length

/-- The declaration at the site is refused with this error, where `compile`
reads the patterns and `names` are the declared states. -/
inductive Site.Defect (compile : PatternCompiler) (names : List String) :
    Site → BuildError → Prop
  | pattern {state : String} {index : Nat} {rule : RuleDraft} {error : PatternError} :
      compile rule.pattern = .error error →
      Defect compile names ⟨state, index, .rule rule⟩ (.invalidPattern state index error)
  | groups {state : String} {index : Nat} {rule : RuleDraft} {pattern : Pattern}
      {labels : List Label} :
      compile rule.pattern = .ok pattern →
      rule.labelling = .groups labels →
      pattern.groupCount ≠ labels.length →
      Defect compile names ⟨state, index, .rule rule⟩
        (.captureMismatch state index labels.length pattern.groupCount)
  | next {state : String} {index : Nat} {rule : RuleDraft} {pattern : Pattern}
      {target : String} :
      compile rule.pattern = .ok pattern →
      rule.labelling.FitsGroups pattern →
      rule.next = some target →
      target ∉ names →
      Defect compile names ⟨state, index, .rule rule⟩ (.unknownState state target)
  | splice {state : String} {index : Nat} {target : String} :
      target ∉ names →
      Defect compile names ⟨state, index, .splice target⟩ (.unknownState state target)

variable {compile : PatternCompiler}

theorem Site.defect_rule_iff {names : List String} {state : String} {index : Nat}
    {rule : RuleDraft} {error : BuildError} :
    Site.Defect compile names ⟨state, index, .rule rule⟩ error ↔
      (∃ refused, compile rule.pattern = .error refused ∧
        error = .invalidPattern state index refused) ∨
      ∃ pattern, compile rule.pattern = .ok pattern ∧
        ((∃ labels, rule.labelling = .groups labels ∧ pattern.groupCount ≠ labels.length ∧
            error = .captureMismatch state index labels.length pattern.groupCount) ∨
          rule.labelling.FitsGroups pattern ∧
            ∃ target, rule.next = some target ∧ target ∉ names ∧
              error = .unknownState state target) := by
  constructor
  · intro hdefect
    cases hdefect with
    | pattern hread => exact Or.inl ⟨_, hread, rfl⟩
    | groups hread hlabels hcount => exact Or.inr ⟨_, hread, Or.inl ⟨_, hlabels, hcount, rfl⟩⟩
    | next hread hfits hnext htarget =>
        exact Or.inr ⟨_, hread, Or.inr ⟨hfits, _, hnext, htarget, rfl⟩⟩
  · rintro (⟨refused, hread, rfl⟩ |
      ⟨pattern, hread, ⟨labels, hlabels, hcount, rfl⟩ | ⟨hfits, target, hnext, htarget, rfl⟩⟩)
    · exact .pattern hread
    · exact .groups hread hlabels hcount
    · exact .next hread hfits hnext htarget

def Site.Sound (compile : PatternCompiler) (names : List String) (site : Site) : Prop :=
  ∀ error, ¬ site.Defect compile names error

/-- The first defective site is refused with this error. -/
def FirstDefect (compile : PatternCompiler) (names : List String) (sites : List Site)
    (error : BuildError) : Prop :=
  ∃ before site after,
    sites = before ++ site :: after ∧
    (∀ earlier ∈ before, earlier.Sound compile names) ∧
    site.Defect compile names error

theorem firstDefect_append_iff {names : List String} {xs ys : List Site} {error : BuildError} :
    FirstDefect compile names (xs ++ ys) error ↔
      FirstDefect compile names xs error ∨
        (∀ site ∈ xs, site.Sound compile names) ∧ FirstDefect compile names ys error := by
  constructor
  · rintro ⟨before, site, after, hsites, hbefore, hdefect⟩
    rcases List.append_eq_append_iff.mp hsites with
      ⟨middle, rfl, hmiddle⟩ | ⟨middle, rfl, hmiddle⟩
    · right
      exact ⟨fun site hsite => hbefore site (List.mem_append_left _ hsite),
        middle, site, after, hmiddle,
        fun site hsite => hbefore site (List.mem_append_right _ hsite), hdefect⟩
    · cases middle with
      | nil =>
          right
          refine ⟨by simpa using hbefore, [], site, after, by simpa using hmiddle.symm, ?_, hdefect⟩
          simp
      | cons first middle =>
          obtain ⟨rfl, rfl⟩ := List.cons.inj hmiddle
          exact Or.inl ⟨before, site, middle, rfl, hbefore, hdefect⟩
  · rintro (⟨before, site, after, rfl, hbefore, hdefect⟩ |
      ⟨hxs, before, site, after, rfl, hbefore, hdefect⟩)
    · exact ⟨before, site, after ++ ys, by simp, hbefore, hdefect⟩
    · refine ⟨xs ++ before, site, after, by simp, ?_, hdefect⟩
      intro earlier hearlier
      rcases List.mem_append.mp hearlier with hearlier | hearlier
      · exact hxs earlier hearlier
      · exact hbefore earlier hearlier

theorem not_firstDefect_nil {names : List String} {error : BuildError} :
    ¬ FirstDefect compile names [] error := by
  rintro ⟨before, site, after, hsites, _⟩
  simp at hsites

theorem firstDefect_cons_iff {names : List String} {site : Site} {sites : List Site}
    {error : BuildError} :
    FirstDefect compile names (site :: sites) error ↔
      site.Defect compile names error ∨
        site.Sound compile names ∧ FirstDefect compile names sites error := by
  have hsingle : FirstDefect compile names [site] error ↔ site.Defect compile names error := by
    constructor
    · rintro ⟨before, other, after, hsites, _, hdefect⟩
      cases before with
      | nil =>
          obtain ⟨rfl, _⟩ := List.cons.inj hsites
          exact hdefect
      | cons first before => simp at hsites
    · intro hdefect
      exact ⟨[], site, [], rfl, by simp, hdefect⟩
  rw [← List.singleton_append, firstDefect_append_iff, hsingle]
  simp

theorem sound_or_firstDefect (compile : PatternCompiler) (names : List String) (sites : List Site) :
    (∀ site ∈ sites, site.Sound compile names) ∨
      ∃ error, FirstDefect compile names sites error := by
  induction sites with
  | nil => exact Or.inl (by simp)
  | cons site sites ih =>
      by_cases hsite : site.Sound compile names
      · rcases ih with hsites | ⟨error, hdefect⟩
        · left
          simpa using ⟨hsite, hsites⟩
        · exact Or.inr ⟨error, firstDefect_cons_iff.mpr (Or.inr ⟨hsite, hdefect⟩)⟩
      · obtain ⟨error, hdefect⟩ := not_forall_not.mp hsite
        exact Or.inr ⟨error, firstDefect_cons_iff.mpr (Or.inl hdefect)⟩

/-- What fails exactly with the first defect succeeds exactly without one. -/
theorem exists_ok_iff_sound {α : Type} {names : List String} {sites : List Site}
    {x : Except BuildError α}
    (hx : ∀ error, x = .error error ↔ FirstDefect compile names sites error) :
    (∃ a, x = .ok a) ↔ ∀ site ∈ sites, site.Sound compile names := by
  constructor
  · rintro ⟨a, rfl⟩
    rcases sound_or_firstDefect compile names sites with hsound | ⟨error, hdefect⟩
    · exact hsound
    · exact absurd ((hx error).mpr hdefect) (by simp)
  · intro hsound
    cases x with
    | ok a => exact ⟨a, rfl⟩
    | error error =>
        obtain ⟨before, site, after, rfl, _, hdefect⟩ := (hx error).mp rfl
        exact absurd hdefect (hsound site (by simp) error)

namespace Draft

theorem stateId?_eq_none_iff {draft : Draft} {name : String} :
    draft.stateId? name = none ↔ name ∉ draft.names := by
  simp only [stateId?, Option.map_eq_none_iff, List.findIdx?_eq_none_iff, beq_eq_false_iff_ne]
  constructor
  · intro hne hmem
    exact hne name hmem rfl
  · rintro hname other hother rfl
    exact hname hother

theorem names_of_stateId? {draft : Draft} {name : String} {id : StateId}
    (hid : draft.stateId? name = some id) : draft.names[id.index]? = some name := by
  simp only [stateId?, Option.map_eq_some_iff] at hid
  obtain ⟨index, hindex, rfl⟩ := hid
  obtain ⟨hlt, hname, _⟩ := List.findIdx?_eq_some_iff_getElem.mp hindex
  rw [List.getElem?_eq_getElem hlt]
  simpa using hname

theorem stateId?_of_nodup {draft : Draft} (hnodup : draft.names.Nodup)
    {name : String} {index : Nat} (hname : draft.names[index]? = some name) :
    draft.stateId? name = some ⟨index⟩ := by
  obtain ⟨hlt, hget⟩ := List.getElem?_eq_some_iff.mp hname
  cases hid : draft.stateId? name with
  | none => exact absurd (hget ▸ List.getElem_mem hlt) (stateId?_eq_none_iff.mp hid)
  | some id =>
      obtain ⟨hlt', hget'⟩ := List.getElem?_eq_some_iff.mp (names_of_stateId? hid)
      have hindex : id.index = index :=
        (List.Nodup.getElem_inj_iff hnodup).mp (hget'.trans hget.symm)
      rw [← hindex]

/-! ## Single declarations -/

theorem checkGroups_eq_ok_iff {state : String} {index : Nat} {pattern : Pattern}
    {labelling : Labelling} {done : Unit} :
    checkGroups state index pattern labelling = .ok done ↔ labelling.FitsGroups pattern := by
  cases labelling with
  | whole label => simp [checkGroups, Labelling.FitsGroups]
  | classify => simp [checkGroups, Labelling.FitsGroups]
  | groups labels =>
      by_cases hcount : pattern.groupCount = labels.length
      · simp [checkGroups, Labelling.FitsGroups, hcount]
      · simp [checkGroups, Labelling.FitsGroups, hcount]

theorem checkGroups_eq_error_iff {state : String} {index : Nat} {pattern : Pattern}
    {labelling : Labelling} {error : BuildError} :
    checkGroups state index pattern labelling = .error error ↔
      ∃ labels, labelling = .groups labels ∧ pattern.groupCount ≠ labels.length ∧
        error = .captureMismatch state index labels.length pattern.groupCount := by
  cases labelling with
  | whole label => simp [checkGroups]
  | classify => simp [checkGroups]
  | groups labels =>
      by_cases hcount : pattern.groupCount = labels.length
      · simp [checkGroups, hcount]
      · rw [checkGroups, if_neg hcount]
        constructor
        · intro herror
          exact ⟨labels, rfl, hcount, (Except.error.inj herror).symm⟩
        · rintro ⟨_, hlabels, _, rfl⟩
          rw [Labelling.groups.inj hlabels]

theorem resolve_eq_ok_iff {draft : Draft} {state target : String} {id : StateId} :
    draft.resolve state target = .ok id ↔ draft.stateId? target = some id := by
  unfold resolve
  cases draft.stateId? target <;> simp

theorem resolve_eq_error_iff {draft : Draft} {state target : String} {error : BuildError} :
    draft.resolve state target = .error error ↔
      target ∉ draft.names ∧ error = .unknownState state target := by
  rw [← stateId?_eq_none_iff]
  unfold resolve
  cases draft.stateId? target <;> simp [eq_comm]

theorem resolveNext_eq_ok_iff {draft : Draft} {state : String} {target : Option String}
    {next : Option StateId} :
    draft.resolveNext state target = .ok next ↔
      target.map draft.stateId? = next.map some := by
  cases target with
  | none => cases next <;> simp [resolveNext]
  | some target =>
      cases next <;> simp [resolveNext, Except.map_eq_ok_iff, resolve_eq_ok_iff]

theorem resolveNext_eq_error_iff {draft : Draft} {state : String} {target : Option String}
    {error : BuildError} :
    draft.resolveNext state target = .error error ↔
      ∃ name, target = some name ∧ name ∉ draft.names ∧ error = .unknownState state name := by
  cases target with
  | none => simp [resolveNext]
  | some target => simp [resolveNext, Except.map_eq_error_iff, resolve_eq_error_iff]

end Draft

/-- The clause says what the declaration says, with its names and its pattern
resolved. -/
inductive Declaration.Compiled (compile : PatternCompiler) (draft : Draft) :
    Declaration → Clause → Prop
  | rule {rule : RuleDraft} {pattern : Pattern} {next : Option StateId} :
      compile rule.pattern = .ok pattern →
      rule.next.map draft.stateId? = next.map some →
      Compiled compile draft (.rule rule)
        (.rule ⟨rule.labelling, rule.pattern, pattern.plan.marked, next⟩)
  | splice {target : String} {id : StateId} :
      draft.stateId? target = some id →
      Compiled compile draft (.splice target) (.splice id target)

namespace Draft

theorem compileDeclaration_compiled {draft : Draft} {state : String} {index : Nat}
    {declaration : Declaration} {clause : Clause}
    (hclause : draft.compileDeclaration compile state index declaration = .ok clause) :
    declaration.Compiled compile draft clause := by
  cases declaration with
  | splice target =>
      obtain ⟨id, hid, rfl⟩ := Except.map_eq_ok_iff.mp hclause
      exact .splice (resolve_eq_ok_iff.mp hid)
  | rule rule =>
      obtain ⟨compiled, hcompiled, rfl⟩ := Except.map_eq_ok_iff.mp hclause
      unfold compileRule at hcompiled
      split at hcompiled
      next => simp at hcompiled
      next pattern hpattern =>
        obtain ⟨_, _, hrest⟩ := Except.bind_eq_ok_iff.mp hcompiled
        obtain ⟨next, hnext, hrule⟩ := Except.bind_eq_ok_iff.mp hrest
        obtain rfl := Except.ok.inj hrule
        exact .rule hpattern (resolveNext_eq_ok_iff.mp hnext)

theorem compileDeclaration_eq_error_iff {draft : Draft} {state : String} {index : Nat}
    {declaration : Declaration} {error : BuildError} :
    draft.compileDeclaration compile state index declaration = .error error ↔
      Site.Defect compile draft.names ⟨state, index, declaration⟩ error := by
  cases declaration with
  | splice target =>
      rw [compileDeclaration, Except.map_eq_error_iff, resolve_eq_error_iff]
      constructor
      · rintro ⟨htarget, rfl⟩
        exact .splice htarget
      · intro hdefect
        cases hdefect with
        | splice htarget => exact ⟨htarget, rfl⟩
  | rule rule =>
      rw [compileDeclaration, Except.map_eq_error_iff, Site.defect_rule_iff]
      unfold compileRule
      cases hpattern : compile rule.pattern with
      | error refused => simp [eq_comm]
      | ok pattern =>
          simp [Except.bind_eq_error_iff, checkGroups_eq_error_iff, checkGroups_eq_ok_iff,
            resolveNext_eq_error_iff, pure, Except.pure]

theorem exists_compileDeclaration_iff {draft : Draft} {state : String} {index : Nat}
    {declaration : Declaration} :
    (∃ clause, draft.compileDeclaration compile state index declaration = .ok clause) ↔
      Site.Sound compile draft.names ⟨state, index, declaration⟩ := by
  unfold Site.Sound
  simp only [← compileDeclaration_eq_error_iff]
  cases draft.compileDeclaration compile state index declaration <;> simp

/-! ## All declarations -/

theorem compileBody_eq_error_iff {draft : Draft} {state : String} {index : Nat}
    {body : List Declaration} {error : BuildError} :
    draft.compileBody compile state index body = .error error ↔
      FirstDefect compile draft.names (Site.ofBody state index body) error := by
  induction body generalizing index with
  | nil => simp [compileBody, Site.ofBody, not_firstDefect_nil]
  | cons declaration body ih =>
      rw [Site.ofBody, firstDefect_cons_iff, ← compileDeclaration_eq_error_iff,
        ← exists_compileDeclaration_iff, ← ih]
      simp [compileBody, Except.bind_eq_error_iff, pure, Except.pure]

theorem compileStates_eq_error_iff {draft : Draft} {states : List StateDraft}
    {error : BuildError} :
    draft.compileStates compile states = .error error ↔
      FirstDefect compile draft.names (Site.ofStates states) error := by
  induction states with
  | nil => simp [compileStates, Site.ofStates, not_firstDefect_nil]
  | cons state states ih =>
      have hbody :
          (∃ clauses, draft.compileBody compile state.name 0 state.body = .ok clauses) ↔
            ∀ site ∈ Site.ofBody state.name 0 state.body, site.Sound compile draft.names :=
        exists_ok_iff_sound fun _ => compileBody_eq_error_iff
      rw [Site.ofStates, List.flatMap_cons, firstDefect_append_iff,
        ← compileBody_eq_error_iff, ← hbody, ← Site.ofStates, ← ih]
      simp [compileStates, Except.bind_eq_error_iff, pure, Except.pure]

theorem compileBody_compiled {draft : Draft} {state : String} {index : Nat}
    {body : List Declaration} {clauses : List Clause}
    (hclauses : draft.compileBody compile state index body = .ok clauses) :
    List.Forall₂ (Declaration.Compiled compile draft) body clauses := by
  induction body generalizing index clauses with
  | nil =>
      obtain rfl := Except.ok.inj hclauses
      exact .nil
  | cons declaration body ih =>
      obtain ⟨clause, hclause, hrest⟩ := Except.bind_eq_ok_iff.mp hclauses
      obtain ⟨rest, hbody, hresult⟩ := Except.bind_eq_ok_iff.mp hrest
      obtain rfl := Except.ok.inj hresult
      exact .cons (compileDeclaration_compiled hclause) (ih hbody)

/-- The clauses of all states stand under the names of the states. -/
theorem compileStates_compiled {draft : Draft} {states : List StateDraft} {clauses : Clauses}
    (hclauses : draft.compileStates compile states = .ok clauses) :
    List.Forall₂
      (fun state clause =>
        clause.1 = state.name ∧
        List.Forall₂ (Declaration.Compiled compile draft) state.body clause.2)
      states clauses := by
  induction states generalizing clauses with
  | nil =>
      obtain rfl := Except.ok.inj hclauses
      exact .nil
  | cons state states ih =>
      obtain ⟨body, hbody, hrest⟩ := Except.bind_eq_ok_iff.mp hclauses
      obtain ⟨rest, hstates, hresult⟩ := Except.bind_eq_ok_iff.mp hrest
      obtain rfl := Except.ok.inj hresult
      exact .cons ⟨rfl, compileBody_compiled hbody⟩ (ih hstates)

end Draft

end Highlighter
