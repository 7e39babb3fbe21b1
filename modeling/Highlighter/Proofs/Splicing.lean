import Highlighter.Proofs.DeclarationDefects
import Mathlib.Logic.Relation
import Mathlib.Tactic

/-!
# Putting spliced states in place

`Expands` and `Loops` describe how the clauses of a state are read with the
spliced states in their places, without a bound on the depth: the reading ends
with a list of rules, or where it comes back to a state on the path that it
took.  No state stands on the path twice, so the path is never longer than
there are states, and the bound on the depth is never what ends the reading.
A reading that ends with rules has met no state of its path again by any way,
and one that comes back has found a cycle.
-/

namespace Highlighter.Clauses

open Relation

def Splices (clauses : Clauses) (state target : StateId) : Prop :=
  ∃ name, Clause.splice target name ∈ clauses.body state

/-- Only states of the list are spliced in. -/
def Closed (clauses : Clauses) : Prop :=
  ∀ state target, clauses.Splices state target → target.index < clauses.length

/-- The rules of a list of clauses with the spliced states in their places,
when `path` leads back to the state from which the reading began. -/
inductive Expands (clauses : Clauses) : List StateId → List Clause → List Rule → Prop
  | nil {path : List StateId} : Expands clauses path [] []
  | rule {path : List StateId} {rest : List Clause} {rule : Rule} {rules : List Rule} :
      Expands clauses path rest rules →
      Expands clauses path (.rule rule :: rest) (rule :: rules)
  | splice {path : List StateId} {rest : List Clause} {target : StateId} {name : String}
      {first rules : List Rule} :
      target ∉ path →
      Expands clauses (target :: path) (clauses.body target) first →
      Expands clauses path rest rules →
      Expands clauses path (.splice target name :: rest) (first ++ rules)

/-- The reading comes back to a state on its path, which is spliced in there
under the name `via`. -/
inductive Loops (clauses : Clauses) : List StateId → List Clause → String → Prop
  | back {path : List StateId} {rest : List Clause} {target : StateId} {name : String} :
      target ∈ path →
      Loops clauses path (.splice target name :: rest) name
  | inside {path : List StateId} {rest : List Clause} {target : StateId} {name via : String} :
      target ∉ path →
      Loops clauses (target :: path) (clauses.body target) via →
      Loops clauses path (.splice target name :: rest) via
  | pastRule {path : List StateId} {rest : List Clause} {rule : Rule} {via : String} :
      Loops clauses path rest via →
      Loops clauses path (.rule rule :: rest) via
  | pastSplice {path : List StateId} {rest : List Clause} {target : StateId}
      {name via : String} {first : List Rule} :
      target ∉ path →
      Expands clauses (target :: path) (clauses.body target) first →
      Loops clauses path rest via →
      Loops clauses path (.splice target name :: rest) via

/-- A path on which no state stands twice. -/
structure Trail (clauses : Clauses) (path : List StateId) : Prop where
  nodup : path.Nodup
  bounded : ∀ id ∈ path, id.index < clauses.length

theorem Trail.length_le {clauses : Clauses} {path : List StateId}
    (htrail : clauses.Trail path) : path.length ≤ clauses.length := by
  have hinjective : Function.Injective StateId.index := by
    rintro ⟨a⟩ ⟨b⟩ rfl
    rfl
  have hnodup : (path.map StateId.index).Nodup := htrail.nodup.map hinjective
  have hsubset : path.map StateId.index ⊆ List.range clauses.length := by
    intro index hindex
    obtain ⟨id, hid, rfl⟩ := List.mem_map.mp hindex
    exact List.mem_range.mpr (htrail.bounded id hid)
  have hlength := (List.subperm_of_subset hnodup hsubset).length_le
  simpa using hlength

theorem Trail.cons {clauses : Clauses} {path : List StateId} {target : StateId}
    (htrail : clauses.Trail path) (hfresh : target ∉ path)
    (hbound : target.index < clauses.length) : clauses.Trail (target :: path) := by
  refine ⟨List.nodup_cons.mpr ⟨hfresh, htrail.nodup⟩, ?_⟩
  intro id hid
  rcases List.mem_cons.mp hid with rfl | hid
  · exact hbound
  · exact htrail.bounded id hid

theorem inline_ends {clauses : Clauses} (hclosed : clauses.Closed) (root : String)
    {depth : Nat} {path : List StateId} (htrail : clauses.Trail path)
    (hdepth : clauses.length < depth + path.length)
    {body : List Clause}
    (hbody : ∀ target name, .splice target name ∈ body → target.index < clauses.length) :
    (∃ rules,
      inline (clauses.spliced root depth path) body = .ok rules ∧
      clauses.Expands path body rules) ∨
    (∃ via,
      inline (clauses.spliced root depth path) body = .error (.spliceCycle root via) ∧
      clauses.Loops path body via) := by
  induction depth generalizing path body with
  | zero =>
      have hle := htrail.length_le
      omega
  | succ depth ihDepth =>
      induction body with
      | nil => exact Or.inl ⟨[], rfl, .nil⟩
      | cons clause rest ihRest =>
          have hrest := ihRest fun target name hmem => hbody target name (by simp [hmem])
          cases clause with
          | rule rule =>
              rcases hrest with ⟨rules, hinline, hexpands⟩ | ⟨via, hinline, hloops⟩
              · exact Or.inl ⟨rule :: rules, by rw [inline, hinline]; rfl, .rule hexpands⟩
              · exact Or.inr ⟨via, by rw [inline, hinline]; rfl, .pastRule hloops⟩
          | splice target name =>
              by_cases hmem : target ∈ path
              · right
                refine ⟨name, ?_, .back hmem⟩
                rw [inline, spliced, if_pos hmem]
                rfl
              · have hspliced :
                    clauses.spliced root (depth + 1) path target name =
                      inline (clauses.spliced root depth (target :: path))
                        (clauses.body target) := by
                  rw [spliced, if_neg hmem]
                have htarget :=
                  ihDepth (htrail.cons hmem (hbody target name List.mem_cons_self))
                    (by rw [List.length_cons]; omega)
                    fun inner name hinner => hclosed target inner ⟨name, hinner⟩
                rcases htarget with ⟨first, hfirst, hexpands⟩ | ⟨via, hvia, hloops⟩
                · rw [inline, hspliced, hfirst]
                  rcases hrest with ⟨rules, hinline, htail⟩ | ⟨via, hinline, hloops⟩
                  · exact Or.inl ⟨first ++ rules, by rw [hinline]; rfl,
                      .splice hmem hexpands htail⟩
                  · exact Or.inr ⟨via, by rw [hinline]; rfl,
                      .pastSplice hmem hexpands hloops⟩
                · right
                  refine ⟨via, ?_, .inside hmem hloops⟩
                  rw [inline, hspliced, hvia]
                  rfl

theorem body_eq {clauses : Clauses} {index : Nat} {name : String} {body : List Clause}
    (hget : clauses[index]? = some (name, body)) : clauses.body ⟨index⟩ = body := by
  simp [Clauses.body, hget]

theorem lt_length_of_mem_body {clauses : Clauses} {id : StateId} {clause : Clause}
    (hclause : clause ∈ clauses.body id) : id.index < clauses.length := by
  by_contra hge
  rw [body, List.getElem?_eq_none (Nat.le_of_not_lt hge)] at hclause
  simp at hclause

theorem lt_length_of_splices {clauses : Clauses} {state target : StateId}
    (hsplices : clauses.Splices state target) : state.index < clauses.length := by
  obtain ⟨name, hmem⟩ := hsplices
  exact lt_length_of_mem_body hmem

/-- The rules of a state, read from its own clauses. -/
def ExpandsTo (clauses : Clauses) (id : StateId) (rules : List Rule) : Prop :=
  clauses.Expands [id] (clauses.body id) rules

theorem inline_root_ends {clauses : Clauses} (hclosed : clauses.Closed)
    {index : Nat} {name : String} {body : List Clause}
    (hget : clauses[index]? = some (name, body)) :
    (∃ rules,
      inline (clauses.spliced name clauses.length [⟨index⟩]) body = .ok rules ∧
      clauses.ExpandsTo ⟨index⟩ rules) ∨
    (∃ via,
      inline (clauses.spliced name clauses.length [⟨index⟩]) body =
        .error (.spliceCycle name via) ∧
      clauses.Loops [⟨index⟩] (clauses.body ⟨index⟩) via) := by
  obtain ⟨hlt, _⟩ := List.getElem?_eq_some_iff.mp hget
  have htrail : clauses.Trail [⟨index⟩] := ⟨by simp, by simpa using hlt⟩
  have hbody := body_eq hget
  unfold ExpandsTo
  rw [hbody]
  refine inline_ends hclosed name htrail (by simp) ?_
  intro target via hmem
  exact hclosed ⟨index⟩ target ⟨via, hbody ▸ hmem⟩

/-- Either every state from number `index` on gets its rules, or the reading
of one of them is the first that comes back to its path. -/
theorem flatten_ends {clauses : Clauses} (hclosed : clauses.Closed)
    {index : Nat} {rest : Clauses} (hrest : clauses.drop index = rest) :
    (∃ states,
      clauses.flatten index rest = .ok states ∧
      states.map (·.name) = rest.map (·.1) ∧
      ∀ place state, states[place]? = some state →
        clauses.ExpandsTo ⟨index + place⟩ state.rules) ∨
    (∃ place name via,
      clauses.flatten index rest = .error (.spliceCycle name via) ∧
      rest[place]?.map (·.1) = some name ∧
      clauses.Loops [⟨index + place⟩] (clauses.body ⟨index + place⟩) via ∧
      ∀ earlier < place, ∃ rules, clauses.ExpandsTo ⟨index + earlier⟩ rules) := by
  induction rest generalizing index with
  | nil => exact Or.inl ⟨[], rfl, rfl, by simp⟩
  | cons head rest ih =>
      obtain ⟨name, body⟩ := head
      have hget : clauses[index]? = some (name, body) := by
        have hhead := congrArg List.head? hrest
        simpa [List.head?_drop] using hhead
      have htail : clauses.drop (index + 1) = rest := by
        rw [← List.tail_drop, hrest]
        rfl
      have hplace : ∀ place, index + (place + 1) = index + 1 + place := by omega
      rcases inline_root_ends hclosed hget with
        ⟨rules, hinline, hexpands⟩ | ⟨via, hinline, hloops⟩
      · rcases ih htail with
          ⟨states, hstates, hnames, hrules⟩ | ⟨place, other, via, herror, hname, hloops, hbefore⟩
        · refine Or.inl ⟨⟨name, rules⟩ :: states, ?_, by simp [hnames], ?_⟩
          · rw [flatten, hinline, hstates]
            rfl
          · intro place state hstate
            cases place with
            | zero =>
                obtain rfl := Option.some.inj hstate
                exact hexpands
            | succ place =>
                rw [hplace]
                exact hrules place state hstate
        · refine Or.inr ⟨place + 1, other, via, ?_, hname, ?_, ?_⟩
          · rw [flatten, hinline, herror]
            rfl
          · rw [hplace]
            exact hloops
          · intro earlier hearlier
            cases earlier with
            | zero => exact ⟨rules, hexpands⟩
            | succ earlier =>
                rw [hplace]
                exact hbefore earlier (by omega)
      · refine Or.inr ⟨0, name, via, ?_, rfl, hloops, by simp⟩
        rw [flatten, hinline]
        rfl

/-! ## Cycles -/

/-- A reading that began at `root` has found a state that is spliced in under
the name `via` and splices itself in. -/
theorem Loops.reaches_cycle {clauses : Clauses} {path : List StateId} {body : List Clause}
    {via : String} (hloops : clauses.Loops path body via)
    {root id : StateId} (hroot : ReflTransGen clauses.Splices root id)
    (hpath : ∀ earlier ∈ path, ReflTransGen clauses.Splices earlier id)
    (hbody : body ⊆ clauses.body id) :
    ∃ holder target,
      .splice target via ∈ clauses.body holder ∧
      TransGen clauses.Splices root target ∧
      TransGen clauses.Splices target target := by
  induction hloops generalizing id with
  | @back path rest target name hmem =>
      have hsplices : clauses.Splices id target := ⟨name, hbody List.mem_cons_self⟩
      exact ⟨id, target, hbody List.mem_cons_self, TransGen.tail' hroot hsplices,
        TransGen.tail' (hpath target hmem) hsplices⟩
  | @inside path rest target name via _ _ ih =>
      have hsplices : clauses.Splices id target := ⟨name, hbody List.mem_cons_self⟩
      refine ih (hroot.tail hsplices) ?_ (List.Subset.refl _)
      intro earlier hearlier
      rcases List.mem_cons.mp hearlier with rfl | hearlier
      · exact ReflTransGen.refl
      · exact (hpath earlier hearlier).tail hsplices
  | pastRule _ ih => exact ih hroot hpath (List.subset_of_cons_subset hbody)
  | pastSplice _ _ _ ih => exact ih hroot hpath (List.subset_of_cons_subset hbody)

/-- A reading that comes back to its path has found a cycle that the state
leads to from which it began. -/
theorem Loops.root_reaches_cycle {clauses : Clauses} {id : StateId} {via : String}
    (hloops : clauses.Loops [id] (clauses.body id) via) :
    ∃ holder target,
      .splice target via ∈ clauses.body holder ∧
      TransGen clauses.Splices id target ∧
      TransGen clauses.Splices target target :=
  hloops.reaches_cycle .refl (by simp [ReflTransGen.refl]) (List.Subset.refl _)

/-- No way through spliced states leads back to the path. -/
theorem Expands.not_mem_path {clauses : Clauses} {path : List StateId} {body : List Clause}
    {rules : List Rule} (hexpands : clauses.Expands path body rules)
    {target : StateId} {name : String} (hmem : .splice target name ∈ body)
    {id : StateId} (hreach : ReflTransGen clauses.Splices target id) : id ∉ path := by
  induction hexpands generalizing target name with
  | nil => simp at hmem
  | rule _ ih =>
      rcases List.mem_cons.mp hmem with hhead | hrest
      · cases hhead
      · exact ih hrest hreach
  | splice hfresh _ _ ihTarget ihRest =>
      rcases List.mem_cons.mp hmem with hhead | hrest
      · cases hhead
        rcases ReflTransGen.cases_head hreach with rfl | ⟨inner, ⟨via, hinner⟩, hreach⟩
        · exact hfresh
        · intro hpath
          exact ihTarget hinner hreach (List.mem_cons_of_mem _ hpath)
      · exact ihRest hrest hreach

theorem ExpandsTo.not_cyclic {clauses : Clauses} {id : StateId} {rules : List Rule}
    (hexpands : clauses.ExpandsTo id rules) : ¬ TransGen clauses.Splices id id := by
  intro hcycle
  obtain ⟨target, ⟨name, hmem⟩, hreach⟩ := TransGen.head'_iff.mp hcycle
  exact Expands.not_mem_path hexpands hmem hreach List.mem_cons_self

/-- Everything can be put in place exactly when nothing splices itself in. -/
theorem flatten_verdict {clauses : Clauses} (hclosed : clauses.Closed) :
    (∃ states,
      clauses.flatten 0 clauses = .ok states ∧
      ¬ ∃ id, TransGen clauses.Splices id id) ∨
    (∃ name via,
      clauses.flatten 0 clauses = .error (.spliceCycle name via) ∧
      ∃ id, TransGen clauses.Splices id id) := by
  rcases flatten_ends hclosed List.drop_zero with
    ⟨states, hstates, hnames, hrules⟩ | ⟨_, name, via, herror, _, hloops, _⟩
  · refine Or.inl ⟨states, hstates, ?_⟩
    rintro ⟨id, hcycle⟩
    obtain ⟨target, hsplices, _⟩ := TransGen.head'_iff.mp hcycle
    have hlength : states.length = clauses.length := by
      simpa using congrArg List.length hnames
    have hlt : id.index < states.length := hlength ▸ lt_length_of_splices hsplices
    have hexpands := hrules id.index _ (List.getElem?_eq_getElem hlt)
    rw [Nat.zero_add] at hexpands
    exact hexpands.not_cyclic hcycle
  · obtain ⟨_, target, _, _, hcycle⟩ := hloops.root_reaches_cycle
    exact Or.inr ⟨name, via, herror, target, hcycle⟩

end Highlighter.Clauses
