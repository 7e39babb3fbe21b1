import Highlighter.Table.Draft
import Mathlib.Tactic

/-!
# The states that calls declare

A draft grows call by call, and remembers only the first name that was given
twice.  Read from the end, the same calls are a list of states: each opening
call takes the declarations up to the next one, and declarations that no
opening call precedes belong to an implicit start state.
-/

namespace Highlighter

namespace DraftCall

/-- The declarations before the first state is opened, and the states opened
by the calls. -/
def sections : List DraftCall → List Declaration × List StateDraft
  | [] => ([], [])
  | .state name :: calls => ([], ⟨name, (sections calls).1⟩ :: (sections calls).2)
  | .declare declaration :: calls =>
    (declaration :: (sections calls).1, (sections calls).2)

def declared (calls : List DraftCall) : List StateDraft :=
  match (sections calls).1 with
  | [] => (sections calls).2
  | declaration :: body => ⟨startName, declaration :: body⟩ :: (sections calls).2

end DraftCall

/-- Of the names that repeat an earlier one, `name` comes first. -/
def FirstRepeat (names : List String) (name : String) : Prop :=
  ∃ before after, names = before ++ name :: after ∧ before.Nodup ∧ name ∈ before

theorem FirstRepeat.append {names : List String} {name : String}
    (hrepeat : FirstRepeat names name) (more : List String) :
    FirstRepeat (names ++ more) name := by
  obtain ⟨before, after, rfl, hnodup, hmem⟩ := hrepeat
  exact ⟨before, after ++ more, by simp, hnodup, hmem⟩

theorem FirstRepeat.not_nodup_append {before : List String} {name : String}
    (hmem : name ∈ before) (after : List String) : ¬ (before ++ name :: after).Nodup := by
  intro hnodup
  exact (List.nodup_append.mp hnodup).2.2 name hmem name List.mem_cons_self rfl

theorem FirstRepeat.not_nodup {names : List String} {name : String}
    (hrepeat : FirstRepeat names name) : ¬ names.Nodup := by
  obtain ⟨before, after, rfl, _, hmem⟩ := hrepeat
  exact not_nodup_append hmem after

theorem FirstRepeat.unique {names : List String} {name name' : String}
    (hrepeat : FirstRepeat names name) (hrepeat' : FirstRepeat names name') :
    name = name' := by
  obtain ⟨before, after, hnames, hnodup, hmem⟩ := hrepeat
  obtain ⟨before', after', hnames', hnodup', hmem'⟩ := hrepeat'
  rcases List.append_eq_append_iff.mp (hnames.symm.trans hnames') with
    ⟨middle, hbefore, hafter⟩ | ⟨middle, hbefore, hafter⟩
  · cases middle with
    | nil => exact (List.cons.inj hafter).1
    | cons first middle =>
        obtain ⟨rfl, _⟩ := List.cons.inj hafter
        rw [hbefore] at hnodup'
        exact absurd hnodup' (not_nodup_append hmem middle)
  · cases middle with
    | nil => exact (List.cons.inj hafter).1.symm
    | cons first middle =>
        obtain ⟨rfl, _⟩ := List.cons.inj hafter
        rw [hbefore] at hnodup
        exact absurd hnodup (not_nodup_append hmem' middle)

namespace Draft

theorem declareIn_append (declaration : Declaration) (front : List StateDraft)
    (state : StateDraft) :
    declareIn declaration (front ++ [state]) =
      front ++ [{ state with body := state.body ++ [declaration] }] := by
  induction front with
  | nil => rfl
  | cons first front ih =>
      cases front with
      | nil => simp [declareIn]
      | cons second front => simpa [declareIn] using ih

theorem foldl_apply_states
    (calls : List DraftCall) (front : List StateDraft) (name : String)
    (body : List Declaration) (duplicate : Option String) :
    (calls.foldl apply ⟨front ++ [⟨name, body⟩], duplicate⟩).states =
      front ++
        ⟨name, body ++ (DraftCall.sections calls).1⟩ :: (DraftCall.sections calls).2 := by
  induction calls generalizing front name body duplicate with
  | nil => simp [DraftCall.sections]
  | cons call calls ih =>
      cases call with
      | state opened =>
          simp only [List.foldl_cons, apply, DraftCall.sections]
          rw [ih]
          simp
      | declare declaration =>
          simp only [List.foldl_cons, apply, DraftCall.sections, declareIn_append]
          rw [ih]
          simp

theorem ofCalls_states (calls : List DraftCall) :
    (ofCalls calls).states = DraftCall.declared calls := by
  cases calls with
  | nil => rfl
  | cons call calls =>
      cases call with
      | state opened => exact foldl_apply_states calls [] opened [] none
      | declare declaration =>
          exact foldl_apply_states calls [] startName [declaration] none

/-- What the draft remembers of repeated names is right. -/
def TracksNames (draft : Draft) : Prop :=
  match draft.duplicate with
  | none => draft.names.Nodup
  | some name => FirstRepeat draft.names name

theorem TracksNames.open_state {draft : Draft} (htracks : draft.TracksNames) (name : String) :
    (draft.apply (.state name)).TracksNames := by
  have hnames : (draft.apply (.state name)).names = draft.names ++ [name] := by
    simp [apply, names]
  unfold TracksNames at htracks ⊢
  rw [hnames]
  cases hduplicate : draft.duplicate with
  | some first =>
      rw [hduplicate] at htracks
      have hkept : (draft.apply (.state name)).duplicate = some first := by
        simp [apply, hduplicate]
      rw [hkept]
      exact htracks.append [name]
  | none =>
      rw [hduplicate] at htracks
      by_cases hmem : name ∈ draft.names
      · have hnoted : (draft.apply (.state name)).duplicate = some name := by
          simp [apply, hduplicate, hmem]
        rw [hnoted]
        exact ⟨draft.names, [], rfl, htracks, hmem⟩
      · have hnone : (draft.apply (.state name)).duplicate = none := by
          simp [apply, hduplicate, hmem]
        rw [hnone]
        exact List.nodup_append.mpr ⟨htracks, by simp, by
          rintro earlier hearlier _ hname rfl
          exact hmem (List.mem_singleton.mp hname ▸ hearlier)⟩

theorem names_declare {draft : Draft} (hstates : draft.states ≠ [])
    (declaration : Declaration) :
    (draft.apply (.declare declaration)).names = draft.names := by
  obtain ⟨front, state, hfront⟩ := List.eq_nil_or_concat draft.states |>.resolve_left hstates
  rw [List.concat_eq_append] at hfront
  simp [apply, names, hfront, declareIn_append]

theorem TracksNames.declare {draft : Draft} (htracks : draft.TracksNames)
    (declaration : Declaration) : (draft.apply (.declare declaration)).TracksNames := by
  by_cases hstates : draft.states = []
  · have hnames : draft.names = [] := by simp [names, hstates]
    unfold TracksNames at htracks ⊢
    rw [hnames] at htracks
    cases hduplicate : draft.duplicate with
    | some first =>
        rw [hduplicate] at htracks
        exact absurd List.nodup_nil htracks.not_nodup
    | none => simp [apply, names, hduplicate, hstates, declareIn]
  · unfold TracksNames at htracks ⊢
    rw [names_declare hstates]
    exact htracks

theorem TracksNames.apply {draft : Draft} (htracks : draft.TracksNames) (call : DraftCall) :
    (draft.apply call).TracksNames := by
  cases call with
  | state name => exact htracks.open_state name
  | declare declaration => exact htracks.declare declaration

theorem ofCalls_tracksNames (calls : List DraftCall) : (ofCalls calls).TracksNames := by
  have hrun : ∀ draft : Draft, draft.TracksNames → (calls.foldl Draft.apply draft).TracksNames := by
    induction calls with
    | nil => exact fun draft htracks => htracks
    | cons call calls ih => exact fun draft htracks => ih _ (htracks.apply call)
  exact hrun empty List.nodup_nil

end Draft

end Highlighter
