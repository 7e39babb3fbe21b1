import Highlighter.Mode.CellTail
import Highlighter.Proofs.BuildVerdict
import Highlighter.Proofs.TakenTexts
import Mathlib.Tactic

/-!
# The rules of the CellTail table

The table that the draft builds, rule by rule, with the plans that its
patterns are matched by.  Each rule is compiled by itself; a draft written from
such rules is compiled to them, whatever rule reads the strings.
-/

namespace Highlighter

/-! ## Drafts written from rules -/

/-- The rule is what its own text gives, except for the state after it. -/
def Rule.Reads (rule : Rule) : Prop :=
  Draft.empty.compileRule Pattern.read "" 0 ⟨rule.labelling, rule.source, none⟩ =
    .ok { rule with next := none }

instance (rule : Rule) : Decidable rule.Reads :=
  inferInstanceAs (Decidable (_ = _))

namespace Draft

variable {draft : Draft}

/-- The declaration of a rule, with the state after it by name. -/
def declares (draft : Draft) (rule : Rule) : Declaration :=
  .rule ⟨rule.labelling, rule.source, rule.next.map draft.nameAt⟩

theorem resolveNext_nameAt (hnodup : draft.names.Nodup) {next : Option StateId}
    (hnext : ∀ id ∈ next, id.index < draft.names.length) (state : String) :
    draft.resolveNext state (next.map draft.nameAt) = .ok next := by
  rw [resolveNext_eq_ok_iff]
  cases next with
  | none => rfl
  | some id =>
      have hname : draft.names[id.index]? = some (draft.nameAt id) := by
        simp [nameAt, List.getElem?_eq_getElem (hnext id rfl)]
      exact congrArg some (stateId?_of_nodup hnodup hname)

/-- The place of a rule in its draft decides which state comes after it, and
nothing else. -/
theorem compileDeclaration_declares (hnodup : draft.names.Nodup) {rule : Rule}
    (hreads : rule.Reads) (hnext : ∀ id ∈ rule.next, id.index < draft.names.length)
    (state : String) (index : Nat) :
    draft.compileDeclaration Pattern.read state index (draft.declares rule) = .ok (.rule rule) := by
  unfold Rule.Reads compileRule at hreads
  split at hreads
  next => cases hreads
  next pattern hpattern =>
    obtain ⟨done, hgroups, hrest⟩ := Except.bind_eq_ok_iff.mp hreads
    have hplan : pattern.plan.marked = rule.plan := congrArg Rule.plan (Except.ok.inj hrest)
    have hgroups' : checkGroups state index pattern rule.labelling = .ok done :=
      checkGroups_eq_ok_iff.mpr (checkGroups_eq_ok_iff.mp hgroups)
    have hresolve := resolveNext_nameAt hnodup hnext state
    simp only [declares, compileDeclaration, compileRule, hpattern, hgroups', hresolve, hplan]
    rfl

theorem compileBody_declares (hnodup : draft.names.Nodup) {rules : List Rule}
    (hrules : ∀ rule ∈ rules, rule.Reads ∧ ∀ id ∈ rule.next, id.index < draft.names.length)
    {state : String} {index : Nat} {body : List Declaration} {clauses : List Clause}
    (hbody : draft.compileBody Pattern.read state (index + rules.length) body = .ok clauses) :
    draft.compileBody Pattern.read state index (rules.map draft.declares ++ body) =
      .ok (rules.map .rule ++ clauses) := by
  induction rules generalizing index with
  | nil => exact hbody
  | cons rule rules ih =>
      obtain ⟨⟨hreads, hnext⟩, hrest⟩ := List.forall_mem_cons.mp hrules
      have hclause := compileDeclaration_declares hnodup hreads hnext state index
      have hclauses :
          draft.compileBody Pattern.read state (index + 1) (rules.map draft.declares ++ body) =
          .ok (rules.map .rule ++ clauses) :=
        ih hrest (by rwa [Nat.add_right_comm])
      rw [List.map_cons, List.cons_append, compileBody, hclause, hclauses]
      rfl

theorem compileStates_cons {name : String} {body : List Declaration} {states : List StateDraft}
    {start : List Clause} {clauses : Clauses}
    (hbody : draft.compileBody Pattern.read name 0 body = .ok start)
    (hclauses : draft.compileStates Pattern.read states = .ok clauses) :
    draft.compileStates Pattern.read (⟨name, body⟩ :: states) = .ok ((name, start) :: clauses) := by
  rw [compileStates, hbody, hclauses]
  rfl

end Draft

namespace CellTail

/-! ## The table -/

def commentRule : Rule where
  labelling := .whole .comment
  source := "#.*$"
  plan :=
    .seq (.one (.single '#'))
      (.seq (.star true (.one (CharSet.single '\n').compl)) (.look .textEnd))
  next := none

/-- The quote that opens or closes a string. -/
def quoteRule (next : StateId) : Rule where
  labelling := .whole .string
  source := "\""
  plan := .one (.single '"')
  next := some next

def charRule : Rule where
  labelling := .whole .string
  source := "'.'"
  plan :=
    .seq (.one (.single '\'')) (.seq (.one (CharSet.single '\n').compl) (.one (.single '\'')))
  next := none

def operatorRule : Rule where
  labelling := .whole .keywordOperator
  source := operatorPattern
  plan := .anyWord "+" ["-", "*", "/", "|", "&", "%", "^", ".."]
  next := none

def punctuationRule : Rule where
  labelling := .whole .punctuation
  source := punctuationPattern
  plan :=
    .anyWord ","
      [":", ";", "->", "+=", "-=", "*=", "/=", "//=", "%=", "@=", "&=", "|=", "^=", ">>=", "<<=",
        "**="]
  next := none

def leftParenRule : Rule where
  labelling := .whole .leftParen
  source := "[\\[(\x7b]"
  plan := .one (.ofChars ['[', '(', '\x7b'])
  next := none

def rightParenRule : Rule where
  labelling := .whole .rightParen
  source := "[\\])\x7d]"
  plan := .one (.ofChars [']', ')', '\x7d'])
  next := none

/-- What the name of a definition is made of. -/
def nameChars : CharSet :=
  .ofList [.range '\u00bf' '\u1fff', .range '\u2c00' '\ud7ff', .word]

def definitionRule : Rule where
  labelling := .groups [.keyword, .text, .functionName]
  source := definitionPattern
  plan :=
    .seq (.group 1 (.anyWord "def" ["class"]))
      (.seq (.group 2 (.many true (.seq (.one .blank) (.once 0 .empty))))
        (.group 3 (.many true (.seq (.one nameChars) (.once 1 .empty)))))
  next := none

def blankRule : Rule where
  labelling := .whole .text
  source := "\\s+"
  plan := .many true (.one .blank)
  next := none

def integerRule : Rule where
  labelling := .whole .numeric
  source := integerPattern
  plan :=
    .seq (.alt (.seq (.one (.range '1' '9')) (.star true (.one .asciiDigit))) (.one (.single '0')))
      (.look (.wordEdge .ascii))
  next := none

def wordStarts : CharSet :=
  .ofList [.asciiLetter, .single '_', .single '$']

def wordParts : CharSet :=
  wordStarts.union .asciiDigit

def wordRule : Rule where
  labelling := .classify
  source := identifierPattern
  plan :=
    .seq (.one wordStarts) (.seq (.star true (.one wordParts)) (.look (.wordEdge .ascii)))
  next := none

/-- Any character inside a string. -/
def contentRule : Rule where
  labelling := .whole .string
  source := "[^\"]"
  plan := .one (CharSet.single '"').compl
  next := none

def constantRules : List Rule :=
  [integerRule, wordRule]

def startRules : List Rule :=
  [commentRule, quoteRule ⟨1⟩, charRule, operatorRule, punctuationRule, leftParenRule,
    rightParenRule, definitionRule, blankRule] ++ constantRules

def stringRules : List Rule :=
  [quoteRule ⟨0⟩, contentRule]

def builtTable : RuleTable where
  states := [⟨startName, startRules⟩, ⟨stringState, stringRules⟩, ⟨constantsState, constantRules⟩]
  start := ⟨0⟩

/-- The table with a rule of its own for what a string holds. -/
def tableWith (content : Rule) : RuleTable where
  states :=
    [⟨startName, startRules⟩, ⟨stringState, [quoteRule ⟨0⟩, content]⟩,
      ⟨constantsState, constantRules⟩]
  start := ⟨0⟩

theorem builtTable_eq : builtTable = tableWith contentRule := rfl

/-- The mode with its table built. -/
def builtMode : Mode :=
  { Mode.plainText with id := modeId, table := builtTable, vocabulary, lineComment := some "#" }

/-- The scanner of the table and the built-in words, without a cap. -/
def uncapped : Scanner :=
  ⟨builtTable, vocabulary, ⟨none⟩⟩

theorem startRules_read :
    ∀ rule ∈ startRules, rule.Reads ∧ ∀ id ∈ rule.next, id.index < 3 := by
  decide +kernel

/-- The rest of the table does not depend on the rule for what a string holds. -/
theorem ofCalls_callsWith {content : Rule} (hreads : content.Reads)
    (hlabelling : content.labelling = .whole .string) (hnext : content.next = none) :
    RuleTable.ofCalls (callsWith content.source) = .ok (tableWith content) := by
  let draft := Draft.ofCalls (callsWith content.source)
  have hnodup : draft.names.Nodup :=
    (by decide : [startName, stringState, constantsState].Nodup)
  have hstart : draft.compileBody Pattern.read startName 0
      ((startRules.take 9).map draft.declares ++ [.splice constantsState]) =
        .ok ((startRules.take 9).map .rule ++ [.splice ⟨2⟩ constantsState]) :=
    Draft.compileBody_declares hnodup
      (fun rule hrule => startRules_read rule (List.mem_of_mem_take hrule)) rfl
  have hstring : draft.compileBody Pattern.read stringState 0
      ([quoteRule ⟨0⟩, content].map draft.declares ++ []) =
        .ok ([quoteRule ⟨0⟩, content].map .rule ++ []) := by
    have hquote : (quoteRule ⟨0⟩).Reads :=
      (startRules_read (quoteRule ⟨1⟩) (by simp [startRules])).1
    apply Draft.compileBody_declares hnodup _ rfl
    show ∀ rule ∈ [quoteRule ⟨0⟩, content], rule.Reads ∧ ∀ id ∈ rule.next, id.index < 3
    simpa [hnext, hquote, hreads] using (by decide : ∀ id ∈ (quoteRule ⟨0⟩).next, id.index < 3)
  have hconstants : draft.compileBody Pattern.read constantsState 0
      (constantRules.map draft.declares ++ []) = .ok (constantRules.map .rule ++ []) :=
    Draft.compileBody_declares hnodup
      (fun rule hrule => startRules_read rule (List.mem_append_right _ hrule)) rfl
  have hstates : draft.states =
      [⟨startName, (startRules.take 9).map draft.declares ++ [.splice constantsState]⟩,
        ⟨stringState, [quoteRule ⟨0⟩, content].map draft.declares ++ []⟩,
        ⟨constantsState, constantRules.map draft.declares ++ []⟩] := by
    have hcontent : draft.declares content = .rule ⟨.whole .string, content.source, none⟩ := by
      rw [Draft.declares, hlabelling, hnext]
      rfl
    rw [List.map_cons, List.map_cons, hcontent]
    rfl
  have hend : draft.compileStates Pattern.read [] = .ok [] := rfl
  have hclauses :=
    Draft.compileStates_cons hstart
      (Draft.compileStates_cons hstring (Draft.compileStates_cons hconstants hend))
  have hbuild : draft.build Pattern.read = _ := Draft.build_of_start rfl rfl
  rw [hstates, hclauses] at hbuild
  exact hbuild

theorem table_eq : table = .ok builtTable := by
  have hreads : contentRule.Reads := by decide +kernel
  have hbuilt := ofCalls_callsWith hreads rfl rfl
  rw [table, calls, builtTable_eq]
  exact hbuilt

theorem rules_builtTable (state : StateId) :
    builtTable.rules state = startRules ∨ builtTable.rules state = stringRules ∨
      builtTable.rules state = constantRules ∨ builtTable.rules state = [] := by
  obtain ⟨index⟩ := state
  match index with
  | 0 => exact Or.inl rfl
  | 1 => exact Or.inr (Or.inl rfl)
  | 2 => exact Or.inr (Or.inr (Or.inl rfl))
  | _ + 3 => exact Or.inr (Or.inr (Or.inr rfl))

/-! ## Characters of words -/

theorem isAlpha_iff_toNat {c : Char} :
    c.isAlpha = true ↔
      (65 ≤ c.toNat ∧ c.toNat ≤ 90) ∨ (97 ≤ c.toNat ∧ c.toNat ≤ 122) := by
  change (decide (c.val ≥ 'A'.val ∧ c.val ≤ 'Z'.val) ||
    (decide (c.val ≥ 'a'.val) && decide (c.val ≤ 'z'.val))) = true ↔ _
  simp [UInt32.le_iff_toNat_le]

theorem contains_wordStarts (c : Char) :
    wordStarts.contains c = isIdentifierShape.isStart c := by
  have hranges : wordStarts = ⟨[(36, 36), (65, 90), (95, 95), (97, 122)]⟩ := by decide
  have hunderscore : c = '_' ↔ c.toNat = 95 := Char.toNat_inj.symm
  have hdollar : c = '$' ↔ c.toNat = 36 := Char.toNat_inj.symm
  rw [Bool.eq_iff_iff, hranges]
  simp [isIdentifierShape.isStart, isAlpha_iff_toNat, hunderscore, hdollar]
  omega

theorem contains_wordParts (c : Char) :
    wordParts.contains c = (isIdentifierShape.isStart c || c.isDigit) := by
  have hranges : wordParts = ⟨[(36, 36), (48, 57), (65, 90), (95, 95), (97, 122)]⟩ := by decide
  have hunderscore : c = '_' ↔ c.toNat = 95 := Char.toNat_inj.symm
  have hdollar : c = '$' ↔ c.toNat = 36 := Char.toNat_inj.symm
  rw [Bool.eq_iff_iff, hranges]
  simp [isIdentifierShape.isStart, isAlpha_iff_toNat, Char.isDigit_iff_toNat, hunderscore,
    hdollar]
  omega

theorem contains_wordParts_of_isAsciiWord {c : Char} (hword : Text.isAsciiWord c = true) :
    wordParts.contains c = true := by
  rw [contains_wordParts]
  simp only [Text.isAsciiWord, Char.isAlphanum, isIdentifierShape.isStart, Bool.or_eq_true]
    at hword ⊢
  tauto

end CellTail

end Highlighter
