import Highlighter.Stored.Settings
import Highlighter.Stored.Tokens
import Mathlib.Tactic

/-!
# What is stored can be read again

Every stored value is read back as it was.  Records are read by the names of
their fields, so the argument is about looking names up: among different names
each one finds its own field, and a field that has been taken away is not
found.  A record of settings then takes the default for exactly the fields
that are missing.
-/

namespace Highlighter

/-- What is written is read back. -/
class LawfulStored (α : Type) [Stored α] : Prop where
  decode_encode : ∀ a : α, decode? (encode a) = some a

export LawfulStored (decode_encode)

/-! ## Plain values -/

instance : LawfulStored Bool where
  decode_encode _ := rfl

instance : LawfulStored String where
  decode_encode _ := rfl

theorem Json.natBelow?_nat {n bound : Nat} (hn : n < bound) :
    (Json.nat n).natBelow? bound = some n :=
  if_pos hn

instance : LawfulStored UInt64 where
  decode_encode n := by
    have hread := Json.natBelow?_nat n.toNat_lt_size
    simp only [encode, decode?, hread, Option.map_some, UInt64.ofNat_toNat]

instance : LawfulStored TextSize where
  decode_encode size := by
    have hread := Json.natBelow?_nat size.val_lt
    have hof : TextSize.of size.val = size := by
      have hlt := size.val_lt
      simp only [TextSize.of, TextSize.greatest]
      congr 1
      omega
    simp only [encode, decode?, hread, Option.map_some, hof]

instance : LawfulStored Label where
  decode_encode label := by cases label <;> decide

instance : LawfulStored Category where
  decode_encode category := by cases category <;> decide

section Containers

variable {α : Type} [Stored α] [LawfulStored α]

theorem decodeItems?_map_encode (items : List α) :
    decodeItems? (items.map encode) = some items := by
  induction items with
  | nil => rfl
  | cons item items ih => simp [decodeItems?, decode_encode, ih]

instance : LawfulStored (List α) where
  decode_encode items := decodeItems?_map_encode items

/-- An optional value is read back if no value is written as null is. -/
theorem decode_encode_option (hnull : ∀ a : α, encode a ≠ Json.null) (value : Option α) :
    decode? (encode value) = some value := by
  cases value with
  | none => rfl
  | some a =>
      change decodeOption? (encode a) = some (some a)
      unfold decodeOption?
      split
      next hjson => exact absurd hjson (hnull a)
      next => rw [decode_encode, Option.map_some]

end Containers

instance : LawfulStored (Option UInt64) where
  decode_encode value := decode_encode_option (fun _ => Json.noConfusion) value

/-! ## Records -/

namespace Json

/-- An object with only those of its fields whose names are kept. -/
def keepFields (kept : String → Bool) : Json → Json
  | object fields => object (fields.filter fun field => kept field.1)
  | json => json

variable {fields : List (String × Json)} {names : List String} {kept : String → Bool}

theorem lookup_filter_name {field : String × Json}
    (hnames : (fields.map (·.1)).Nodup) (hfield : field ∈ fields) :
    (fields.filter fun field => kept field.1).lookup field.1 =
      if kept field.1 then some field.2 else none := by
  induction fields with
  | nil => simp at hfield
  | cons first fields ih =>
      rw [List.map_cons, List.nodup_cons] at hnames
      rw [List.filter_cons]
      rcases List.mem_cons.mp hfield with rfl | hfield
      · have hother : ∀ other ∈ fields, (field.1 == other.1) = false := by
          intro other hmem
          refine beq_false_of_ne fun heq => hnames.1 ?_
          exact heq ▸ List.mem_map_of_mem hmem
        by_cases hkept : kept field.1 = true
        · rw [if_pos hkept, if_pos hkept, List.lookup_cons_self]
        · rw [if_neg hkept, if_neg hkept, List.lookup_eq_none_iff]
          intro other hmem
          simpa using hother other (List.mem_filter.mp hmem).1
      · have hne : (field.1 == first.1) = false := by
          refine beq_false_of_ne fun heq => hnames.1 ?_
          exact heq ▸ List.mem_map_of_mem hfield
        by_cases hkept : kept first.1 = true
        · rw [if_pos hkept, List.lookup_cons, hne]
          exact ih hnames.2 hfield
        · rw [if_neg hkept]
          exact ih hnames.2 hfield

theorem givenOnce_filter (hfields : fields.map (·.1) = names) (hnames : names.Nodup)
    (kept : String → Bool) :
    givenOnce names (fields.filter fun field => kept field.1) = true := by
  rw [givenOnce, List.all_eq_true]
  intro name _
  have hfilter : (fields.filter fun field => kept field.1).countP (·.1 == name) ≤
      fields.countP (·.1 == name) := List.filter_sublist.countP_le
  have hcount := List.nodup_iff_count_le_one.mp hnames name
  rw [← hfields, List.count_eq_countP, List.countP_map] at hcount
  exact decide_eq_true (hfilter.trans hcount)

/-- Each name finds its own field, unless that was left out. -/
theorem fields?_keepFields (hfields : fields.map (·.1) = names) (hnames : names.Nodup) :
    ((object fields).keepFields kept).fields? names =
      some (fields.map fun field => if kept field.1 then some field.2 else none) := by
  have honce := givenOnce_filter hfields hnames kept
  subst hfields
  simp only [keepFields, fields?, honce, if_true, List.map_map, Option.some.injEq,
    List.map_inj_left]
  intro field hfield
  exact lookup_filter_name hnames hfield

@[simp] theorem keepFields_all (json : Json) : json.keepFields (fun _ => true) = json := by
  cases json <;> simp [keepFields]

theorem fields?_object (hfields : fields.map (·.1) = names) (hnames : names.Nodup) :
    (object fields).fields? names = some (fields.map fun field => some field.2) := by
  rw [← keepFields_all (object fields), fields?_keepFields hfields hnames]
  rfl

section Fields

variable {α : Type} [Stored α] [LawfulStored α]

theorem required?_encode (a : α) : required? (some (encode a)) = some a :=
  decode_encode a

theorem orDefault?_kept (default a : α) (given : Bool) :
    orDefault? default (if given then some (encode a) else none) =
      some (if given then a else default) := by
  cases given with
  | false => rfl
  | true => exact decode_encode a

end Fields

end Json

instance : LawfulStored TextRange where
  decode_encode range := by
    have hfields : (encode range).fields? ["start", "end"] =
        some [some (encode range.start), some (encode range.stop)] :=
      Json.fields?_object rfl (by decide)
    calc
      decode? (encode range) =
          ((encode range).fields? ["start", "end"]).bind TextRange.decodeFields? := rfl
      _ = some range := by
        simp [hfields, TextRange.decodeFields?, Json.required?_encode]

instance : LawfulStored Token where
  decode_encode token := by
    have hfields : (encode token).fields? ["label", "text", "range"] =
        some [some (encode token.label), some (encode token.text), some (encode token.range)] :=
      Json.fields?_object rfl (by decide)
    calc
      decode? (encode token) =
          ((encode token).fields? ["label", "text", "range"]).bind Token.decodeFields? := rfl
      _ = some token := by
        simp [hfields, Token.decodeFields?, Json.required?_encode]

/-! ## Records with defaults

A field is kept by its stored name, and has its default otherwise.
-/

namespace Vocabulary

def keepFields (v : Vocabulary) (kept : String → Bool) : Vocabulary where
  invalidDeprecated :=
    if kept "invalid-deprecated" then v.invalidDeprecated else empty.invalidDeprecated
  supportFunction := if kept "support-function" then v.supportFunction else empty.supportFunction
  pseudoVariable := if kept "pseudo-variable" then v.pseudoVariable else empty.pseudoVariable
  constant := if kept "constant" then v.constant else empty.constant
  keyword := if kept "keyword" then v.keyword else empty.keyword

theorem decode_keepFields (v : Vocabulary) (kept : String → Bool) :
    decode? ((encode v).keepFields kept) = some (v.keepFields kept) := by
  have hfields : ((encode v).keepFields kept).fields? fieldNames =
      some
        [if kept "invalid-deprecated" then some (encode v.invalidDeprecated) else none,
          if kept "support-function" then some (encode v.supportFunction) else none,
          if kept "pseudo-variable" then some (encode v.pseudoVariable) else none,
          if kept "constant" then some (encode v.constant) else none,
          if kept "keyword" then some (encode v.keyword) else none] :=
    Json.fields?_keepFields rfl (by decide)
  calc
    decode? ((encode v).keepFields kept) =
        (((encode v).keepFields kept).fields? fieldNames).bind decodeFields? := rfl
    _ = some (v.keepFields kept) := by
      simp only [hfields, Option.bind_some, decodeFields?, Json.orDefault?_kept]
      rfl

end Vocabulary

namespace ScanConfig

def keepFields (config : ScanConfig) (kept : String → Bool) : ScanConfig where
  maxTokens := if kept "max_tokens_per_line" then config.maxTokens else default.maxTokens

theorem decode_keepFields (config : ScanConfig) (kept : String → Bool) :
    decode? ((encode config).keepFields kept) = some (config.keepFields kept) := by
  have hfields : ((encode config).keepFields kept).fields? ["max_tokens_per_line"] =
      some [if kept "max_tokens_per_line" then some (encode config.maxTokens) else none] :=
    Json.fields?_keepFields rfl (by decide)
  calc
    decode? ((encode config).keepFields kept) =
        (((encode config).keepFields kept).fields? ["max_tokens_per_line"]).bind decodeFields? :=
      rfl
    _ = some (config.keepFields kept) := by
      simp only [hfields, Option.bind_some, decodeFields?, Json.orDefault?_kept]
      rfl

end ScanConfig

namespace Behaviour

def keepFields (behaviour : Behaviour) (kept : String → Bool) : Behaviour where
  autoPairBrackets :=
    if kept "auto-pair-brackets" then behaviour.autoPairBrackets else default.autoPairBrackets
  autoPairQuotes :=
    if kept "auto-pair-quotes" then behaviour.autoPairQuotes else default.autoPairQuotes

theorem decode_keepFields (behaviour : Behaviour) (kept : String → Bool) :
    decode? ((encode behaviour).keepFields kept) = some (behaviour.keepFields kept) := by
  have hfields :
      ((encode behaviour).keepFields kept).fields? ["auto-pair-brackets", "auto-pair-quotes"] =
        some
          [if kept "auto-pair-brackets" then some (encode behaviour.autoPairBrackets) else none,
            if kept "auto-pair-quotes" then some (encode behaviour.autoPairQuotes) else none] :=
    Json.fields?_keepFields rfl (by decide)
  calc
    decode? ((encode behaviour).keepFields kept) =
        (((encode behaviour).keepFields kept).fields?
          ["auto-pair-brackets", "auto-pair-quotes"]).bind decodeFields? := rfl
    _ = some (behaviour.keepFields kept) := by
      simp only [hfields, Option.bind_some, decodeFields?, Json.orDefault?_kept]
      rfl

end Behaviour

instance : LawfulStored Vocabulary where
  decode_encode v := by
    simpa [Vocabulary.keepFields] using v.decode_keepFields fun _ => true

instance : LawfulStored ScanConfig where
  decode_encode config := by
    simpa [ScanConfig.keepFields] using config.decode_keepFields fun _ => true

instance : LawfulStored Behaviour where
  decode_encode behaviour := by
    simpa [Behaviour.keepFields] using behaviour.decode_keepFields fun _ => true

/-- Every stored value is read back, and a record of settings also when fields
are missing, with the defaults for these.  A cap that is missing is the default
one, and null is no cap. -/
theorem stored_values_read_back :
    (∀ size : TextSize, decode? (encode size) = some size) ∧
    (∀ range : TextRange, decode? (encode range) = some range) ∧
    (∀ label : Label, decode? (encode label) = some label) ∧
    (∀ token : Token, decode? (encode token) = some token) ∧
    (∀ category : Category, decode? (encode category) = some category) ∧
    (∀ v : Vocabulary,
      decode? (encode v) = some v ∧
      ∀ kept, decode? ((encode v).keepFields kept) = some (v.keepFields kept)) ∧
    (∀ config : ScanConfig,
      decode? (encode config) = some config ∧
      ∀ kept, decode? ((encode config).keepFields kept) = some (config.keepFields kept)) ∧
    (∀ behaviour : Behaviour,
      decode? (encode behaviour) = some behaviour ∧
      ∀ kept, decode? ((encode behaviour).keepFields kept) = some (behaviour.keepFields kept)) ∧
    decode? (.object []) = some ScanConfig.default ∧
    decode? (.object [("max_tokens_per_line", .null)]) = some (ScanConfig.mk none) := by
  refine ⟨decode_encode, decode_encode, decode_encode, decode_encode, decode_encode, ?_, ?_, ?_,
    ?_, ?_⟩
  · exact fun v => ⟨decode_encode v, v.decode_keepFields⟩
  · exact fun config => ⟨decode_encode config, config.decode_keepFields⟩
  · exact fun behaviour => ⟨decode_encode behaviour, behaviour.decode_keepFields⟩
  · exact ScanConfig.default.decode_keepFields fun _ => false
  · exact decode_encode (ScanConfig.mk none)

end Highlighter
