import Highlighter.Text.WordOrder
import Mathlib.Data.String.Basic
import Mathlib.Tactic

/-!
# Words in the order of their bytes

UTF-8 keeps the order of the code points: of two characters the greater one
has the greater first byte, or agrees in it and has the greater six bits at
the first place where the two differ.  A sorted list of words is therefore
sorted by bytes, whichever order it was made with.
-/

namespace Highlighter.Text

/-- The UTF-8 bytes of a word. -/
def bytes (word : String) : List UInt8 :=
  word.toByteArray.data.toList

theorem bytes_ofList (cs : List Char) :
    bytes (String.ofList cs) = cs.flatMap String.utf8EncodeChar := by
  rw [bytes, String.toByteArray_ofList, List.utf8Encode, List.data_toByteArray]

theorem bytes_injective : Function.Injective bytes := by
  intro a b hbytes
  apply String.toByteArray_inj.mp
  apply ByteArray.ext
  exact Array.toList_inj.mp hbytes

/-- Numbers compare by their digits to base 64, the greatest of which is not
bounded here. -/
theorem sextets_lt {m n : Nat} (hlt : m < n) :
    m / 262144 < n / 262144 ∨
      m / 262144 = n / 262144 ∧
        (m / 4096 % 64 < n / 4096 % 64 ∨
          m / 4096 % 64 = n / 4096 % 64 ∧
            (m / 64 % 64 < n / 64 % 64 ∨
              m / 64 % 64 = n / 64 % 64 ∧ m % 64 < n % 64)) := by
  have hm : m = 262144 * (m / 262144) + 4096 * (m / 4096 % 64) + 64 * (m / 64 % 64) + m % 64 := by
    omega
  have hn : n = 262144 * (n / 262144) + 4096 * (n / 4096 % 64) + 64 * (n / 64 % 64) + n % 64 := by
    omega
  have hsecond : n / 4096 % 64 < 64 := Nat.mod_lt _ (by decide)
  have hthird : n / 64 % 64 < 64 := Nat.mod_lt _ (by decide)
  have hlast : n % 64 < 64 := Nat.mod_lt _ (by decide)
  generalize m / 262144 = a, m / 4096 % 64 = b, m / 64 % 64 = c, m % 64 = d at *
  generalize n / 262144 = a', n / 4096 % 64 = b', n / 64 % 64 = c', n % 64 = d' at *
  omega

/-- The bytes of two characters differ before either ends, so what follows
them does not matter. -/
theorem utf8EncodeChar_append_lt {c d : Char} (hlt : c < d) (xs ys : List UInt8) :
    String.utf8EncodeChar c ++ xs < String.utf8EncodeChar d ++ ys := by
  have hcode : c.val.toNat < d.val.toNat := hlt
  have hmost : d.val.toNat < 0x110000 := by
    have hvalid := d.valid
    simp only [UInt32.isValidChar, Nat.isValidChar] at hvalid
    omega
  have hdigits := sextets_lt hcode
  unfold String.utf8EncodeChar
  dsimp only
  generalize c.val.toNat = m at *
  generalize d.val.toNat = n at *
  -- Characters of different lengths differ in the first byte already.
  split_ifs <;>
    simp (disch := omega) only [List.cons_append, List.nil_append, List.cons_lt_cons_iff,
      UInt8.lt_iff_toNat_lt, ← UInt8.toNat_inj, UInt8.toNat_ofNat', Nat.mod_eq_of_lt]
  all_goals omega

theorem flatMap_utf8EncodeChar_lt {cs ds : List Char} (hlt : cs < ds) :
    cs.flatMap String.utf8EncodeChar < ds.flatMap String.utf8EncodeChar := by
  induction cs generalizing ds with
  | nil =>
      cases ds with
      | nil => simp at hlt
      | cons d ds =>
          have hne : String.utf8EncodeChar d ≠ [] := String.utf8EncodeChar_ne_nil
          rw [List.flatMap_nil, List.flatMap_cons]
          cases hbytes : String.utf8EncodeChar d with
          | nil => exact absurd hbytes hne
          | cons byte bytes => exact List.nil_lt_cons _ _
  | cons c cs ih =>
      cases ds with
      | nil => simp at hlt
      | cons d ds =>
          rw [List.flatMap_cons, List.flatMap_cons]
          rcases List.cons_lt_cons_iff.mp hlt with hcd | ⟨rfl, hrest⟩
          · exact utf8EncodeChar_append_lt hcd _ _
          · exact List.append_left_lt (ih hrest)

theorem bytes_lt_of_lt {a b : String} (hlt : a < b) : bytes a < bytes b := by
  have hchars := String.lt_iff_toList_lt.mp hlt
  rw [← String.ofList_toList (s := a), ← String.ofList_toList (s := b), bytes_ofList, bytes_ofList]
  exact flatMap_utf8EncodeChar_lt hchars

/-! ## Sorting -/

@[simp] theorem mem_insertWord {word other : String} {words : List String} :
    other ∈ insertWord word words ↔ other = word ∨ other ∈ words := by
  induction words with
  | nil => simp [insertWord]
  | cons w words ih =>
      unfold insertWord
      split_ifs with hlt heq
      · simp
      · simp [heq]
      · rw [List.mem_cons, ih, List.mem_cons]
        tauto

theorem insertWord_increasing {words : List String} (word : String)
    (hwords : words.Pairwise (· < ·)) : (insertWord word words).Pairwise (· < ·) := by
  induction words with
  | nil => exact List.pairwise_singleton _ _
  | cons w words ih =>
      obtain ⟨hfirst, hrest⟩ := List.pairwise_cons.mp hwords
      unfold insertWord
      split_ifs with hlt heq
      · apply List.Pairwise.cons _ hwords
        intro other hother
        rcases List.mem_cons.mp hother with rfl | hother
        · exact hlt
        · exact hlt.trans (hfirst other hother)
      · exact hwords
      · have hgt : w < word := lt_of_le_of_ne (not_lt.mp hlt) (Ne.symm heq)
        apply List.Pairwise.cons _ (ih hrest)
        intro other hother
        rcases mem_insertWord.mp hother with rfl | hother
        · exact hgt
        · exact hfirst other hother

@[simp] theorem mem_sortWords {word : String} {words : List String} :
    word ∈ sortWords words ↔ word ∈ words := by
  induction words with
  | nil => rfl
  | cons w words ih => simp [sortWords, ih]

theorem sortWords_increasing (words : List String) :
    (sortWords words).Pairwise (· < ·) := by
  induction words with
  | nil => exact .nil
  | cons w words ih => exact insertWord_increasing w ih

theorem bytes_sortWords_increasing (words : List String) :
    (sortWords words).Pairwise (fun a b => bytes a < bytes b) :=
  (sortWords_increasing words).imp bytes_lt_of_lt

end Highlighter.Text
