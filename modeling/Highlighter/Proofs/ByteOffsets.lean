import Highlighter.Text.Bytes
import Highlighter.Text.Cursor
import Highlighter.Text.Span

/-!
# Cutting texts at byte offsets

An offset at which a text can be cut is the byte length of what lies before
the cut.  So a cut is described by the two texts it leaves, and offsets need
not be counted in later arguments.
-/

namespace Highlighter

@[simp] theorem TextSize.val_of {n : Nat} (hn : n ≤ TextSize.greatest) :
    (TextSize.of n).val = n :=
  Nat.min_eq_left hn

@[simp] theorem TextRange.start_ofSpan (span : Span) :
    (TextRange.ofSpan span).start = .of span.start := rfl

@[simp] theorem TextRange.stop_ofSpan (span : Span) :
    (TextRange.ofSpan span).stop = .of span.stop := rfl

namespace Text

@[simp] theorem byteLength_nil : byteLength [] = 0 := rfl

@[simp] theorem byteLength_cons (c : Char) (cs : List Char) :
    byteLength (c :: cs) = c.utf8Size + byteLength cs := rfl

@[simp] theorem byteLength_append (xs ys : List Char) :
    byteLength (xs ++ ys) = byteLength xs + byteLength ys := by
  induction xs with
  | nil => simp
  | cons x xs ih =>
      simp only [List.cons_append, byteLength_cons, ih]
      omega

theorem byteLength_replicate (n : Nat) (c : Char) :
    byteLength (List.replicate n c) = n * c.utf8Size := by
  induction n with
  | zero => simp
  | succ n ih => rw [List.replicate_succ, byteLength_cons, ih, Nat.succ_mul, Nat.add_comm]

theorem byteLength_pos {cs : List Char} (hcs : cs ≠ []) : 0 < byteLength cs := by
  cases cs with
  | nil => exact absurd rfl hcs
  | cons c cs =>
      have hc := c.utf8Size_pos
      simp only [byteLength_cons]
      omega

@[simp] theorem byteLength_eq_zero_iff {cs : List Char} :
    byteLength cs = 0 ↔ cs = [] := by
  constructor
  · intro hzero
    cases cs with
    | nil => rfl
    | cons c cs =>
        have hpos := byteLength_pos (List.cons_ne_nil c cs)
        omega
  · rintro rfl
    rfl

/-! ## Cuts -/

theorem splitAt?_append (xs ys : List Char) :
    splitAt? (byteLength xs) (xs ++ ys) = some (xs, ys) := by
  induction xs with
  | nil => simp [splitAt?]
  | cons x xs ih =>
      have hx := x.utf8Size_pos
      obtain ⟨n, hn⟩ :=
        Nat.exists_eq_add_one.mpr (byteLength_pos (List.cons_ne_nil x xs))
      have hrest : n + 1 - x.utf8Size = byteLength xs := by
        simp only [byteLength_cons] at hn
        omega
      have hfits : x.utf8Size ≤ n + 1 := by
        simp only [byteLength_cons] at hn
        omega
      rw [hn, List.cons_append]
      simp only [splitAt?, if_pos hfits, hrest, ih, Option.map_some]

theorem splitAt?_eq_some_iff {n : Nat} {cs before after : List Char} :
    splitAt? n cs = some (before, after) ↔
      cs = before ++ after ∧ n = byteLength before := by
  constructor
  · intro hcut
    fun_induction splitAt? n cs generalizing before with
    | case1 cs =>
        simp only [Option.some.injEq, Prod.mk.injEq] at hcut
        obtain ⟨rfl, rfl⟩ := hcut
        exact ⟨rfl, rfl⟩
    | case2 n => simp at hcut
    | case3 n c cs hfits ih =>
        simp only [Option.map_eq_some_iff, Prod.mk.injEq] at hcut
        obtain ⟨⟨front, back⟩, hrest, rfl, rfl⟩ := hcut
        obtain ⟨rfl, hlength⟩ := ih hrest
        refine ⟨rfl, ?_⟩
        simp only [byteLength_cons]
        omega
    | case4 n c cs hfits => simp at hcut
  · rintro ⟨rfl, rfl⟩
    exact splitAt?_append before after

theorem isBoundary_iff {n : Nat} {cs : List Char} :
    isBoundary n cs = true ↔
      ∃ before after, cs = before ++ after ∧ n = byteLength before := by
  simp only [isBoundary, Option.isSome_iff_exists, Prod.exists, splitAt?_eq_some_iff]

/-- Of two cuts of one text the later one only cuts what the earlier one
leaves behind it. -/
theorem exists_between_cuts {xs xs' ys ys' : List Char}
    (heq : xs ++ xs' = ys ++ ys')
    (hle : byteLength xs ≤ byteLength ys) :
    ∃ middle, ys = xs ++ middle ∧ xs' = middle ++ ys' := by
  rcases List.append_eq_append_iff.mp heq with
    ⟨middle, hys, hxs'⟩ | ⟨middle, hxs, hys'⟩
  · exact ⟨middle, hys, hxs'⟩
  · have hmiddle : middle = [] := by
      rw [hxs, byteLength_append] at hle
      exact byteLength_eq_zero_iff.mp (by omega)
    subst hmiddle
    exact ⟨[], by simpa using hxs.symm, by simpa using hys'.symm⟩

theorem slice?_eq_some_iff {start stop : Nat} {cs middle : List Char} :
    slice? start stop cs = some middle ↔
      ∃ before after, cs = before ++ middle ++ after ∧
        start = byteLength before ∧ stop = byteLength (before ++ middle) := by
  unfold slice?
  constructor
  · intro hslice
    split at hslice
    next hle =>
      simp only [Option.bind_eq_some_iff, Option.map_eq_some_iff, Prod.exists,
        splitAt?_eq_some_iff] at hslice
      obtain ⟨before, rest, ⟨rfl, rfl⟩, _, after, ⟨rfl, hstop⟩, rfl⟩ := hslice
      refine ⟨before, after, by simp, rfl, ?_⟩
      simp only [byteLength_append]
      omega
    next => simp at hslice
  · rintro ⟨before, after, rfl, rfl, rfl⟩
    rw [if_pos (by simp), List.append_assoc, splitAt?_append]
    simp only [Option.bind_some, byteLength_append, Nat.add_sub_cancel_left, splitAt?_append,
      Option.map_some]

theorem takeBytes_append (xs ys : List Char) :
    takeBytes (byteLength xs) (xs ++ ys) = xs := by
  induction xs with
  | nil =>
      cases ys with
      | nil => rfl
      | cons y ys => simp [takeBytes, Nat.ne_of_gt y.utf8Size_pos]
  | cons x xs ih =>
      simp [takeBytes, ih]

theorem dropBytes_append (xs ys : List Char) :
    dropBytes (byteLength xs) (xs ++ ys) = ys := by
  induction xs with
  | nil =>
      cases ys with
      | nil => rfl
      | cons y ys => simp [dropBytes, Nat.ne_of_gt y.utf8Size_pos]
  | cons x xs ih =>
      simp [dropBytes, ih]

end Text

namespace Cursor

theorem seek?_eq_some_iff {pos offset : Nat} {prev : Option Char} {cs : List Char}
    {cursor : Cursor} :
    seek? pos offset prev cs = some cursor ↔
      ∃ before c after, cs = before ++ c :: after ∧
        pos = offset + Text.byteLength before ∧
        cursor = ⟨pos, before.getLast?.or prev, c :: after⟩ := by
  induction cs generalizing offset prev with
  | nil => simp [seek?]
  | cons d cs ih =>
      by_cases hhere : offset = pos
      · subst hhere
        rw [seek?, if_pos rfl]
        constructor
        · intro hcursor
          exact ⟨[], d, cs, rfl, by simp, (Option.some.inj hcursor).symm⟩
        · rintro ⟨before, c, after, hcut, hpos, rfl⟩
          have hbefore : before = [] := Text.byteLength_eq_zero_iff.mp (by omega)
          subst hbefore
          rw [List.nil_append] at hcut
          simp [hcut]
      · rw [seek?, if_neg hhere]
        by_cases hlt : offset < pos
        · rw [if_pos hlt, ih]
          constructor
          · rintro ⟨before, c, after, rfl, rfl, rfl⟩
            refine ⟨d :: before, c, after, rfl, by simp [Nat.add_assoc], ?_⟩
            cases before <;> simp [List.getLast?_cons]
          · rintro ⟨before, c, after, hcut, hpos, rfl⟩
            cases before with
            | nil => simp at hpos; omega
            | cons e before =>
                obtain ⟨rfl, rfl⟩ := List.cons.inj hcut
                refine ⟨before, c, after, rfl, by simpa [Nat.add_assoc] using hpos, ?_⟩
                cases before <;> simp [List.getLast?_cons]
        · rw [if_neg hlt]
          constructor
          · simp
          · rintro ⟨before, c, after, _, hpos, _⟩
            omega

/-- The cursor stands before a character of the line, at byte `pos`. -/
def StandsAt (cursor : Cursor) (line : List Char) (pos : Nat) : Prop :=
  ∃ before c after,
    line = before ++ c :: after ∧
    pos = Text.byteLength before ∧
    cursor = ⟨pos, before.getLast?, c :: after⟩

theorem at?_eq_some_iff {line : List Char} {pos : Nat} {cursor : Cursor} :
    at? line pos = some cursor ↔ cursor.StandsAt line pos := by
  simp [at?, StandsAt, seek?_eq_some_iff]

end Cursor

end Highlighter
