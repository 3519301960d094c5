import ChudOS.TerminalRectangles
import Mathlib.Order.Monotone.Basic

/-!
# The layout of a text

`refreshTerminals` passes the cells of the rows one after the other. Where a byte of the text comes to
stand follows from the bytes before it, as long as the text is not moved while it is drawn.

## Main definitions

* `cells`: the cells that the first bytes of the text take.
* `column`: the column of a byte in its row, which backspaces move to the left of the cells.
* `len`: the length that `refreshTerminals` adds up.
* `Short`: the text is not moved.
* `InRectangle`: the text ends in time, and no backspace leads out of the rectangle.
-/

namespace ChudOS.Terminal

variable (t : Terminal) (i : Nat)

/-- A byte that leaves its first cell as it is. -/
def isControl : Prop := t.bytes i = char '\n' ∨ t.bytes i = char '\t'

instance : Decidable (t.isControl i) := inferInstanceAs (Decidable (_ ∨ _))

def silent : Nat := if t.isControl i then 1 else 0

/-- What the newlines and tabs leave behind for the tabs after them. -/
def mark : Nat := if ∃ j < i, t.isControl j then 1 else 0

/-- A newline takes the rest of its row, a tab four cells or, after another one or a newline, five, and
a backspace none. -/
def cells : Nat → Nat
  | 0 => 0
  | i + 1 =>
    if t.bytes i = char '\n' then (cells i / t.w.toNat + 1) * t.w.toNat
    else if t.bytes i = char '\x08' then cells i
    else if t.bytes i = char '\t' then cells i + (t.mark i + 4)
    else cells i + 1

/-- The cells drawn in the row before the byte, less the backspaces. -/
def column : Nat → Int
  | 0 => 0
  | i + 1 =>
    if t.bytes i = char '\x08' then column i - 1
    else if t.cells (i + 1) / t.w.toNat = t.cells i / t.w.toNat then
      column i + (t.cells (i + 1) - t.cells i - t.silent i : Nat)
    else (t.cells (i + 1) % t.w.toNat : Nat)

/-- The cells that the byte draws in the row in which it stands. -/
def drawn : Nat :=
  min (t.cells (i + 1) - t.cells i) (t.w.toNat - t.cells i % t.w.toNat) - t.silent i

/-- A newline counts for the rest of its row twice, but for the cell it leaves out, and a tab for four
more than it draws. -/
def len : Nat → Int
  | 0 => 0
  | i + 1 =>
    if t.bytes i = char '\n' then len i + (2 * (t.w - (t.cells i % t.w.toNat : Nat)) - 1)
    else if t.bytes i = char '\x08' then len i - 1
    else if t.bytes i = char '\t' then len i + (t.mark i + 7)
    else if t.bytes i = 0 then len i
    else len i + 1

/-- While it is drawn, the text is never found too long. -/
def Short : Prop :=
  ∀ i < 2000, (∀ j ≤ i, t.bytes j ≠ char '\r') → (t.cells i : Int) < t.w * t.h →
    t.len (i + 1) ≤ t.w * t.h

/-- The text comes to an end before its last row, and in no row is anything drawn after more backspaces
than characters. With a single column a newline or a tab may be in the last row. -/
structure InRectangle : Prop where
  high : 0 < t.h
  ends : ∃ e < 2000,
    (∀ i < e, t.bytes i ≠ char '\r' ∧ ∀ k < t.drawn i, (t.column i + k) % 256 < t.w) ∧
      (t.bytes e = char '\r' ∧ (t.cells e : Int) ≤ t.w * (t.h - 1) ∨
        t.w = 1 ∧ t.isControl e ∧ (t.cells e : Int) = t.h - 1)

variable {t i} {s s' : Draw} {c : U8} {n k e : Nat}

/-! ## Cells -/

theorem not_control (other : ¬ t.isControl i) : t.bytes i ≠ char '\n' ∧ t.bytes i ≠ char '\t' :=
  not_or.mp other

theorem mark_succ : t.mark (i + 1) = if t.isControl i then 1 else t.mark i := by
  simp only [mark, Nat.lt_succ_iff_lt_or_eq]
  split_ifs <;> grind

theorem mark_le : t.mark i ≤ 1 := by
  rw [mark]
  split_ifs <;> omega

theorem cells_newline (newline : t.bytes i = char '\n') :
    t.cells (i + 1) + t.cells i % t.w.toNat = t.cells i + t.w.toNat := by
  have place := Nat.div_add_mod (t.cells i) t.w.toNat
  rw [cells, if_pos newline, Nat.add_mul, Nat.one_mul, Nat.mul_comm]
  omega

theorem cells_lt (pos : 0 < t.w) (other : t.bytes i ≠ char '\x08') :
    t.cells i < t.cells (i + 1) := by
  by_cases newline : t.bytes i = char '\n'
  · have row := cells_newline newline
    have := Nat.mod_lt (t.cells i) (show 0 < t.w.toNat by omega)
    omega
  · rw [cells, if_neg newline, if_neg other]
    split_ifs <;> omega

theorem cells_mono (pos : 0 < t.w) : Monotone t.cells := by
  refine monotone_nat_of_le_succ fun i => ?_
  by_cases back : t.bytes i = char '\x08'
  · rw [cells, if_neg (by rw [back]; decide), if_pos back]
  · exact (cells_lt pos back).le

variable (t i) in
/-- The column in which the cell `k` of the byte is drawn. -/
def columnAt (k : Nat) : Int :=
  if k / t.w.toNat = t.cells i / t.w.toNat then t.column i + (k - t.cells i - t.silent i : Nat)
  else (k % t.w.toNat : Nat)

theorem column_succ (other : t.bytes i ≠ char '\x08') :
    t.column (i + 1) = t.columnAt i (t.cells (i + 1)) := by
  rw [column, if_neg other]
  rfl

/-- The cell is not the last one of its row. -/
theorem row_succ {w : Nat} (more : k % w + 1 < w) :
    (k + 1) / w = k / w ∧ (k + 1) % w = k % w + 1 := by
  have place := Nat.div_add_mod k w
  have next : k + 1 = w * (k / w) + (k % w + 1) := by omega
  rw [next, Nat.mul_add_div (by omega), Nat.mul_add_mod, Nat.div_eq_of_lt more,
    Nat.mod_eq_of_lt more]
  exact ⟨rfl, rfl⟩

theorem row_end {w : Nat} (last : k % w + 1 = w) :
    (k + 1) / w = k / w + 1 ∧ (k + 1) % w = 0 := by
  have place := Nat.div_add_mod k w
  have next : k + 1 = w * (k / w + 1) := by rw [Nat.mul_succ]; omega
  rw [next, Nat.mul_div_cancel_left _ (by omega), Nat.mul_mod_right]
  exact ⟨rfl, rfl⟩

theorem columnAt_succ (le : t.cells i + t.silent i ≤ k) (more : k % t.w.toNat + 1 < t.w.toNat) :
    t.columnAt i (k + 1) = t.columnAt i k + 1 := by
  obtain ⟨row, next⟩ := row_succ more
  rw [columnAt, columnAt, row, next]
  split_ifs <;> omega

theorem columnAt_start (lt : t.cells i < k) (start : k % t.w.toNat = 0) : t.columnAt i k = 0 := by
  have place := Nat.div_add_mod k t.w.toNat
  have row : t.cells i / t.w.toNat < k / t.w.toNat := Nat.div_lt_of_lt_mul (by omega)
  rw [columnAt, if_neg row.ne', start]
  rfl

theorem columnAt_letter (letter : ¬ t.isControl i) : t.columnAt i (t.cells i) = t.column i := by
  rw [columnAt, if_pos rfl, silent, if_neg letter]
  omega

theorem columnAt_control (control : t.isControl i) (more : t.cells i % t.w.toNat + 1 < t.w.toNat) :
    t.columnAt i (t.cells i + 1) = t.column i := by
  rw [columnAt, if_pos (row_succ more).1, silent, if_pos control]
  omega

/-! ## Where the loops are in the text -/

/-- So many cells have been passed, and the text has not been moved. -/
structure Passed (t : Terminal) (n : Nat) (s : Draw) : Prop where
  bytes : s.bytes = t.bytes
  left : 0 ≤ s.x
  right : s.x ≤ t.w
  top : 0 ≤ s.y
  count : (n : Int) = t.w * s.y + s.x

/-- The first `i` bytes have been treated. -/
structure Between (t : Terminal) (i : Nat) (s : Draw) : Prop extends Passed t (t.cells i) s where
  before : ∀ j < i, t.bytes j ≠ char '\r'
  early : i ≤ 2000
  index : s.curI = i
  skip : s.skip = t.mark i
  tlen : s.tlen = t.len i
  short : t.len i ≤ t.w * t.h
  inRow : s.x < t.w → s.curX = t.x.toNat + t.column i
  atEnd : s.x = t.w → t.column i = 0

/-- The byte `i` is a newline or a tab, and some of its cells are left. -/
structure Within (t : Terminal) (i n : Nat) (s : Draw) : Prop extends Passed t n s where
  before : ∀ j < i, t.bytes j ≠ char '\r'
  early : i < 2000
  control : t.isControl i
  first : t.cells i < n
  last : n < t.cells (i + 1)
  index : s.curI = i + 1
  skip : s.skip = (t.cells (i + 1) - n : Nat) + 1
  tlen : s.tlen = t.len (i + 1) - (t.cells (i + 1) - n : Nat)
  short : t.len (i + 1) ≤ t.w * t.h
  inRow : s.x < t.w → s.curX = t.x.toNat + t.columnAt i n

/-- The text has come to its end, the carriage return `e`. -/
structure Returned (t : Terminal) (e n : Nat) (s : Draw) : Prop extends Passed t n s where
  before : ∀ j < e, t.bytes j ≠ char '\r'
  byte : t.bytes e = char '\r'
  early : e < 2000
  read : (t.cells e : Int) < t.w * t.h
  first : t.cells e ≤ n
  index : s.curI = e
  skip : s.skip ≤ 1
  short : s.tlen ≤ t.w * t.h

inductive Stage (t : Terminal) (s : Draw) : Prop
  | between (i : Nat) : Between t i s → Stage t s
  | within (i n : Nat) : Within t i n s → Stage t s
  | returned (e n : Nat) : Returned t e n s → Stage t s

theorem Stage.left (stage : Stage t s) : 0 ≤ s.x := by
  cases stage with
  | between i h => exact h.left
  | within i n h => exact h.left
  | returned e n h => exact h.left

theorem Passed.place (h : Passed t n s) (column : s.x < t.w) :
    n / t.w.toNat = s.y.toNat ∧ n % t.w.toNat = s.x.toNat := by
  obtain ⟨w, hw⟩ := Int.eq_ofNat_of_zero_le (h.left.trans column.le)
  obtain ⟨x, hx⟩ := Int.eq_ofNat_of_zero_le h.left
  obtain ⟨y, hy⟩ := Int.eq_ofNat_of_zero_le h.top
  have count := h.count
  rw [hw, hx, hy] at count
  have lt : x < w := by omega
  obtain rfl : n = w * y + x := by exact_mod_cast count
  rw [hw, hx, hy, Int.toNat_natCast, Int.toNat_natCast, Int.toNat_natCast,
    Nat.mul_add_div (by omega), Nat.mul_add_mod, Nat.div_eq_of_lt lt, Nat.mod_eq_of_lt lt]
  exact ⟨rfl, rfl⟩

/-- The rows that are left have cells left. -/
theorem Passed.lt_area (h : Passed t n s) (row : s.y < t.h) (column : s.x < t.w) :
    (n : Int) < t.w * t.h := by
  have le : t.w * (s.y + 1) ≤ t.w * t.h :=
    Int.mul_le_mul_of_nonneg_left (by omega) (h.left.trans column.le)
  rw [h.count]
  rw [Int.mul_add, Int.mul_one] at le
  omega

theorem Passed.endRow (h : Passed t n s) (pos : 0 < t.w) (last : ¬ s.x < t.w) :
    Passed t n (t.endRow s) := by
  obtain ⟨bytes, left, right, top, count⟩ := h
  refine ⟨bytes, Int.le_refl 0, pos.le, ?_, ?_⟩
  · change 0 ≤ s.y + 1
    omega
  · change (n : Int) = t.w * (s.y + 1) + 0
    rw [count, Int.mul_add, Int.mul_one]
    omega

theorem Stage.endRow (stage : Stage t s) (pos : 0 < t.w) (last : ¬ s.x < t.w) :
    Stage t (t.endRow s) := by
  cases stage with
  | between i h =>
    refine .between i ⟨h.toPassed.endRow pos last, h.before, h.early, h.index, h.skip,
      h.tlen, h.short, fun _ => ?_, fun none => absurd none pos.ne⟩
    rw [h.atEnd (by have := h.right; omega)]
    exact (Int.add_zero _).symm
  | within i n h =>
    refine .within i n ⟨h.toPassed.endRow pos last, h.before, h.early, h.control, h.first,
      h.last, h.index, h.skip, h.tlen, h.short, fun _ => ?_⟩
    have start := ((h.toPassed.endRow pos last).place pos).2
    rw [columnAt_start h.first (start.trans rfl)]
    exact (Int.add_zero _).symm
  | returned e n h =>
    exact .returned e n ⟨h.toPassed.endRow pos last, h.before, h.byte, h.early, h.read, h.first,
      h.index, h.skip, h.short⟩

/-! ## One cell -/

theorem put_read {inside : Bool} : t.put c { s with inside := inside } =
    { t.put c s with inside := inside } := by
  rw [put, put]
  split_ifs <;> rfl

/-- After the next byte the text is found too long. -/
def TooLong (t : Terminal) (s : Draw) : Prop := t.w * t.h < (t.put (s.bytes s.curI) s).tlen

theorem cell_calm (calm : ¬ TooLong t s) :
    t.cell s = { t.put (s.bytes s.curI) s with
      x := (t.put (s.bytes s.curI) s).x + 1
      inside := s.inside && decide (s.curI < 2000) } := by
  rw [TooLong] at calm
  rw [@cell_eq t s _ rfl, put_read, if_neg calm]

section Put

variable (near : ¬ (25 < s.curY ∨ 80 < s.curX))

include near

theorem put_blank (skips : 1 < s.skip) : t.put c s =
    { t.draw 0 s with skip := s.skip - 1, curX := s.curX + 1, tlen := s.tlen + 1 } := by
  rw [put, if_neg near, if_pos skips]

theorem put_newline (skip : ¬ 1 < s.skip) : t.put (char '\n') s = { s with
    skip := t.w - s.x
    curI := s.curI + 1
    tlen := s.tlen + (t.w - s.x)
    firstnewline := if s.firstnewline = 0 then s.curI + 1 else s.firstnewline } := by
  rw [put, if_neg near, if_neg skip, if_pos rfl]

theorem put_backspace (skip : ¬ 1 < s.skip) : t.put (char '\x08') s =
    { s with x := s.x - 1, curX := s.curX - 1, curI := s.curI + 1, tlen := s.tlen - 1 } := by
  rw [put, if_neg near, if_neg skip, if_neg (by decide), if_pos rfl]

theorem put_tab (skip : ¬ 1 < s.skip) : t.put (char '\t') s =
    { s with skip := s.skip + 4, curI := s.curI + 1, tlen := s.tlen + 4 } := by
  rw [put, if_neg near, if_neg skip, if_neg (by decide), if_neg (by decide), if_pos rfl]

theorem put_return (skip : ¬ 1 < s.skip) : t.put (char '\r') s = s := by
  rw [put, if_neg near, if_neg skip, if_neg (by decide), if_neg (by decide), if_neg (by decide),
    if_pos rfl]

theorem put_letter (skip : ¬ 1 < s.skip)
    (letter : c ∉ [char '\n', char '\x08', char '\t', char '\r']) : t.put c s =
      { t.draw c s with
        curX := s.curX + 1
        curI := s.curI + 1
        tlen := if c = 0 then s.tlen else s.tlen + 1 } := by
  simp only [List.mem_cons, List.not_mem_nil, or_false, not_or] at letter
  obtain ⟨newline, back, tab, carriage⟩ := letter
  rw [put, if_neg near, if_neg skip, if_neg newline, if_neg back, if_neg tab, if_neg carriage]
  split_ifs <;> rfl

end Put

theorem Passed.next (h : Passed t n s) (column : s.x < t.w) (bytes : s'.bytes = s.bytes)
    (x : s'.x = s.x + 1) (y : s'.y = s.y) : Passed t (n + 1) s' := by
  obtain ⟨text, left, right, top, count⟩ := h
  refine ⟨bytes.trans text, by omega, by omega, by omega, ?_⟩
  rw [x, y, Int.natCast_succ, count, Int.add_assoc]

theorem control_ne (control : t.isControl i) :
    t.bytes i ≠ char '\r' ∧ t.bytes i ≠ char '\x08' ∧ t.bytes i ≠ 0 := by
  rcases control with newline | tab
  · rw [newline]
    decide
  · rw [tab]
    decide

theorem silent_le : t.silent i ≤ 1 := by
  rw [silent]
  split_ifs <;> omega

theorem before_succ (before : ∀ j < i, t.bytes j ≠ char '\r') (other : t.bytes i ≠ char '\r') :
    ∀ j < i + 1, t.bytes j ≠ char '\r' := by
  intro j lt
  obtain earlier | rfl := Nat.lt_succ_iff_lt_or_eq.mp lt
  · exact before j earlier
  · exact other

/-- A cell that a newline or a tab blanks. -/
theorem Within.cell (h : Within t i n s) (near : ¬ (25 < s.curY ∨ 80 < s.curX))
    (column : s.x < t.w) : Stage t (t.cell s) ∧ ¬ TooLong t s := by
  have last := h.last
  have first := h.first
  have short := h.short
  have place := (h.toPassed.place column).2
  have left := h.left
  have put : t.put (s.bytes s.curI) s = _ := put_blank near (by rw [h.skip]; omega)
  have calm : ¬ TooLong t s := by
    rw [TooLong, put]
    change ¬ t.w * t.h < s.tlen + 1
    rw [h.tlen]
    omega
  refine ⟨?_, calm⟩
  rw [cell_calm calm, put]
  have before := before_succ h.before (control_ne h.control).1
  by_cases more : n + 1 < t.cells (i + 1)
  · refine .within i (n + 1) ⟨h.toPassed.next column rfl rfl rfl, h.before, h.early, h.control,
      by omega, more, h.index, ?_, ?_, h.short, fun lt => ?_⟩
    · change s.skip - 1 = _
      rw [h.skip]
      omega
    · change s.tlen + 1 = _
      rw [h.tlen]
      omega
    · change s.x + 1 < t.w at lt
      change s.curX + 1 = _
      have := @silent_le t i
      rw [h.inRow column, columnAt_succ (by omega) (by omega), Int.add_assoc]
  · have last : n + 1 = t.cells (i + 1) := by omega
    refine .between (i + 1) ⟨last ▸ h.toPassed.next column rfl rfl rfl, before, h.early, h.index,
      ?_, ?_, h.short, fun lt => ?_, fun full => ?_⟩
    · change s.skip - 1 = _
      rw [h.skip, mark_succ, if_pos h.control]
      omega
    · change s.tlen + 1 = _
      rw [h.tlen]
      omega
    · change s.x + 1 < t.w at lt
      change s.curX + 1 = _
      have := @silent_le t i
      rw [h.inRow column, column_succ (control_ne h.control).2.1, ← last,
        columnAt_succ (by omega) (by omega), Int.add_assoc]
    · change s.x + 1 = t.w at full
      rw [column_succ (control_ne h.control).2.1, ← last]
      exact columnAt_start (by omega) (row_end (by omega)).2

theorem Between.byte (h : Between t i s) : s.bytes s.curI = t.bytes i := by
  rw [h.bytes, h.index]

theorem Between.not_skip (h : Between t i s) : ¬ 1 < s.skip := by
  have := @mark_le t i
  rw [h.skip]
  omega

section Byte

variable (h : Between t i s) (near : ¬ (25 < s.curY ∨ 80 < s.curX)) (column : s.x < t.w)

include h near column

/-- What a newline or a tab does. -/
theorem Between.put_control (control : t.isControl i) : ∃ newline, t.put (s.bytes s.curI) s = { s with
    skip := (t.cells (i + 1) - t.cells i : Nat)
    curI := i + 1
    tlen := t.len (i + 1) - (t.cells (i + 1) - t.cells i - 1 : Nat)
    firstnewline := newline } := by
  have skip := h.not_skip
  have place := (h.toPassed.place column).2
  have left := h.left
  rcases control with newline | tab
  · have row := cells_newline newline
    have cells : t.w - s.x = (t.cells (i + 1) - t.cells i : Nat) := by omega
    have total : t.len i + (t.w - s.x) =
        t.len (i + 1) - (t.cells (i + 1) - t.cells i - 1 : Nat) := by
      rw [len, if_pos newline]
      omega
    refine ⟨if s.firstnewline = 0 then i + 1 else s.firstnewline, ?_⟩
    rw [h.byte, newline, put_newline near skip, h.index, h.tlen, total, cells]
  · have other : t.bytes i ≠ char '\n' := by rw [tab]; decide
    have back : t.bytes i ≠ char '\x08' := by rw [tab]; decide
    have next : t.cells (i + 1) = t.cells i + (t.mark i + 4) := by
      rw [Terminal.cells, if_neg other, if_neg back, if_pos tab]
    have cells : (t.mark i : Int) + 4 = (t.cells (i + 1) - t.cells i : Nat) := by omega
    have total : t.len i + 4 = t.len (i + 1) - (t.cells (i + 1) - t.cells i - 1 : Nat) := by
      rw [len, if_neg other, if_neg back, if_pos tab]
      omega
    refine ⟨s.firstnewline, ?_⟩
    rw [h.byte, tab, put_tab near skip, h.index, h.tlen, h.skip, total, cells]

theorem Between.cell_return (row : s.y < t.h) (early : i < 2000) (carriage : t.bytes i = char '\r') :
    Stage t (t.cell s) ∧ ¬ TooLong t s := by
  have put : t.put (s.bytes s.curI) s = s := by
    rw [h.byte, carriage, put_return near h.not_skip]
  have calm : ¬ TooLong t s := by
    rw [TooLong, put, h.tlen]
    exact Int.not_lt.mpr h.short
  refine ⟨?_, calm⟩
  rw [cell_calm calm, put]
  exact .returned i (t.cells i + 1) ⟨h.toPassed.next column rfl rfl rfl, h.before, carriage, early,
    h.toPassed.lt_area row column, Nat.le_succ _, h.index, Int.not_lt.mp h.not_skip,
    h.tlen.trans_le h.short⟩

variable (before : ∀ j < i + 1, t.bytes j ≠ char '\r') (early : i < 2000)
  (len : t.len (i + 1) ≤ t.w * t.h)

include before early len

theorem Between.cell_control (control : t.isControl i) : Stage t (t.cell s) ∧ ¬ TooLong t s := by
  have place := (h.toPassed.place column).2
  have left := h.left
  obtain ⟨newline, put⟩ := h.put_control near column control
  have lt := cells_lt (show 0 < t.w by omega) (control_ne control).2.1
  have calm : ¬ TooLong t s := by
    rw [TooLong, put]
    change ¬ _ < _ - _
    omega
  refine ⟨?_, calm⟩
  rw [cell_calm calm, put]
  by_cases more : t.cells i + 1 < t.cells (i + 1)
  · refine .within i (t.cells i + 1) ⟨h.toPassed.next column rfl rfl rfl, h.before, early,
      control, Nat.lt_succ_self _, more, rfl, ?_, ?_, len, fun lt => ?_⟩
    · change ((t.cells (i + 1) - t.cells i : Nat) : Int) = _
      omega
    · change _ - _ = _ - _
      omega
    · change s.x + 1 < t.w at lt
      change s.curX = _
      rw [h.inRow column, columnAt_control control (by omega)]
  · have last : t.cells i + 1 = t.cells (i + 1) := by omega
    refine .between (i + 1) ⟨last ▸ h.toPassed.next column rfl rfl rfl, before, early, rfl, ?_,
      ?_, len, fun lt => ?_, fun full => ?_⟩
    · change ((t.cells (i + 1) - t.cells i : Nat) : Int) = _
      rw [mark_succ, if_pos control]
      omega
    · change _ - _ = _
      omega
    · change s.x + 1 < t.w at lt
      change s.curX = _
      rw [h.inRow column, column_succ (control_ne control).2.1, ← last,
        columnAt_control control (by omega)]
    · change s.x + 1 = t.w at full
      rw [column_succ (control_ne control).2.1, ← last]
      exact columnAt_start (Nat.lt_succ_self _) (row_end (by omega)).2

/-- A backspace takes the column of the inner loop back, which the next round goes on from. -/
theorem Between.cell_backspace (back : t.bytes i = char '\x08') :
    Stage t (t.cell s) ∧ ¬ TooLong t s := by
  have left := h.left
  have other : t.bytes i ≠ char '\n' := by rw [back]; decide
  have control : ¬ t.isControl i := not_or.mpr ⟨other, by rw [back]; decide⟩
  have put := put_backspace (t := t) near h.not_skip
  rw [← back, ← h.byte] at put
  have calm : ¬ TooLong t s := by
    rw [TooLong, put]
    change ¬ t.w * t.h < s.tlen - 1
    have := h.short
    rw [h.tlen]
    omega
  refine ⟨?_, calm⟩
  rw [cell_calm calm, put]
  have cells : t.cells (i + 1) = t.cells i := by rw [Terminal.cells, if_neg other, if_pos back]
  refine .between (i + 1) ⟨?_, before, early, ?_, ?_, ?_, len, fun _ => ?_, fun full => ?_⟩
  · rw [cells]
    exact ⟨h.bytes, by change 0 ≤ s.x - 1 + 1; omega, by change s.x - 1 + 1 ≤ t.w; omega, h.top,
      by rw [h.count]; change _ = t.w * s.y + (s.x - 1 + 1); omega⟩
  · change s.curI + 1 = i + 1
    rw [h.index]
  · rw [mark_succ, if_neg control]
    exact h.skip
  · change s.tlen - 1 = _
    rw [h.tlen, Terminal.len, if_neg other, if_pos back]
  · change s.curX - 1 = _
    rw [h.inRow column, Terminal.column, if_pos back]
    omega
  · change s.x - 1 + 1 = t.w at full
    omega

theorem Between.cell_letter
    (letter : t.bytes i ∉ [char '\n', char '\x08', char '\t', char '\r']) :
    Stage t (t.cell s) ∧ ¬ TooLong t s := by
  have put := put_letter (t := t) near h.not_skip letter
  have place := (h.toPassed.place column).2
  have left := h.left
  simp only [List.mem_cons, List.not_mem_nil, or_false, not_or] at letter
  obtain ⟨other, back, tab, -⟩ := letter
  have control : ¬ t.isControl i := not_or.mpr ⟨other, tab⟩
  have cells : t.cells (i + 1) = t.cells i + 1 := by
    rw [Terminal.cells, if_neg other, if_neg back, if_neg tab]
  have total : (if t.bytes i = 0 then s.tlen else s.tlen + 1) = t.len (i + 1) := by
    rw [Terminal.len, if_neg other, if_neg back, if_neg tab, h.tlen]
  have first := columnAt_letter control
  have none : t.silent i = 0 := if_neg control
  have calm : ¬ TooLong t s := by
    rw [TooLong, h.byte, put]
    exact Int.not_lt.mpr (total.trans_le len)
  refine ⟨?_, calm⟩
  rw [cell_calm calm, h.byte, put]
  refine .between (i + 1) ⟨cells ▸ h.toPassed.next column rfl rfl rfl, before, early, ?_, ?_,
    total, len, fun lt => ?_, fun full => ?_⟩
  · change s.curI + 1 = i + 1
    rw [h.index]
  · rw [mark_succ, if_neg control]
    exact h.skip
  · change s.x + 1 < t.w at lt
    change s.curX + 1 = _
    rw [h.inRow column, column_succ back, cells, columnAt_succ (by omega) (by omega), first,
      Int.add_assoc]
  · change s.x + 1 = t.w at full
    rw [column_succ back, cells]
    exact columnAt_start (Nat.lt_succ_self _) (row_end (by omega)).2

end Byte

/-- The next byte. -/
theorem Between.cell (h : Between t i s) (near : ¬ (25 < s.curY ∨ 80 < s.curX))
    (row : s.y < t.h) (column : s.x < t.w) (early : i < 2000) (short : Short t) :
    Stage t (t.cell s) ∧ ¬ TooLong t s := by
  by_cases carriage : t.bytes i = char '\r'
  · exact h.cell_return near column row early carriage
  have before := before_succ h.before carriage
  have len := short i early (fun j le => before j (Nat.lt_succ_of_le le))
    (h.toPassed.lt_area row column)
  by_cases control : t.isControl i
  · exact h.cell_control near column before early len control
  by_cases back : t.bytes i = char '\x08'
  · exact h.cell_backspace near column before early len back
  · refine h.cell_letter near column before early len ?_
    simp only [List.mem_cons, List.not_mem_nil, or_false, not_or]
    exact ⟨(not_control control).1, back, (not_control control).2, carriage⟩

theorem Returned.cell (h : Returned t e n s) (near : ¬ (25 < s.curY ∨ 80 < s.curX))
    (column : s.x < t.w) : Stage t (t.cell s) ∧ ¬ TooLong t s := by
  have put : t.put (s.bytes s.curI) s = s := by
    rw [h.bytes, h.index, h.byte, put_return near (Int.not_lt.mpr h.skip)]
  have calm : ¬ TooLong t s := by
    rw [TooLong, put]
    exact Int.not_lt.mpr h.short
  refine ⟨?_, calm⟩
  rw [cell_calm calm, put]
  exact .returned e (n + 1) ⟨h.toPassed.next column rfl rfl rfl, h.before, h.byte, h.early, h.read,
    h.first.trans (Nat.le_succ n), h.index, h.skip, h.short⟩

section Round

variable (stage : Stage t s) (on : t.OnScreen) (counts : Counts t s) (short : Short t)
  (row : s.y < t.h) (straight : ¬ Astray t s)

include stage on counts short row straight

theorem Stage.cell (column : s.x < t.w) : Stage t (t.cell s) ∧ ¬ TooLong t s := by
  have near := near_screen on counts row column
  have read : ¬ 2000 ≤ s.curI := fun behind => straight ⟨column, .inl behind⟩
  cases stage with
  | between i h => exact h.cell near row column (by rw [← h.index]; omega) short
  | within i n h => exact h.cell near column
  | returned e n h => exact h.cell near column

/-- A round that does not go astray. -/
theorem Stage.round (pos : 0 < t.w) : Stage t (t.round s) := by
  rw [Terminal.round]
  split_ifs with column
  · exact (stage.cell on counts short row straight column).1
  · exact stage.endRow pos column

end Round

theorem start_stage (area : 0 ≤ t.w * t.h) (pos : 0 < t.w) : Stage t t.start := by
  refine .between 0 ⟨⟨rfl, Int.le_refl 0, pos.le, Int.le_refl 0, ?_⟩,
    fun j lt => absurd lt (Nat.not_lt_zero j), Nat.zero_le _, rfl, rfl, rfl, area,
    fun _ => (Int.add_zero _).symm, fun _ => rfl⟩
  change (0 : Int) = t.w * 0 + 0
  omega

/-! ## A text that ends in time -/

section Last

variable (last : t.bytes e = char '\r' ∧ (t.cells e : Int) ≤ t.w * (t.h - 1) ∨
    t.w = 1 ∧ t.isControl e ∧ (t.cells e : Int) = t.h - 1)

include last

/-- No byte behind the end is read. -/
theorem le_end (pos : 0 < t.w) (before : ∀ j < i, t.bytes j ≠ char '\r')
    (area : (t.cells i : Int) < t.w * t.h) : i ≤ e := by
  by_contra behind
  obtain ⟨carriage, -⟩ | ⟨one, control, place⟩ := last
  · exact before e (by omega) carriage
  · have next := cells_lt pos (control_ne control).2.1
    have := cells_mono pos (show e + 1 ≤ i by omega)
    rw [one, Int.one_mul] at area
    omega

/-- What is drawn before the end is not in the last row. -/
theorem Passed.above (passed : Passed t n s) (before : n < t.cells e) : s.y + 1 ≠ t.h := by
  intro bottom
  have bound : (t.cells e : Int) ≤ t.w * (t.h - 1) := by
    obtain ⟨-, place⟩ | ⟨one, -, place⟩ := last
    · exact place
    · rw [one, Int.one_mul]
      omega
  have left := passed.left
  have count := passed.count
  rw [show s.y = t.h - 1 by omega] at count
  omega

variable (pos : 0 < t.w) (early : e < 2000)
  (texts : ∀ i < e, t.bytes i ≠ char '\r' ∧ ∀ k < t.drawn i, (t.column i + k) % 256 < t.w)

include pos early texts

theorem Between.not_astray (on : t.OnScreen) (row : s.y < t.h) (h : Between t i s) :
    ¬ Astray t s := by
  rintro ⟨column, wrong⟩
  have wide := on.columns
  have le := le_end last pos h.before (h.toPassed.lt_area row column)
  obtain behind | ⟨draws, wrong⟩ := wrong
  · rw [h.index] at behind
    omega
  have letter := draws.resolve_left h.not_skip
  rw [h.byte] at letter
  have lt : i < e := by
    refine lt_of_le_of_ne le ?_
    rintro rfl
    obtain ⟨carriage, -⟩ | ⟨-, newline | tab, -⟩ := last
    · exact letter (by rw [carriage]; decide)
    · exact letter (by rw [newline]; decide)
    · exact letter (by rw [tab]; decide)
  simp only [List.mem_cons, List.not_mem_nil, or_false, not_or] at letter
  have other : ¬ t.isControl i := not_or.mpr ⟨letter.1, letter.2.2.1⟩
  have next := cells_lt pos letter.2.1
  have := cells_mono pos (show i + 1 ≤ e by omega)
  obtain bottom | outside := wrong
  · exact h.toPassed.above last (by omega) bottom
  · have some_cell : 0 < t.drawn i := by
      have := Nat.mod_lt (t.cells i) (show 0 < t.w.toNat by omega)
      rw [drawn, silent, if_neg other]
      omega
    have inRow := (texts i lt).2 0 some_cell
    rw [h.inRow column] at outside
    omega

theorem Within.not_astray (on : t.OnScreen) (row : s.y < t.h) (h : Within t i n s) :
    ¬ Astray t s := by
  rintro ⟨column, wrong⟩
  have wide := on.columns
  have area := h.toPassed.lt_area row column
  have first := h.first
  have lt : i < e := by
    refine lt_of_le_of_ne (le_end last pos h.before (by omega)) ?_
    rintro rfl
    obtain ⟨carriage, -⟩ | ⟨one, -, place⟩ := last
    · exact (control_ne h.control).1 carriage
    · rw [one, Int.one_mul] at area
      omega
  have := cells_mono pos (show i + 1 ≤ e by omega)
  have next := h.last
  obtain behind | ⟨-, bottom | outside⟩ := wrong
  · rw [h.index] at behind
    omega
  · exact h.toPassed.above last (by omega) bottom
  · have inRow := (texts i lt).2 (n - t.cells i - 1)
    rw [h.inRow column, columnAt, drawn, silent, if_pos h.control] at *
    have := Nat.mod_lt n (show 0 < t.w.toNat by omega)
    split_ifs at outside with same
    · have here := Nat.div_add_mod n t.w.toNat
      have start := Nat.div_add_mod (t.cells i) t.w.toNat
      rw [same] at here
      have := inRow (by omega)
      omega
    · omega

theorem Returned.not_astray (h : Returned t i n s) : ¬ Astray t s := by
  rintro ⟨column, wrong⟩
  have le := le_end last pos h.before h.read
  obtain rfl : i = e := by
    by_contra ne
    exact (texts i (by omega)).1 h.byte
  obtain behind | ⟨draws, -⟩ := wrong
  · rw [h.index] at behind
    omega
  · refine draws.resolve_left (Int.not_lt.mpr h.skip) ?_
    rw [h.bytes, h.index, h.byte]
    decide

end Last

theorem InRectangle.not_astray (inside : InRectangle t) (on : t.OnScreen) (pos : 0 < t.w)
    (stage : Stage t s) (row : s.y < t.h) : ¬ Astray t s := by
  obtain ⟨e, early, texts, last⟩ := inside.ends
  cases stage with
  | between i h => exact h.not_astray last pos early texts on row
  | within i n h => exact h.not_astray last pos early texts on row
  | returned i n h => exact h.not_astray last pos early texts

theorem InRectangle.reaches (inside : InRectangle t) (on : t.OnScreen) (pos : 0 < t.w)
    (short : Short t) (reached : Loop.Reaches t.done t.round t.start s) :
    Counts t s ∧ Stage t s :=
  @Loop.Reaches.invariant _ t.done t.round (fun s => Counts t s ∧ Stage t s) _ _
    (fun _ h more => ⟨round_counts h.1, h.2.round on h.1 short (Int.lt_of_not_ge more)
      (inside.not_astray on pos h.2 (Int.lt_of_not_ge more)) pos⟩)
    reached ⟨start_counts, start_stage (Int.mul_nonneg pos.le inside.high.le) pos⟩

/-- Such a text is never found too long. -/
theorem InRectangle.calm (inside : InRectangle t) (on : t.OnScreen) (short : Short t)
    (reached : Loop.Reaches t.done t.round t.start s) (more : ¬ t.done s) (column : s.x < t.w) :
    ¬ TooLong t s := by
  have row := Int.lt_of_not_ge more
  have counts : Counts t s := reached.invariant (fun s counts _ => round_counts counts) start_counts
  have left := counts.left
  have pos : 0 < t.w := by omega
  obtain ⟨-, stage⟩ := inside.reaches on pos short reached
  exact (stage.cell on counts short row (inside.not_astray on pos stage row) column).2

section Letters

variable (pos : 0 < t.w)
  (letters : ∀ j < e, t.bytes j ∉ [char '\n', char '\x08', char '\t', char '\r'])

include pos letters

/-- A letter comes to stand behind the letters before it. -/
theorem layout_letters (le : i ≤ e) :
    t.cells i = i ∧ t.column i = (i % t.w.toNat : Nat) ∧ t.len i ≤ i := by
  induction i with
  | zero => exact ⟨rfl, by rw [Nat.zero_mod]; rfl, Int.le_refl 0⟩
  | succ i ih =>
    obtain ⟨cells, column, len⟩ := ih (by omega)
    have letter := letters i (by omega)
    simp only [List.mem_cons, List.not_mem_nil, or_false, not_or] at letter
    obtain ⟨newline, back, tab, -⟩ := letter
    have next : t.cells (i + 1) = i + 1 := by
      rw [Terminal.cells, if_neg newline, if_neg back, if_neg tab, cells]
    have none : t.silent i = 0 := if_neg (not_or.mpr ⟨newline, tab⟩)
    refine ⟨next, ?_, ?_⟩
    · rw [Terminal.column, if_neg back, next, cells, column, none]
      have := Nat.mod_lt i (show 0 < t.w.toNat by omega)
      by_cases more : i % t.w.toNat + 1 < t.w.toNat
      · obtain ⟨row, place⟩ := row_succ more
        rw [if_pos row, place]
        omega
      · obtain ⟨row, -⟩ := row_end (show i % t.w.toNat + 1 = t.w.toNat by omega)
        rw [if_neg (by omega)]
    · rw [Terminal.len, if_neg newline, if_neg back, if_neg tab]
      split_ifs <;> omega

/-- A line of letters that is not longer than the rows but the last. -/
theorem letters_fit (wide : t.w ≤ 80) (high : 0 < t.h) (early : e < 2000)
    (ends : t.bytes e = char '\r') (room : (e : Int) ≤ t.w * (t.h - 1)) :
    Short t ∧ InRectangle t := by
  have layout {i : Nat} (le : i ≤ e) := layout_letters (i := i) pos letters le
  refine ⟨fun i _ text area => ?_, high, e, early, fun i lt => ⟨fun last => ?_, fun k inside => ?_⟩,
    .inl ⟨ends, by rw [(layout le_rfl).1]; exact room⟩⟩
  · have lt : i < e := by
      by_contra le
      exact text e (by omega) ends
    rw [(layout lt.le).1] at area
    have := (layout (show i + 1 ≤ e from lt)).2.2
    omega
  · exact letters i lt (by rw [last]; decide)
  · rw [drawn, (layout (show i + 1 ≤ e from lt)).1, (layout lt.le).1] at inside
    have := Nat.mod_lt i (show 0 < t.w.toNat by omega)
    rw [(layout lt.le).2.1]
    omega

end Letters

/-! ## Rounds that go right -/

/-- What the text draws in the cells before `n` lies in the rectangle. -/
def Seen (t : Terminal) (n : Int) : Prop :=
  ∀ j, (∀ i ≤ j, t.bytes i ≠ char '\r') → ∀ k : Nat, (k : Int) < n →
    t.cells j + t.silent j ≤ k → k < t.cells (j + 1) →
      (k : Int) < t.w * (t.h - 1) ∧ t.columnAt j k % 256 < t.w

/-- The byte that draws the next cell. -/
theorem Stage.draws (stage : Stage t s) (pos : 0 < t.w) (column : s.x < t.w)
    (back : ¬ 1 < s.skip → s.bytes s.curI ≠ char '\x08') {j k : Nat}
    (text : ∀ i ≤ j, t.bytes i ≠ char '\r') (place : (k : Int) = t.w * s.y + s.x)
    (first : t.cells j + t.silent j ≤ k) (last : k < t.cells (j + 1)) :
    Draws s ∧ s.curX = t.x.toNat + t.columnAt j k := by
  have mono := cells_mono pos
  cases stage with
  | between i h =>
    obtain rfl : k = t.cells i := by have := h.count; omega
    have byte : s.bytes s.curI = t.bytes i := by rw [h.bytes, h.index]
    have skip : ¬ 1 < s.skip := by rw [h.skip]; have := @mark_le t i; omega
    have back := back skip
    rw [byte] at back
    have le : ¬ j < i := fun lt => by
      have := mono (show j + 1 ≤ i by omega)
      omega
    obtain rfl : j = i := by
      by_contra ne
      have := cells_lt pos back
      have := mono (show i + 1 ≤ j by omega)
      omega
    have letter : ¬ t.isControl j := fun control => by
      rw [silent, if_pos control] at first
      omega
    refine ⟨.inr ?_, ?_⟩
    · rw [byte]
      simp only [List.mem_cons, List.not_mem_nil, or_false, not_or]
      exact ⟨(not_control letter).1, back, (not_control letter).2, text j le_rfl⟩
    · rw [h.inRow column, columnAt_letter letter]
  | within i n h =>
    obtain rfl : k = n := by have := h.count; omega
    have := h.first
    have := h.last
    obtain rfl : j = i := by
      by_contra ne
      obtain lt | lt := lt_or_gt_of_ne ne
      · have := mono (show j + 1 ≤ i by omega)
        omega
      · have := mono (show i + 1 ≤ j by omega)
        omega
    exact ⟨.inl (by rw [h.skip]; omega), h.inRow column⟩
  | returned e n h =>
    obtain rfl : k = n := by have := h.count; omega
    have := h.first
    have lt : j < e := by
      by_contra le
      exact text e (by omega) h.byte
    have := mono (show j + 1 ≤ e by omega)
    omega

/-- A backspace keeps the cell. -/
theorem cell_backspace (near : ¬ (25 < s.curY ∨ 80 < s.curX)) (skip : ¬ 1 < s.skip)
    (back : s.bytes s.curI = char '\x08') : (t.cell s).x = s.x := by
  rw [@cell_eq t s _ rfl, put_read, back, put_backspace near skip]
  exact Int.sub_add_cancel s.x 1

theorem Seen.round (seen : Seen t (t.w * s.y + s.x)) (stage : Stage t s) (on : t.OnScreen)
    (counts : Counts t s) (pos : 0 < t.w) (row : s.y < t.h) (straight : ¬ Astray t s) :
    Seen t (t.w * (t.round s).y + (t.round s).x) := by
  rw [Terminal.round]
  split_ifs with column
  · have near := near_screen on counts row column
    have passes := @cell_passes t s
    intro j text k before first last
    rw [passes.y] at before
    by_cases old : (k : Int) < t.w * s.y + s.x
    · exact seen j text k old first last
    · have moved : (t.cell s).x = s.x + 1 ∧ (k : Int) = t.w * s.y + s.x := by
        obtain ⟨moved, -⟩ | ⟨same, -⟩ := passes.next
        · omega
        · omega
      obtain ⟨draws, place⟩ := stage.draws pos column
        (fun skip back => by have := cell_backspace (t := t) near skip back; omega) text moved.2 first last
      have right : ¬ (s.y + 1 = t.h ∨ t.w ≤ (s.curX - t.x.toNat) % 256) :=
        fun wrong => straight ⟨column, .inr ⟨draws, wrong⟩⟩
      refine ⟨?_, by omega⟩
      have above : t.w * (s.y + 1) ≤ t.w * (t.h - 1) :=
        Int.mul_le_mul_of_nonneg_left (by omega) pos.le
      rw [Int.mul_add, Int.mul_one] at above
      omega
  · change Seen t (t.w * (s.y + 1) + 0)
    intro j text k before
    refine seen j text k ?_
    rw [Int.mul_add, Int.mul_one] at before
    have := counts.left
    omega

theorem Seen.columns (seen : Seen t (t.w * t.h)) (pos : 0 < t.w)
    (text : ∀ j ≤ i, t.bytes j ≠ char '\r') (upto : (t.cells (i + 1) : Int) ≤ t.w * t.h)
    (lt : k < t.drawn i) : (t.column i + k) % 256 < t.w := by
  rw [drawn] at lt
  have start := Nat.div_add_mod (t.cells i) t.w.toNat
  have inside : t.cells i % t.w.toNat + t.silent i + k < t.w.toNat := by omega
  have row : (t.cells i + t.silent i + k) / t.w.toNat = t.cells i / t.w.toNat := by
    rw [show t.cells i + t.silent i + k = t.w.toNat * (t.cells i / t.w.toNat) +
      (t.cells i % t.w.toNat + t.silent i + k) by omega, Nat.mul_add_div (by omega),
      Nat.div_eq_of_lt inside, Nat.add_zero]
  have inRow := (seen i text (t.cells i + t.silent i + k) (by omega) (by omega) (by omega)).2
  rw [columnAt, if_pos row] at inRow
  omega

/-- The byte that takes the first cell of the last row. -/
theorem Seen.bottom (seen : Seen t (t.w * t.h)) (pos : 0 < t.w)
    (text : ∀ j ≤ i, t.bytes j ≠ char '\r') (place : (k : Int) = t.w * (t.h - 1))
    (first : t.cells i ≤ k) (last : k < t.cells (i + 1)) :
    t.w = 1 ∧ t.isControl i ∧ (t.cells i : Int) = t.h - 1 := by
  have area : t.w * t.h = t.w * (t.h - 1) + t.w := by
    rw [Int.mul_sub, Int.mul_one, Int.sub_add_cancel]
  have later : ¬ t.cells i + t.silent i ≤ k := fun le => by
    have := (seen i text k (by omega) le last).1
    omega
  have control : t.isControl i := by
    by_contra letter
    rw [silent, if_neg letter] at later
    omega
  rw [silent, if_pos control] at later
  obtain rfl : t.cells i = k := by omega
  by_cases one : t.w = 1
  · rw [one, Int.one_mul] at place
    exact ⟨one, control, place⟩
  · -- the second cell of the row is drawn
    have row : t.cells i % t.w.toNat = 0 := by
      have whole : ((t.cells i % t.w.toNat : Nat) : Int) = 0 := by
        rw [Int.natCast_mod, Int.toNat_of_nonneg pos.le, place, Int.mul_emod_right]
      exact_mod_cast whole
    have second : t.cells i + 1 < t.cells (i + 1) := by
      rcases control with newline | tab
      · have := cells_newline newline
        omega
      · rw [cells, if_neg (by rw [tab]; decide), if_neg (by rw [tab]; decide), if_pos tab]
        omega
    have := (seen i text (t.cells i + 1) (by omega)
      (by rw [silent, if_pos control]) second).1
    omega

/-- The display before anything is drawn. -/
def blankVga : Vga := ⟨fun _ => 0, 0, []⟩

/-- Two lines, with a tab and a letter that is taken back. -/
def greeting : Terminal where
  bytes i := [char 'H', char 'i', char '\n', char '\t', char 'y', char 'o', char 'i', char '\x08',
    char 'u'].getD i (char '\r')
  lastPos := 0
  w := 10
  h := 4
  visible := true
  x := 35
  y := 10
  name := fun _ => char 'T'
  nameLen := 4
  fg := 0xf
  bg := 0

end ChudOS.Terminal
