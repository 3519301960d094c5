import ChudOS.Userland.Terminal

/-!
# Where a terminal draws

The name takes the first row of a terminal, but the text has as many rows as the terminal: its last
row is below the rectangle. A backspace moves the column to the left, out of the rectangle as well,
and uses up a byte without moving on in the row, so that the text can come to its end too early.

## Main definitions

* `Contains` — a call of `WriteCharacter` is for a position in the rectangle.
* `Astray` — a round that goes wrong.
-/

namespace ChudOS.Terminal

variable {t : Terminal} {s s' : Draw} {c : U8}

/-- The rectangle lies on the screen, or it has no columns. -/
structure OnScreen (t : Terminal) : Prop where
  columns : t.x.toNat + t.w ≤ 80
  rows : t.y.toNat + t.h ≤ 25

/-- The next round of the inner loop writes a character. -/
def Draws (s : Draw) : Prop :=
  1 < s.skip ∨
    s.bytes s.curI ∉ [char '\n', char '\x08', char '\t', char '\r']

/-- A round that looks behind the text, or writes a character in the last of `h` rows, or writes one
in a row in which more backspaces than characters came before. -/
def Astray (t : Terminal) (s : Draw) : Prop :=
  s.x < t.w ∧ (2000 ≤ s.curI ∨
    Draws s ∧ (s.y + 1 = t.h ∨ t.w ≤ (s.curX - t.x.toNat) % 256))

/-- How the counters go together, whatever the text is. -/
structure Counts (t : Terminal) (s : Draw) : Prop where
  row : s.curY = t.y.toNat + 1 + s.y
  top : 0 ≤ s.y
  left : 0 ≤ s.x
  right : s.curX ≤ t.x.toNat + s.x
  newline : s.firstnewline ≤ s.curI

/-! ## One round -/

/-- What the treatment of a character does to the counters and the calls. -/
structure Moves (t : Terminal) (s s' : Draw) : Prop where
  y : s'.y = s.y
  curY : s'.curY = s.curY
  inside : s'.inside = s.inside
  right : s'.curX - s'.x ≤ s.curX - s.x + 1
  next : s'.x = s.x ∧ s.curI ≤ s'.curI ∨ s'.x = s.x - 1 ∧ s.curI < s'.curI
  last : s'.curI ≤ s.curI + 1
  newline : s.firstnewline ≤ s.curI → s'.firstnewline ≤ s'.curI

theorem put_moves : Moves t s (t.put c s) := by
  rw [put]
  split_ifs <;> refine ⟨rfl, rfl, rfl, ?_, ?_, ?_, ?_⟩ <;> try dsimp only [draw]
  all_goals grind

/-- The calls that the treatment of a character makes. -/
def newCalls (t : Terminal) (c : U8) (s : Draw) : List WriteCall :=
  if 1 < s.skip then
    [⟨0, BitVec.ofInt 8 s.curX, BitVec.ofInt 8 s.curY, textColor t.fg t.bg⟩]
  else if c ∈ [char '\n', char '\x08', char '\t', char '\r'] then []
  else [⟨c, BitVec.ofInt 8 s.curX, BitVec.ofInt 8 s.curY, textColor t.fg t.bg⟩]

theorem put_calls (near : ¬ (25 < s.curY ∨ 80 < s.curX)) :
    (t.put c s).calls = s.calls ++ newCalls t c s := by
  rw [put, if_neg near, newCalls]
  simp only [List.mem_cons, List.not_mem_nil, or_false]
  split_ifs <;> first | rfl | simp_all

theorem put_grows {call : WriteCall} (mem : call ∈ s.calls) : call ∈ (t.put c s).calls := by
  by_cases near : 25 < s.curY ∨ 80 < s.curX
  · rw [put, if_pos near]
    exact mem
  · rw [put_calls near]
    exact List.mem_append_left _ mem

/-- What a round of the inner loop does to the counters and the calls. -/
structure Passes (t : Terminal) (s s' : Draw) : Prop where
  y : s'.y = s.y
  curY : s'.curY = s.curY
  right : s'.curX - s'.x ≤ s.curX - s.x
  next : s'.x = s.x + 1 ∧ s.curI ≤ s'.curI ∨ s'.x = s.x ∧ s.curI < s'.curI
  newline : s.firstnewline ≤ s.curI → s'.firstnewline ≤ s'.curI
  calls : ¬ (25 < s.curY ∨ 80 < s.curX) → s'.calls = s.calls ++ newCalls t (s.bytes s.curI) s
  grows : ∀ call ∈ s.calls, call ∈ s'.calls
  inside : s'.inside = true → s.inside = true ∧ s.curI < 2000
  kept : s.inside = true → s.curI < 2000 → s.firstnewline ≤ s.curI → s'.inside = true

theorem cell_eq {p : Draw} (treated : p =
      t.put (s.bytes s.curI) { s with inside := s.inside && decide (s.curI < 2000) }) :
    t.cell s = { (if t.w * t.h < p.tlen then deleteFirstLine p else p) with x := p.x + 1 } := by
  rw [Terminal.cell, ← treated]
  split_ifs <;> rfl

theorem cell_passes : Passes t s (t.cell s) := by
  let s₁ : Draw := { s with inside := s.inside && decide (s.curI < 2000) }
  have moves : Moves t s₁ (t.put (s.bytes s.curI) s₁) := put_moves
  have calls : ¬ (25 < s.curY ∨ 80 < s.curX) →
      (t.put (s.bytes s.curI) s₁).calls = s.calls ++ newCalls t (s.bytes s.curI) s :=
    @put_calls t s₁ _
  have grows (call : WriteCall) (mem : call ∈ s.calls) :
      call ∈ (t.put (s.bytes s.curI) s₁).calls := @put_grows t s₁ _ call mem
  have inside : (t.put (s.bytes s.curI) s₁).inside = true ↔ s.inside = true ∧ s.curI < 2000 := by
    rw [moves.inside, Bool.and_eq_true, decide_eq_true_eq]
  have cell := @cell_eq t s _ rfl
  obtain ⟨y, curY, -, right, next, last, newline⟩ := moves
  rw [cell]
  change Passes t s { (if t.w * t.h < (t.put (s.bytes s.curI) s₁).tlen then
    deleteFirstLine (t.put (s.bytes s.curI) s₁) else t.put (s.bytes s.curI) s₁) with
      x := (t.put (s.bytes s.curI) s₁).x + 1 }
  generalize t.put (s.bytes s.curI) s₁ = p at *
  have x : s₁.x = s.x := rfl
  have curX : s₁.curX = s.curX := rfl
  have curI : s₁.curI = s.curI := rfl
  rw [x] at right next
  rw [curX] at right
  rw [curI] at next last newline
  split_ifs with full
  · refine ⟨y, curY, ?_, ?_, newline, calls, grows, fun within => ?_, fun old lt le => ?_⟩
    · dsimp only [deleteFirstLine]
      omega
    · dsimp only [deleteFirstLine]
      omega
    · rw [deleteFirstLine, Bool.and_eq_true] at within
      exact inside.mp within.1
    · have early := newline le
      rw [deleteFirstLine, Bool.and_eq_true, decide_eq_true_eq]
      exact ⟨inside.mpr ⟨old, lt⟩, by omega⟩
  · refine ⟨y, curY, ?_, ?_, newline, calls, grows, inside.mp, fun old lt _ => ?_⟩
    · dsimp only
      omega
    · dsimp only
      omega
    · exact inside.mpr ⟨old, lt⟩

/-! ## All rounds -/

theorem start_counts : Counts t t.start :=
  ⟨(Int.add_zero _).symm, Int.le_refl 0, Int.le_refl 0, (Int.add_zero _).ge, Nat.le_refl 0⟩

theorem round_counts (counts : Counts t s) : Counts t (t.round s) := by
  obtain ⟨row, top, left, right, newline⟩ := counts
  rw [round]
  split_ifs with more
  · have passes := @cell_passes t s
    have next := passes.next
    have right' := passes.right
    exact ⟨by rw [passes.curY, passes.y, row], by rw [passes.y]; exact top, by omega, by omega,
      passes.newline newline⟩
  · refine ⟨?_, ?_, Int.le_refl 0, (Int.add_zero _).ge, newline⟩ <;> dsimp only [endRow] <;> omega

/-- The rounds that are left, at most. -/
def rank (t : Terminal) (s : Draw) : Nat :=
  (t.h - s.y).toNat * (t.w.toNat + 1) + (t.w - s.x).toNat + (2000 - s.curI)

section Rectangle

variable (on : t.OnScreen) (counts : Counts t s) (row : s.y < t.h) (column : s.x < t.w)

include on counts row column

/-- The test for positions off the screen never fires. -/
theorem near_screen : ¬ (25 < s.curY ∨ 80 < s.curX) := by
  have columns := on.columns
  have rows := on.rows
  have right := counts.right
  have curY := counts.row
  omega

end Rectangle

/-- Nothing goes wrong while a terminal is drawn. -/
def Straight (t : Terminal) : Prop :=
  (0 < t.w → 0 < t.h) ∧
    ∀ s, Loop.Reaches t.done t.round t.start s → ¬ t.done s → ¬ Astray t s

theorem refresh_of_le {m n : Nat} {d : Draw} (le : m ≤ n) (result : t.refresh m = some d) :
    t.refresh n = some d := by
  rw [refresh] at result ⊢
  split_ifs at result ⊢
  · exact Loop.run_of_le le result
  · exact result

theorem refreshAll_cons {ts : List Terminal} {n : Nat} {ds : List Draw} :
    refreshAll n (t :: ts) = some ds ↔
      ∃ d rest, t.refresh n = some d ∧ refreshAll n ts = some rest ∧ ds = d :: rest := by
  constructor
  · intro result
    obtain ⟨d, first, rest⟩ := Option.bind_eq_some_iff.mp result
    obtain ⟨others, all, same⟩ := Option.bind_eq_some_iff.mp rest
    exact ⟨d, others, first, all, (Option.some.inj same).symm⟩
  · rintro ⟨d, rest, first, all, rfl⟩
    exact Option.bind_eq_some_iff.mpr ⟨d, first, Option.bind_eq_some_iff.mpr ⟨rest, all, rfl⟩⟩

theorem refreshAll_of_le {ts : List Terminal} {m n : Nat} {ds : List Draw} (le : m ≤ n)
    (result : refreshAll m ts = some ds) : refreshAll n ts = some ds := by
  induction ts generalizing ds with
  | nil => exact result
  | cons t ts ih =>
    obtain ⟨d, rest, first, others, rfl⟩ := refreshAll_cons.mp result
    exact refreshAll_cons.mpr ⟨d, rest, refresh_of_le le first, ih others, rfl⟩

end ChudOS.Terminal
