import ChudOS.Library.Transition
import ChudOS.TerminalLayout
import Mathlib.Data.List.GetD

/-!
# What a terminal keeps

`virtualprint` appends to the text of its terminal. Where there is no room it begins again with the
first byte, but leaves the position there, so that the next string overwrites this one.
`refreshTerminals` sets the position to the first byte as well, where it finds a text too long; its
own string is then no longer in front of the position.

## Main definitions

* `prints` — the terminals and the calls of `virtualprint`, beside what was stored last in each.
* `Lossless` — what a call is expected to keep.
* `Fits` — there is room for the string, and no text is too long.
-/

namespace ChudOS.Terminal

open Transition

/-- The inner loop finds the text too long, and deletes its first line. -/
def Scrolls (t : Terminal) (s : Draw) : Prop :=
  s.x < t.w ∧ t.w * t.h < (t.put (s.bytes s.curI) s).tlen

def Unscrolled (t : Terminal) : Prop :=
  ∀ s, Loop.Reaches t.done t.round t.start s → ¬ t.done s → ¬ Scrolls t s

/-- A call of `virtualprint` with a string of at most 128 characters. -/
structure Call where
  tid : Nat
  text : List U8
  short : text.length ≤ 128
  letters : 0 ∉ text

/-- The string, and the zero behind it. -/
def Call.src (call : Call) (i : Nat) : U8 := call.text.getD i 0

structure Output where
  terminals : List Terminal
  screen : Vga
  /-- The string that was stored last in a terminal, and where. -/
  recent : Nat → Option (Nat × List U8)

/-- As `initVirtualTerminals` leaves a terminal. -/
structure Cleared (t : Terminal) : Prop where
  area : t.w * t.h ≤ 2000
  lastPos : t.lastPos = 0
  bytes : ∀ i < 2000, t.bytes i = 0
  /-- The memory behind the text has an end. -/
  ended : ∃ N, ∀ i, N ≤ i → t.bytes i ≠ char '\x08'

def prints : LTS Output Call where
  init o := (∀ t ∈ o.terminals, Cleared t) ∧ o.recent = fun _ => none
  step o call o' := ∃ t rounds draws, o.terminals[call.tid]? = some t ∧
    virtualprint rounds call.tid call.src o.terminals o.screen =
      some (o'.terminals, draws, o'.screen) ∧
    o'.recent = Function.update o.recent call.tid
      (some ((t.position call.text.length).toNat, call.text))

/-- The string is in the first `w * h` bytes, from a place on. -/
structure Stored (t : Terminal) (place : Nat) (text : List U8) : Prop where
  inside : (place : Int) + text.length ≤ t.w * t.h
  bytes : ∀ i < text.length, t.bytes (place + i) = text.getD i 0

structure Lossless (o : Output) (call : Call) (o' : Output) : Prop where
  /-- What was stored last, by this call or before it in another terminal, is there, and the
  position is behind it. -/
  latest : ∀ i place text, o'.recent i = some (place, text) → ∃ t, o'.terminals[i]? = some t ∧
    Stored t place text ∧ t.lastPos.toNat = place + text.length
  /-- What was stored last in the same terminal is still there, unless the call wrapped. -/
  previous : ∀ t place text, o.terminals[call.tid]? = some t →
    o.recent call.tid = some (place, text) → t.nadd call.text.length = false →
      ∃ t', o'.terminals[call.tid]? = some t' ∧ Stored t' place text

/-- The terminals when `virtualprint` draws them. -/
def stored (o : Output) (call : Call) : List Terminal :=
  o.terminals.modify call.tid fun t => t.store call.src

structure Fits (o : Output) (call : Call) : Prop where
  room : ∀ t, o.terminals[call.tid]? = some t →
    (t.lastPos.toNat : Int) + call.text.length ≤ t.w * t.h
  straight : ∀ t ∈ stored o call, t.visible = true → Unscrolled t

variable {t t' : Terminal} {s s' : Draw} {c : U8} {i n N : Nat} {ts after : List Terminal}
  {d : Draw} {o o' : Output} {call : Call}

/-! ## The text while it is drawn -/

theorem put_text : (t.put c s).bytes = s.bytes ∧ (t.put c s).lastPos = s.lastPos := by
  rw [put]
  split_ifs <;> exact ⟨rfl, rfl⟩

theorem put_tlen (inside : Bool) :
    (t.put c { s with inside := inside }).tlen = (t.put c s).tlen := by
  rw [put, put]
  split_ifs <;> rfl

/-- Only a backspace keeps the column of the inner loop. -/
theorem put_column (other : c ≠ char '\x08') : (t.put c s).x = s.x := by
  rw [put]
  split_ifs <;> rfl

theorem cell_text (more : s.x < t.w) (straight : ¬ Scrolls t s) :
    (t.cell s).bytes = s.bytes ∧ (t.cell s).lastPos = s.lastPos := by
  have short := fun long => straight ⟨more, long⟩
  rw [@cell_eq t s _ rfl, put_tlen, if_neg short]
  exact @put_text t _ _

theorem cell_reset (scrolls : Scrolls t s) : (t.cell s).lastPos = 0 := by
  rw [@cell_eq t s _ rfl, put_tlen, if_pos scrolls.2]
  rfl

/-- A position that is the first byte stays there. -/
theorem round_lastPos (zero : s.lastPos = 0) : (t.round s).lastPos = 0 := by
  rw [round]
  split_ifs with more
  · by_cases scrolls : Scrolls t s
    · exact cell_reset scrolls
    · exact (cell_text more scrolls).2.trans zero
  · exact zero

theorem refresh_keeps (straight : t.visible = true → Unscrolled t)
    (result : t.refresh n = some d) : d.bytes = t.bytes ∧ d.lastPos = t.lastPos := by
  rw [refresh] at result
  split_ifs at result with visible
  · have keep (s : Draw) (kept : s.bytes = t.bytes ∧ s.lastPos = t.lastPos) (_ : ¬ t.done s)
        (calm : ¬ Scrolls t s) :
        (t.round s).bytes = t.bytes ∧ (t.round s).lastPos = t.lastPos := by
      rw [round]
      split_ifs with more
      · have text := cell_text more calm
        exact ⟨text.1.trans kept.1, text.2.trans kept.2⟩
      · exact kept
    exact @Loop.Reaches.straight _ t.done t.round (Scrolls t)
      (fun s => s.bytes = t.bytes ∧ s.lastPos = t.lastPos) _ _ (straight visible) keep
      (Loop.reaches_of_run result).1 ⟨rfl, rfl⟩
  · obtain rfl := Option.some.inj result
    exact ⟨rfl, rfl⟩

theorem refresh_resets (visible : t.visible = true) (scrolled : ¬ Unscrolled t)
    (result : t.refresh n = some d) : d.lastPos = 0 := by
  rw [refresh, if_pos visible] at result
  simp only [Unscrolled, not_forall, not_not] at scrolled
  obtain ⟨s, reached, more, scrolls⟩ := scrolled
  have reset : (t.round s).lastPos = 0 := by
    rw [round, if_pos scrolls.1]
    exact cell_reset scrolls
  by_contra moved
  refine @Loop.Reaches.lost _ t.done t.round (fun d => d.lastPos ≠ 0) _ _ _ _ _ ?_ reached more
    (fun kept => kept reset) result moved
  exact fun s zero kept => zero fun first => kept (round_lastPos first)

/-! ## Every refresh ends -/

/-- From a place on there is no backspace: the memory behind the text has an end. -/
def Ended (N : Nat) (bytes : Nat → U8) : Prop := 2000 ≤ N ∧ ∀ i, N ≤ i → bytes i ≠ char '\x08'

/-- The rounds that are left, where the backspaces end at `N`. -/
def remaining (t : Terminal) (N : Nat) (s : Draw) : Nat :=
  (t.h - s.y).toNat * (t.w.toNat + 1) + (t.w - s.x).toNat + (N - s.curI)

theorem deleteFirstLine_ended (ended : Ended N s.bytes) : Ended N (deleteFirstLine s).bytes := by
  refine ⟨ended.1, fun i le => ?_⟩
  have behind : ¬ i < 2000 - s.firstnewline := by
    have first := ended.1
    omega
  rw [deleteFirstLine]
  dsimp only
  rw [if_neg behind]
  exact ended.2 i le

theorem round_ended (ended : Ended N s.bytes) : Ended N (t.round s).bytes := by
  rw [round]
  split_ifs with more
  · have text := (@put_text t { s with inside := s.inside && decide (s.curI < 2000) }
      (s.bytes s.curI)).1
    rw [@cell_eq t s _ rfl]
    generalize t.put (s.bytes s.curI) _ = p at *
    split_ifs
    · exact deleteFirstLine_ended (text.symm ▸ ended)
    · exact text.symm ▸ ended
  · exact ended

theorem cell_column (other : s.bytes s.curI ≠ char '\x08') : (t.cell s).x = s.x + 1 := by
  have column := @put_column t { s with inside := s.inside && decide (s.curI < 2000) } _ other
  rw [@cell_eq t s _ rfl]
  exact congrArg (· + 1) column

theorem round_remaining (ended : Ended N s.bytes) (more : ¬ t.done s) :
    t.remaining N (t.round s) < t.remaining N s := by
  rw [round]
  split_ifs with column
  · have passes := @cell_passes t s
    have next := passes.next
    rw [remaining, remaining, passes.y]
    by_cases text : s.curI < N
    · omega
    · have moved := @cell_column t s (ended.2 s.curI (Nat.le_of_not_lt text))
      omega
  · have rows : (t.h - s.y).toNat = (t.h - (s.y + 1)).toNat + 1 := by
      have row : s.y < t.h := Int.lt_of_not_ge more
      omega
    have start : (t.w - (0 : Int)).toNat = t.w.toNat := by rw [Int.sub_zero]
    rw [remaining, remaining, rows]
    dsimp only [endRow]
    rw [start, Nat.add_mul]
    omega

theorem exists_refresh (ended : Ended N t.bytes) : ∃ n d, t.refresh n = some d := by
  by_cases visible : t.visible = true
  · obtain ⟨n, d, result, -⟩ :
        ∃ n d, Loop.run t.done t.round n t.start = some d ∧ Ended N d.bytes :=
      Loop.exists_run (fun s => Ended N s.bytes) (t.remaining N)
        (fun s kept _ => round_ended kept) (fun s kept more => round_remaining kept more) ended
    exact ⟨n, d, (if_pos visible).trans result⟩
  · exact ⟨0, _, if_neg visible⟩

/-! ## An empty text -/

def Blank (t : Terminal) : Prop := ∀ i < 2000, t.bytes i = 0

theorem put_zero (skip : s.skip = 0) : (t.put 0 s).skip = 0 ∧ (t.put 0 s).tlen = s.tlen ∧
    (t.put 0 s).x = s.x ∧ (t.put 0 s).curI ≤ s.curI + 1 := by
  have other (k : U8) (ne : (0 : U8) ≠ k) : ¬ (0 : U8) = k := ne
  rw [put]
  by_cases near : 25 < s.curY ∨ 80 < s.curX
  · rw [if_pos near]
    exact ⟨skip, rfl, rfl, Nat.le_succ _⟩
  · rw [if_neg near, if_neg (by omega), if_neg (by decide), if_neg (by decide),
      if_neg (by decide), if_neg (by decide), if_pos rfl]
    exact ⟨skip, rfl, rfl, Nat.le_refl _⟩

/-- Where the drawing of an empty text is: it uses up a byte in each column at most. -/
structure Empty (t : Terminal) (s : Draw) : Prop extends Counts t s where
  bytes : s.bytes = t.bytes
  skip : s.skip = 0
  tlen : s.tlen = 0
  column : 0 < t.w → s.x ≤ t.w
  used : 0 < t.w → (s.curI : Int) ≤ s.y * t.w + s.x

section Empty

variable (area : t.w * t.h ≤ 2000) (blank : Blank t) (empty : Empty t s) (more : ¬ t.done s)
include area blank empty more

theorem Empty.zero (column : s.x < t.w) : s.bytes s.curI = 0 ∧ ¬ Scrolls t s := by
  have wide : 0 < t.w := Int.lt_of_le_of_lt empty.left column
  have row : s.y + 1 ≤ t.h := Int.lt_of_not_ge more
  have top := empty.top
  have used := empty.used wide
  have rows : (s.y + 1) * t.w ≤ t.h * t.w := Int.mul_le_mul_of_nonneg_right row (Int.le_of_lt wide)
  have positive : 0 < t.w * t.h := Int.mul_pos wide (by omega)
  rw [Int.add_mul, Int.one_mul, Int.mul_comm t.h] at rows
  have inside : s.curI < 2000 := by omega
  have zero : s.bytes s.curI = 0 := by
    rw [empty.bytes]
    exact blank _ inside
  refine ⟨zero, fun scrolls => ?_⟩
  have tlen := (@put_zero t s empty.skip).2.1
  have long := scrolls.2
  rw [zero, tlen, empty.tlen] at long
  omega

theorem Empty.round : Empty t (t.round s) := by
  have counts := @round_counts t s empty.toCounts
  rw [Terminal.round] at counts ⊢
  split_ifs at counts ⊢ with column
  · obtain ⟨zero, calm⟩ := empty.zero area blank more column
    have wide : 0 < t.w := Int.lt_of_le_of_lt empty.left column
    have used := empty.used wide
    have text := (cell_text column calm).1
    have passes := @cell_passes t s
    obtain ⟨skip, tlen, x, curI⟩ :=
      @put_zero t { s with inside := s.inside && decide (s.curI < 2000) } empty.skip
    have cell := @cell_eq t s _ rfl
    rw [zero, if_neg (by rw [tlen]; exact fun long => calm ⟨column, by
      rw [zero, (@put_zero t s empty.skip).2.1]; exact long⟩)] at cell
    refine ⟨counts, text.trans empty.bytes, ?_, ?_, fun _ => ?_, fun _ => ?_⟩
    · rw [cell]
      exact skip
    · rw [cell]
      exact tlen.trans empty.tlen
    · rw [cell]
      dsimp only at x ⊢
      omega
    · rw [passes.y, cell]
      dsimp only at x curI ⊢
      omega
  · refine ⟨counts, empty.bytes, empty.skip, empty.tlen, fun wide => ?_, fun wide => ?_⟩
    · exact Int.le_of_lt wide
    · have used := empty.used wide
      have last := empty.column wide
      dsimp only [endRow]
      rw [Int.add_mul, Int.one_mul]
      omega

end Empty

/-- An empty text is not too long. -/
theorem unscrolled_of_blank (area : t.w * t.h ≤ 2000) (blank : Blank t) : Unscrolled t := by
  intro s reached more scrolls
  have start : Empty t t.start :=
    ⟨start_counts, rfl, rfl, rfl, fun wide => Int.le_of_lt wide, fun _ => by
      change (0 : Int) ≤ 0 * t.w + 0
      omega⟩
  have empty := reached.invariant (fun s kept more => kept.round area blank more) start
  exact (empty.zero area blank more scrolls.1).2 scrolls

/-- A text that fits its rectangle is drawn without being moved. -/
theorem unscrolled_of_inside (on : t.OnScreen) (short : Short t) (inside : InRectangle t) :
    Unscrolled t := fun _ reached more scrolls =>
  inside.calm on short reached more scrolls.1 scrolls.2

/-! ## All terminals -/

theorem refreshAll_iff {ds : List Draw} : refreshAll n ts = some ds ↔
    List.Forall₂ (fun t d => t.refresh n = some d) ts ds := by
  induction ts generalizing ds with
  | nil =>
    rw [List.forall₂_nil_left_iff]
    exact ⟨fun same => (Option.some.inj same).symm, fun same => congrArg some same.symm⟩
  | cons t ts ih =>
    rw [refreshAll_cons, List.forall₂_cons_left_iff]
    constructor
    · rintro ⟨d, rest, first, others, rfl⟩
      exact ⟨d, rest, first, ih.mp others, rfl⟩
    · rintro ⟨d, rest, first, others, rfl⟩
      exact ⟨d, rest, first, ih.mpr others, rfl⟩

theorem exists_refreshAll (ended : ∀ t ∈ ts, ∃ N, Ended N t.bytes) :
    ∃ n ds, refreshAll n ts = some ds := by
  induction ts with
  | nil => exact ⟨0, [], rfl⟩
  | cons t ts ih =>
    rw [List.forall_mem_cons] at ended
    obtain ⟨N, first⟩ := ended.1
    obtain ⟨m, d, result⟩ := exists_refresh first
    obtain ⟨n, ds, rest⟩ := ih ended.2
    exact ⟨max m n, d :: ds, refreshAll_cons.mpr ⟨d, ds, refresh_of_le (Nat.le_max_left ..) result,
      refreshAll_of_le (Nat.le_max_right ..) rest, rfl⟩⟩

/-- What `refreshTerminals` makes of a terminal. -/
theorem refreshTerminals_getElem? {v v' : Vga} {draws : List Draw}
    (result : refreshTerminals n ts v = some (after, draws, v')) (i : Nat) :
    after[i]? = none ∧ ts[i]? = none ∨ ∃ t d, ts[i]? = some t ∧ t.refresh n = some d ∧
      after[i]? = some { t with bytes := d.bytes, lastPos := d.lastPos } := by
  obtain ⟨ds, all, same⟩ := Option.bind_eq_some_iff.mp result
  obtain ⟨rfl, -⟩ := Prod.mk.inj (Option.some.inj same)
  have each := refreshAll_iff.mp all
  clear same result all
  induction each generalizing i with
  | nil => exact .inl ⟨rfl, rfl⟩
  | cons first _ ih =>
    cases i with
    | zero => exact .inr ⟨_, _, rfl, first, rfl⟩
    | succ i => exact ih i

/-! ## Storing a string -/

theorem textLength_src (call : Call) : textLength call.src = call.text.length := by
  have short := call.short
  have letter (i : Nat) (lt : i < call.text.length) : call.src i ≠ 0 := fun zero => by
    rw [Call.src, List.getD_eq_getElem _ _ lt] at zero
    exact call.letters (zero ▸ List.getElem_mem lt)
  have zero : call.src call.text.length = 0 := List.getD_eq_default _ _ (Nat.le_refl _)
  rw [textLength]
  cases found : (List.range 128).find? fun i => call.src i = 0 with
  | none =>
    have full := List.find?_range_eq_none.mp found call.text.length
    have all : ¬ call.text.length < 128 := fun lt => by simpa [zero] using full lt
    exact (Nat.le_antisymm short (Nat.le_of_not_lt all)).symm
  | some k =>
    obtain ⟨last, -, before⟩ := List.find?_range_eq_some.mp found
    rw [decide_eq_true_eq] at last
    have le : call.text.length ≤ k := Nat.le_of_not_lt fun lt => letter k lt last
    have ge : k ≤ call.text.length := Nat.le_of_not_lt fun lt => by simpa [zero] using before _ lt
    exact Nat.le_antisymm ge le

theorem nadd_of_room {len : Nat} (area : t.w * t.h ≤ 2000)
    (room : (t.lastPos.toNat : Int) + len ≤ t.w * t.h) : t.nadd len = false := by
  rw [nadd, decide_eq_false_iff_not, BitVec.lt_def, BitVec.toNat_ofInt, BitVec.toNat_add,
    BitVec.toNat_ofNat]
  omega

theorem nadd_of_full {len : Nat} (area : t.w * t.h ≤ 2000) (fits : (t.lastPos.toNat : Int) ≤ t.w * t.h)
    (short : len ≤ 128) (full : ¬ (t.lastPos.toNat : Int) + len ≤ t.w * t.h) :
    t.nadd len = true := by
  rw [nadd, decide_eq_true_eq, BitVec.lt_def, BitVec.toNat_ofInt, BitVec.toNat_add,
    BitVec.toNat_ofNat]
  omega

/-- A terminal between two calls, with what was stored last in it. -/
structure Holding (t : Terminal) (recent : Option (Nat × List U8)) : Prop where
  area : t.w * t.h ≤ 2000
  ended : ∃ N, Ended N t.bytes
  blank : t.lastPos = 0 → Blank t
  first : recent = none → t.lastPos = 0
  last : ∀ place text, recent = some (place, text) →
    Stored t place text ∧ t.lastPos.toNat = place + text.length

theorem Cleared.holding (cleared : Cleared t) : Holding t none := by
  obtain ⟨area, lastPos, bytes, N, ended⟩ := cleared
  refine ⟨area, ⟨max 2000 N, Nat.le_max_left .., fun i le => ended i ?_⟩, fun _ => bytes,
    fun _ => lastPos, nofun⟩
  exact (Nat.le_max_right ..).trans le

section Store

variable {recent : Option (Nat × List U8)} (holding : Holding t recent)
  (room : (t.lastPos.toNat : Int) + call.text.length ≤ t.w * t.h)
include holding room

theorem position_of_room : t.position call.text.length = t.lastPos := by
  rw [position, nadd_of_room holding.area room]
  rfl

theorem lastPos_store : (t.store call.src).lastPos.toNat = t.lastPos.toNat + call.text.length := by
  have area := holding.area
  rw [store]
  dsimp only
  rw [textLength_src, nadd_of_room holding.area room, if_neg nofun,
    position_of_room holding room, BitVec.toNat_add, BitVec.toNat_ofNat]
  omega

theorem bytes_store (i : Nat) : (t.store call.src).bytes i =
    if t.lastPos.toNat ≤ i ∧ i < t.lastPos.toNat + call.text.length then
      call.text.getD (i - t.lastPos.toNat) 0
    else t.bytes i := by
  rw [store]
  dsimp only
  rw [textLength_src, position_of_room holding room]
  rfl

/-- The string goes behind the others. -/
theorem Holding.store :
    Holding (t.store call.src) (some ((t.position call.text.length).toNat, call.text)) := by
  have area := holding.area
  have lastPos := lastPos_store holding room
  have bytes := bytes_store holding room
  refine ⟨area, ?_, fun first i lt => ?_, nofun, ?_⟩
  · obtain ⟨N, le, ended⟩ := holding.ended
    refine ⟨N, le, fun i behind => ?_⟩
    rw [bytes, if_neg (by omega)]
    exact ended i behind
  · rw [first] at lastPos
    change 0 = _ at lastPos
    have none : t.lastPos = 0 := BitVec.eq_of_toNat_eq (by change _ = 0; omega)
    rw [bytes, if_neg (by omega)]
    exact holding.blank none i lt
  · rintro place text ⟨⟩
    rw [position_of_room holding room]
    refine ⟨⟨room, fun i lt => ?_⟩, lastPos⟩
    rw [bytes, if_pos ⟨by omega, by omega⟩, Nat.add_sub_cancel_left]

/-- The strings before it stay. -/
theorem Stored.store {place : Nat} {text : List U8} (before : Stored t place text)
    (last : t.lastPos.toNat = place + text.length) : Stored (t.store call.src) place text := by
  refine ⟨before.inside, fun i lt => ?_⟩
  rw [bytes_store holding room, if_neg (by omega)]
  exact before.bytes i lt

end Store

/-! ## One call -/

/-- The terminals between two calls, while every call fits. -/
structure Kept (o : Output) : Prop where
  each : ∀ i t, o.terminals[i]? = some t → Holding t (o.recent i)
  known : ∀ i place text, o.recent i = some (place, text) → ∃ t, o.terminals[i]? = some t

theorem stored_getElem? (i : Nat) : (stored o call)[i]? =
    (o.terminals[i]?).map fun t => if call.tid = i then t.store call.src else t :=
  List.getElem?_modify ..

/-- What a call records about its terminal. -/
def record (o : Output) (call : Call) (t : Terminal) : Nat → Option (Nat × List U8) :=
  Function.update o.recent call.tid (some ((t.position call.text.length).toNat, call.text))

theorem Kept.stored (kept : Kept o) (found : o.terminals[call.tid]? = some t)
    (room : (t.lastPos.toNat : Int) + call.text.length ≤ t.w * t.h) (v : Vga) :
    Kept ⟨stored o call, v, record o call t⟩ := by
  refine ⟨fun i t' at_i => ?_, fun i place text last => ?_⟩
  · dsimp only at at_i ⊢
    rw [stored_getElem?, Option.map_eq_some_iff] at at_i
    obtain ⟨u, at_i, rfl⟩ := at_i
    by_cases same : call.tid = i
    · subst same
      obtain rfl := Option.some.inj (found.symm.trans at_i)
      rw [if_pos rfl, record, Function.update_self]
      exact (kept.each _ t found).store room
    · rw [if_neg same, record, Function.update_of_ne (Ne.symm same)]
      exact kept.each i u at_i
  · dsimp only at last ⊢
    rw [stored_getElem?]
    by_cases same : call.tid = i
    · rw [← same, found]
      exact ⟨_, rfl⟩
    · rw [record, Function.update_of_ne (Ne.symm same)] at last
      obtain ⟨u, at_i⟩ := kept.known i place text last
      rw [at_i]
      exact ⟨_, rfl⟩

/-- Where no text is too long, the terminals are drawn as they are. -/
theorem refreshTerminals_keeps {v v' : Vga} {draws : List Draw}
    (straight : ∀ t ∈ ts, t.visible = true → Unscrolled t)
    (result : refreshTerminals n ts v = some (after, draws, v')) : after = ts := by
  refine List.ext_getElem? fun i => ?_
  rcases refreshTerminals_getElem? result i with ⟨none, none'⟩ | ⟨t, d, at_i, drawn, after⟩
  · rw [none, none']
  · obtain ⟨bytes, lastPos⟩ := refresh_keeps (straight t (List.mem_of_getElem? at_i)) drawn
    rw [after, at_i, bytes, lastPos]

theorem exists_virtualprint (kept : Kept o) (found : o.terminals[call.tid]? = some t)
    (fits : Fits o call) : ∃ rounds draws v, virtualprint rounds call.tid call.src o.terminals
      o.screen = some (stored o call, draws, v) := by
  have ended (u : Terminal) (mem : u ∈ stored o call) : ∃ N, Ended N u.bytes := by
    obtain ⟨i, at_i⟩ := List.mem_iff_getElem?.mp mem
    exact ((kept.stored found (fits.room t found) o.screen).each i u at_i).ended
  obtain ⟨n, ds, result⟩ := exists_refreshAll ended
  obtain ⟨after, draws, v, all⟩ : ∃ after draws v, refreshTerminals n (stored o call) o.screen =
      some (after, draws, v) := ⟨_, _, _, Option.bind_eq_some_iff.mpr ⟨ds, result, rfl⟩⟩
  obtain rfl := refreshTerminals_keeps fits.straight all
  exact ⟨n, draws, v, all⟩

/-- A call that fits leaves the terminals as `virtualprint` stored the string, and loses nothing. -/
theorem Kept.step_of_fits (kept : Kept o) (fits : Fits o call) (step : prints.step o call o') :
    Kept o' ∧ Lossless o call o' := by
  obtain ⟨t, rounds, draws, found, result, recent⟩ := step
  have room := fits.room t found
  have after : Kept o' := by
    obtain ⟨terminals, v, recents⟩ := o'
    obtain rfl : recents = record o call t := recent
    obtain rfl : terminals = Terminal.stored o call :=
      refreshTerminals_keeps fits.straight result
    exact kept.stored found room v
  refine ⟨after, fun i place text last => ?_, fun u place text at_tid last _ => ?_⟩
  · obtain ⟨u, at_i⟩ := after.known i place text last
    obtain ⟨stored, lastPos⟩ := (after.each i u at_i).last place text last
    exact ⟨u, at_i, stored, lastPos⟩
  · obtain rfl := Option.some.inj (found.symm.trans at_tid)
    have holding := kept.each _ t found
    obtain ⟨before, lastPos⟩ := holding.last place text last
    have same : o'.terminals = Terminal.stored o call :=
      refreshTerminals_keeps fits.straight result
    refine ⟨t.store call.src, ?_, before.store holding room lastPos⟩
    rw [same, stored_getElem?, found]
    exact congrArg some (if_pos rfl)

theorem Kept.initial (start : prints.init o) : Kept o := by
  obtain ⟨cleared, recent⟩ := start
  refine ⟨fun i t at_i => ?_, fun i place text last => ?_⟩
  · rw [recent]
    exact (cleared t (List.mem_of_getElem? at_i)).holding
  · rw [recent] at last
    cases last

theorem kept_of_reachable (reached : Reachable prints Fits o) : Kept o :=
  reached.invariant (fun _ => Kept.initial) fun _ _ _ kept fits step =>
    (kept.step_of_fits fits step).1

/-- Without room the position is left at the first byte, in front of the string. -/
theorem room_of_lossless (kept : Kept o) (found : o.terminals[call.tid]? = some t)
    (step : prints.step o call o') (lossless : Lossless o call o') :
    (t.lastPos.toNat : Int) + call.text.length ≤ t.w * t.h := by
  obtain ⟨t', rounds, draws, found', result, recent⟩ := step
  obtain rfl := Option.some.inj (found.symm.trans found')
  have holding := kept.each _ t found
  obtain ⟨u, at_tid, inside, lastPos⟩ := lossless.latest call.tid
    (t.position call.text.length).toNat call.text (by rw [recent, Function.update_self])
  have drawn := (refreshTerminals_getElem? result call.tid).resolve_left fun none => by
    rw [none.1] at at_tid
    cases at_tid
  obtain ⟨t', d, at_tid', refreshed, after⟩ := drawn
  have stored := @stored_getElem? o call call.tid
  rw [found] at stored
  obtain rfl : t.store call.src = t' :=
    (Option.some.inj (at_tid'.symm.trans (stored.trans (congrArg some (if_pos rfl))))).symm
  obtain rfl := Option.some.inj (after.symm.trans at_tid)
  have area : (t.position call.text.length).toNat + (call.text.length : Int) ≤ t.w * t.h :=
    inside.inside
  by_contra full
  have fits : (t.lastPos.toNat : Int) ≤ t.w * t.h := by
    cases last : o.recent call.tid with
    | none =>
      have zero : t.lastPos.toNat = 0 := congrArg BitVec.toNat (holding.first last)
      omega
    | some string =>
      obtain ⟨before, lastPos⟩ := holding.last string.1 string.2 last
      have inside := before.inside
      omega
  have wraps := nadd_of_full holding.area fits call.short full
  have start : (t.store call.src).lastPos = 0 := by
    rw [store]
    dsimp only
    rw [textLength_src, position, wraps]
    rfl
  have zero : d.lastPos = 0 := by
    by_cases straight : (t.store call.src).visible = true → Unscrolled (t.store call.src)
    · exact (refresh_keeps straight refreshed).2.trans start
    · obtain ⟨visible, scrolled⟩ := Classical.not_imp.mp straight
      exact refresh_resets visible scrolled refreshed
  have none : d.lastPos.toNat = 0 := congrArg BitVec.toNat zero
  dsimp only at lastPos
  omega

/--
While every call so far found room for its string and no text was too long to be drawn, the next
call returns and loses nothing if and only if this is so for it as well.
-/
theorem virtualprint_lossless_iff (reached : Reachable prints Fits o) (call : Call)
    (exist : call.tid < o.terminals.length) :
    (∃ o', prints.step o call o' ∧ Lossless o call o') ↔ Fits o call := by
  have kept := kept_of_reachable reached
  have found := List.getElem?_eq_getElem exist
  constructor
  · rintro ⟨o', step, lossless⟩
    have room := room_of_lossless kept found step lossless
    refine ⟨fun t at_tid => ?_, fun u mem visible => ?_⟩
    · obtain rfl := Option.some.inj (found.symm.trans at_tid)
      exact room
    · by_contra scrolled
      obtain ⟨i, at_i⟩ := List.mem_iff_getElem?.mp mem
      obtain ⟨t, rounds, draws, found', result, recent⟩ := step
      obtain rfl := Option.some.inj (found.symm.trans found')
      have holding := (kept.stored found room o.screen).each i u at_i
      -- a text that is too long is not empty, so that its position moves
      have moved : u.lastPos ≠ 0 := fun zero =>
        scrolled (unscrolled_of_blank holding.area (holding.blank zero))
      obtain ⟨⟨place, text⟩, last⟩ : ∃ string, record o call _ i = some string :=
        Option.ne_none_iff_exists'.mp fun none => moved (holding.first none)
      have before := (holding.last place text last).2
      obtain ⟨u', at_i', -, lastPos⟩ := lossless.latest i place text (by rw [recent]; exact last)
      have drawn := (refreshTerminals_getElem? result i).resolve_left fun none => by
        rw [none.1] at at_i'
        cases at_i'
      obtain ⟨v, d, at_v, refreshed, after⟩ := drawn
      obtain rfl : u = v := Option.some.inj (at_i.symm.trans at_v)
      obtain rfl := Option.some.inj (after.symm.trans at_i')
      have reset := refresh_resets visible scrolled refreshed
      dsimp only at lastPos
      rw [reset, ← before] at lastPos
      exact moved (BitVec.eq_of_toNat_eq lastPos.symm)
  · intro fits
    obtain ⟨rounds, draws, v, result⟩ := exists_virtualprint kept found fits
    have step : prints.step o call ⟨stored o call, v, record o call o.terminals[call.tid]⟩ :=
      ⟨_, rounds, draws, found, result, rfl⟩
    exact ⟨_, step, (kept.step_of_fits fits step).2⟩

/-- A visible terminal, as it is left at the start. -/
def window : Terminal := { greeting with bytes := fun _ => 0 }

theorem window_cleared : Cleared window :=
  ⟨by decide, rfl, fun _ _ => rfl, 0, fun _ _ => (by decide : (0 : U8) ≠ char '\x08')⟩

/-- A word, with the carriage return that ends the text. -/
def word : Call where
  tid := 0
  text := [char 'o', char 'k', char '\r']
  short := by decide
  letters := by decide

/-- What is behind the word does not matter. -/
theorem unscrolled_of_word (same : t = { window with bytes := t.bytes, lastPos := t.lastPos })
    (text : ∀ i < 3, t.bytes i = word.src i) : Unscrolled t := by
  have letters : ∀ j < 2, t.bytes j ∉ [char '\n', char '\x08', char '\t', char '\r'] := by
    intro j lt
    rw [text j (by omega)]
    exact (by decide : ∀ j < 2, word.src j ∉ [char '\n', char '\x08', char '\t', char '\r']) j lt
  obtain ⟨w, h, x, y⟩ : t.w = 10 ∧ t.h = 4 ∧ t.x = 35 ∧ t.y = 10 := by
    rw [same]
    exact ⟨rfl, rfl, rfl, rfl⟩
  obtain ⟨short, inside⟩ := letters_fit (e := 2) (by rw [w]; decide) letters (by rw [w]; decide)
    (by rw [h]; decide) (by decide) (text 2 (by decide)) (by rw [w, h]; decide)
  exact unscrolled_of_inside ⟨by rw [x, w]; decide, by rw [y, h]; decide⟩ short inside

/-- A second word is stored behind the first, and both are still there. -/
theorem words_lossless : ∃ o o', Reachable prints Fits o ∧ o.recent 0 = some (0, word.text) ∧
    prints.step o word o' ∧ Lossless o word o' := by
  let o : Output := ⟨[window], blankVga, fun _ => none⟩
  have start : prints.init o := ⟨fun t mem => List.mem_singleton.mp mem ▸ window_cleared, rfl⟩
  have room : (window.lastPos.toNat : Int) + word.text.length ≤ window.w * window.h := by decide
  have first : Fits o word := by
    refine ⟨fun t found => ?_, fun t mem _ => ?_⟩
    · obtain rfl : window = t := Option.some.inj found
      exact room
    · obtain rfl : t = window.store word.src := List.mem_singleton.mp mem
      refine unscrolled_of_word rfl fun i lt => ?_
      rw [bytes_store window_cleared.holding room, if_pos ⟨Nat.zero_le i, lt⟩]
      rfl
  obtain ⟨rounds, draws, v, result⟩ := exists_virtualprint (Kept.initial start) rfl first
  have reached : Reachable prints Fits ⟨stored o word, v, record o word window⟩ :=
    .step (.init start) first ⟨window, rounds, draws, rfl, result, rfl⟩
  have holding := @Holding.store window word _ window_cleared.holding room
  have lastPos : (window.store word.src).lastPos.toNat = 3 :=
    lastPos_store window_cleared.holding room
  have room' : ((window.store word.src).lastPos.toNat : Int) + word.text.length ≤
      (window.store word.src).w * (window.store word.src).h := by
    rw [lastPos]
    decide
  refine ⟨_, _, reached, rfl, ((virtualprint_lossless_iff reached word Nat.one_pos).mpr ?_).choose_spec⟩
  refine ⟨fun t found => ?_, fun t mem _ => ?_⟩
  · obtain rfl : window.store word.src = t := Option.some.inj found
    exact room'
  · obtain rfl : t = (window.store word.src).store word.src := List.mem_singleton.mp mem
    refine unscrolled_of_word rfl fun i lt => ?_
    rw [bytes_store holding room', if_neg (by omega), bytes_store window_cleared.holding room,
      if_pos ⟨Nat.zero_le i, lt⟩]
    rfl

/-- The terminal of the kernel, which is not visible. -/
def kernelTerminal : Terminal where
  bytes := fun _ => 0
  lastPos := 0
  w := 80
  h := 25
  visible := false
  x := 0
  y := 0
  name := fun i => ['K', 'E', 'R', 'N', 'E', 'L'].map char |>.getD i 0
  nameLen := 6
  fg := 0
  bg := 0xf

theorem kernelTerminal_cleared : Cleared kernelTerminal :=
  ⟨by decide, rfl, fun _ _ => rfl, 0, fun _ _ => (by decide : (0 : U8) ≠ char '\x08')⟩

def letters (n : Nat) (short : n ≤ 128) : Call where
  tid := 0
  text := List.replicate n (char 'a')
  short := by rwa [List.length_replicate]
  letters mem := absurd (List.eq_of_mem_replicate mem) (by decide)

/-- After some strings of 100 letters. -/
theorem reachable_letters (v : Vga) (k : Nat) (le : k ≤ 20) : ∃ o t, Reachable prints Fits o ∧
    o.terminals = [t] ∧ t.visible = false ∧ t.w * t.h = 2000 ∧ t.lastPos.toNat = 100 * k := by
  induction k with
  | zero =>
    refine ⟨⟨[kernelTerminal], v, fun _ => none⟩, _, .init ⟨fun t mem => ?_, rfl⟩, rfl, rfl, rfl, rfl⟩
    rw [List.mem_singleton.mp mem]
    exact kernelTerminal_cleared
  | succ k ih =>
    obtain ⟨o, t, reached, only, hidden, area, lastPos⟩ := ih (by omega)
    obtain ⟨call, first, length⟩ : ∃ call : Call, call.tid = 0 ∧ call.text.length = 100 :=
      ⟨letters 100 (by decide), rfl, List.length_replicate⟩
    have found : o.terminals[call.tid]? = some t := by rw [only, first]; rfl
    have room : (t.lastPos.toNat : Int) + call.text.length ≤ t.w * t.h := by omega
    have same : stored o call = [t.store call.src] := by rw [stored, only, first]; rfl
    have fits : Fits o call := by
      refine ⟨fun u at_tid => ?_, fun u mem visible => ?_⟩
      · obtain rfl := Option.some.inj (found.symm.trans at_tid)
        exact room
      · rw [same] at mem
        obtain rfl := List.mem_singleton.mp mem
        exact absurd (visible.symm.trans hidden) nofun
    have kept := kept_of_reachable reached
    obtain ⟨rounds, draws, v', result⟩ := exists_virtualprint kept found fits
    refine ⟨⟨stored o call, v', record o call t⟩, t.store call.src,
      reached.step fits ⟨t, rounds, draws, found, result, rfl⟩, same, hidden, area, ?_⟩
    rw [lastPos_store (kept.each _ t found) room]
    omega

/-- After 20 strings of 100 letters the terminal of the kernel is full, and the position is not
behind the next letter. -/
theorem kernelTerminal_wraps : ∃ o, Reachable prints Fits o ∧ ∃ t, o.terminals = [t] ∧
    t.lastPos.toNat = 2000 ∧ ∀ o', prints.step o (letters 1 (by decide)) o' →
      ¬ Lossless o (letters 1 (by decide)) o' := by
  obtain ⟨o, t, reached, only, -, area, lastPos⟩ :=
    reachable_letters blankVga 20 (Nat.le_refl 20)
  refine ⟨o, reached, t, only, lastPos, fun o' step lossless => ?_⟩
  have found : o.terminals[(letters 1 (by decide)).tid]? = some t := by rw [only]; rfl
  have room := room_of_lossless (kept_of_reachable reached) found step lossless
  have length : (letters 1 (by decide)).text.length = 1 := rfl
  omega

end ChudOS.Terminal
