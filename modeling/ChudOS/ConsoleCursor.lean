import ChudOS.Libraries.Console

/-!
# The cursor of the console

A tab right of column 71 computes the new column from the one that `NewLine` has set to 0, and gets
-75. A space at the end of a text leaves column 79 to the right. Nothing else leaves the screen.

## Main definitions

* `OnScreen` — the cursor is on the screen, and all that was written is.
* `Reaches` — the rounds of a call of `print`.
* `Astray` — a round that goes wrong.
-/

namespace ChudOS.Console

open Vga

/-- Everything was written on the screen, and the cursor is on it. -/
structure OnScreen (s : Console) : Prop where
  left : 0 ≤ s.curX
  right : s.curX ≤ 79
  top : 0 ≤ s.curY
  bottom : s.curY ≤ 24
  written : ∀ w ∈ s.vga.written, Visible w

/-- The text goes on with `k` tabs, or with fewer and then a character that sets the column. -/
def Returns : Nat → List U8 → Prop
  | 0, _ => True
  | _ + 1, [] => False
  | k + 1, c :: rest =>
    c = char '\n' ∨ c = char '\r' ∨ c = char '\x0c' ∨ c = char '\t' ∧ Returns k rest

/-- A tab near the right margin after which something is printed or the text ends, or a last space
in the last column. -/
def Astray (c : U8) (rest : List U8) (s : Console) : Prop :=
  c = char '\t' ∧ 71 < s.curX ∧ ¬ Returns 19 rest ∨ c = char ' ' ∧ rest = [] ∧ s.curX = 79

/-- Some rounds lead from a text and a state to the rest of the text and another state. -/
inductive Reaches : List U8 → Console → List U8 → Console → Prop
  | here {text : List U8} {s : Console} : Reaches text s text s
  | round {c : U8} {rest text : List U8} {s t : Console} (more : c ≠ 0)
      (later : Reaches rest (putChar c rest s.wrap) text t) : Reaches (c :: rest) s text t

variable {s t : Console} {c : U8} {rest text : List U8} {k : Nat}

theorem Reaches.suffix (reached : Reaches text s rest t) : ∃ before, before ++ rest = text := by
  induction reached with
  | here => exact ⟨[], rfl⟩
  | @round c _ _ _ _ _ _ ih =>
    obtain ⟨before, same⟩ := ih
    exact ⟨c :: before, congrArg (c :: ·) same⟩

/-! ## On the screen -/

theorem visible_ofInt {x y : Int} (left : 0 ≤ x) (right : x ≤ 79) (top : 0 ≤ y) (bottom : y ≤ 24) :
    Visible (BitVec.ofInt 8 x, BitVec.ofInt 8 y) := by
  constructor <;> simp only [BitVec.toNat_ofInt] <;> omega

namespace OnScreen

theorem writeCharacter (on : s.OnScreen) : (s.writeCharacter c).OnScreen := by
  refine ⟨on.left, on.right, on.top, on.bottom, fun w mem => ?_⟩
  rcases List.mem_append.mp mem with old | new
  · exact on.written w old
  · rw [List.mem_singleton.mp new]
    exact visible_ofInt on.left on.right on.top on.bottom

theorem scroll {n : Int} (on : s.OnScreen) : (s.scroll n).OnScreen :=
  ⟨Int.le_refl 0, Int.zero_le_ofNat 79, on.top, on.bottom, by
    rw [Console.scroll, written_scroll]
    exact on.written⟩

/-- The column before does not matter. -/
theorem newLine (on : { s with curX := 0 }.OnScreen) : s.newLine.OnScreen := by
  rw [Console.newLine]
  split_ifs with last
  · exact on.scroll
  · have top := on.top
    have bottom := on.bottom
    refine ⟨Int.le_refl 0, Int.zero_le_ofNat 79, ?_, ?_, on.written⟩ <;> dsimp only at * <;> omega

theorem setX (on : s.OnScreen) {x : Int} (left : 0 ≤ x) (right : x ≤ 79) :
    { s with curX := x }.OnScreen :=
  ⟨left, right, on.top, on.bottom, on.written⟩

theorem cls (written : ∀ w ∈ s.vga.written, Visible w) : s.cls.OnScreen := by
  refine ⟨Int.le_refl 0, Int.zero_le_ofNat 79, Int.le_refl 0, Int.zero_le_ofNat 24, fun w mem => ?_⟩
  exact (visible_clearScreen mem).elim (written w) id

theorem wrap (on : s.OnScreen) : s.wrap.OnScreen ∧ ¬ (s.wrap.curX = 79 ∧ s.wrap.curY = 24) := by
  rw [Console.wrap, if_neg (Int.not_lt.mpr on.right)]
  split_ifs with corner
  · exact ⟨on.scroll, fun at_corner => absurd at_corner.1 (by decide : (0 : Int) ≠ 79)⟩
  · exact ⟨on, corner⟩

/-- The end of the line above is in one of the columns. -/
theorem lineEnd_mem (v : Vga) (y x : Int) (left : 0 ≤ x) (right : x ≤ 79) {i n : Nat}
    (le : i + n ≤ 80) : 0 ≤ lineEnd v y x i n ∧ lineEnd v y x i n ≤ 79 := by
  induction n generalizing x i with
  | zero => exact ⟨left, right⟩
  | succ n ih =>
    rw [lineEnd]
    split_ifs
    · omega
    · omega
    · exact ih 79 (by decide) (by decide) (by omega)

theorem putBackspace (on : s.OnScreen) : s.putBackspace.OnScreen := by
  have left := on.left
  have right := on.right
  have top := on.top
  have bottom := on.bottom
  rw [Console.putBackspace]
  split_ifs with corner margin
  · exact on
  · obtain ⟨first, last⟩ := lineEnd_mem s.vga (s.curY - 1) s.curX left right
      (i := 0) (n := 80) (by decide)
    refine OnScreen.writeCharacter ⟨first, last, ?_, ?_, on.written⟩ <;> dsimp only <;> omega
  · refine OnScreen.writeCharacter (on.setX ?_ ?_) <;> omega

theorem putOther (on : s.OnScreen) : (s.putOther c).OnScreen := by
  have wrote : (s.writeCharacter c).OnScreen := on.writeCharacter
  have left := wrote.left
  have right := wrote.right
  rw [Console.putOther]
  split_ifs with margin
  · exact (wrote.setX (Int.le_refl 0) (by decide)).newLine
  · exact wrote.setX (by omega) (by omega)

/-- A space is followed by a word, or it is not in the last column. -/
theorem putSpace (on : s.OnScreen) (fits : rest ≠ [] ∨ s.curX ≠ 79) :
    (s.putSpace rest).OnScreen := by
  have wrote : (s.writeCharacter (char ' ')).OnScreen := on.writeCharacter
  have left := wrote.left
  have right := wrote.right
  have same : (s.writeCharacter (char ' ')).curX = s.curX := rfl
  rw [Console.putSpace]
  split_ifs with long
  · exact (wrote.setX (Int.le_refl 0) (by decide)).newLine
  · have pos : rest ≠ [] → 0 < nextWordLength rest := by
      intro more
      cases rest with
      | nil => exact absurd rfl more
      | cons c rest =>
        rw [nextWordLength]
        split_ifs <;> omega
    refine wrote.setX (by omega) ?_
    rcases fits with more | inner
    · have := pos more
      omega
    · omega

theorem putTab (on : s.OnScreen) (inner : s.curX ≤ 71) : s.putTab.OnScreen := by
  have left := on.left
  rw [Console.putTab, if_neg (by omega)]
  exact on.setX (by omega) (by omega)

end OnScreen

/-! ## Left of the screen -/

/-- The cursor is `k` tabs left of column 1. -/
structure Aside (k : Nat) (s : Console) : Prop where
  column : s.curX = 1 - 4 * k
  top : 0 ≤ s.curY
  bottom : s.curY ≤ 24
  written : ∀ w ∈ s.vga.written, Visible w

theorem wrap_of_left (left : s.curX < 0) : s.wrap = s := by
  have inner : ¬ 79 < s.curX := by omega
  have apart : ¬ (s.curX = 79 ∧ s.curY = 24) := by omega
  rw [Console.wrap, if_neg inner, if_neg apart]

theorem putTab_column : s.putTab.curX = if 71 < s.curX then -75 else s.curX + 4 := by
  have column : s.newLine.curX = 0 := by
    rw [Console.newLine]
    split_ifs <;> rfl
  change (if 71 < s.curX then { s.newLine with curX := 4 - (79 - s.newLine.curX) }
    else { s with curX := s.curX + 4 }).curX = _
  split_ifs
  · dsimp only
    omega
  · rfl

theorem OnScreen.putTab_margin (on : s.OnScreen) (margin : 71 < s.curX) : Aside 19 s.putTab := by
  have line := (on.setX (Int.le_refl 0) (by decide)).newLine
  have column : s.putTab.curX = -75 := putTab_column.trans (if_pos margin)
  rw [Console.putTab, if_pos (by omega)] at column ⊢
  exact ⟨column, line.top, line.bottom, line.written⟩

namespace Aside

theorem onScreen (aside : Aside 0 s) : s.OnScreen := by
  have column := aside.column
  exact ⟨by omega, by omega, aside.top, aside.bottom, aside.written⟩

theorem start (aside : Aside k s) : { s with curX := 0 }.OnScreen :=
  ⟨Int.le_refl 0, Int.zero_le_ofNat 79, aside.top, aside.bottom, aside.written⟩

theorem left (aside : Aside (k + 1) s) : s.curX < 0 := by
  have column := aside.column
  omega

theorem putTab (aside : Aside (k + 1) s) : Aside k s.putTab := by
  have column := aside.column
  have next : s.putTab.curX = s.curX + 4 := putTab_column.trans (if_neg (by omega))
  have same : s.putTab.vga = s.vga ∧ s.putTab.curY = s.curY := by
    rw [Console.putTab, if_neg (by omega)]
    exact ⟨rfl, rfl⟩
  exact ⟨by omega, same.2 ▸ aside.top, same.2 ▸ aside.bottom, same.1 ▸ aside.written⟩

end Aside

/-! ## What was written stays written -/

theorem written_newLine : s.newLine.vga.written = s.vga.written := by
  rw [Console.newLine]
  split_ifs
  · exact written_scroll
  · rfl

theorem written_wrap : s.wrap.vga.written = s.vga.written := by
  rw [Console.wrap]
  split_ifs <;> first | exact written_scroll | rfl

theorem written_writeCharacter :
    (s.writeCharacter c).vga.written =
      s.vga.written ++ [(BitVec.ofInt 8 s.curX, BitVec.ofInt 8 s.curY)] := rfl

theorem written_putSpace :
    (s.putSpace rest).vga.written = (s.writeCharacter (char ' ')).vga.written := by
  rw [Console.putSpace]
  split_ifs
  · exact written_newLine
  · rfl

theorem written_putOther : (s.putOther c).vga.written = (s.writeCharacter c).vga.written := by
  rw [Console.putOther]
  split_ifs
  · exact written_newLine
  · rfl

theorem written_putChar : s.vga.written ⊆ (putChar c rest s).vga.written := by
  intro w mem
  rw [putChar]
  split_ifs
  · rw [written_putSpace]
    exact List.mem_append_left _ mem
  · rwa [written_newLine]
  · rw [Console.putBackspace]
    split_ifs
    · exact mem
    · exact List.mem_append_left _ mem
    · exact List.mem_append_left _ mem
  · rw [Console.putTab]
    split_ifs
    · exact written_newLine.symm ▸ mem
    · exact mem
  · exact mem
  · exact written_clearScreen ▸ List.mem_append_left _ mem
  · rw [written_putOther]
    exact List.mem_append_left _ mem

theorem written_printChars : s.vga.written ⊆ (printChars text s).vga.written := by
  induction text generalizing s with
  | nil => exact fun w mem => mem
  | cons c rest ih =>
    rw [printChars]
    rw [← written_wrap]
    split_ifs
    · exact fun w mem => mem
    · exact fun w mem => ih (written_putChar mem)

/-! ## A round that goes wrong -/

theorem OnScreen.putChar (on : s.OnScreen) (straight : ¬ Astray c rest s) :
    (putChar c rest s).OnScreen ∨ Aside 19 (putChar c rest s) ∧ Returns 19 rest := by
  rw [Console.putChar]
  split_ifs with space line back tab start feed
  · have fits : rest ≠ [] ∨ s.curX ≠ 79 := by
      by_contra last
      rw [not_or, not_not, not_not] at last
      exact straight (.inr ⟨space, last⟩)
    exact .inl (on.putSpace fits)
  · exact .inl (on.setX (Int.le_refl 0) (by decide)).newLine
  · exact .inl on.putBackspace
  · by_cases inner : s.curX ≤ 71
    · exact .inl (on.putTab inner)
    · refine .inr ⟨on.putTab_margin (Int.lt_of_not_ge inner), ?_⟩
      by_contra lost
      exact straight (.inl ⟨tab, Int.lt_of_not_ge inner, lost⟩)
  · exact .inl (on.setX (Int.le_refl 0) (by decide))
  · exact .inl (OnScreen.cls on.written)
  · exact .inl on.putOther

/-- A text that returns brings the cursor back. -/
theorem Aside.putChar (aside : Aside (k + 1) s) (back : Returns (k + 1) (c :: rest)) :
    c ≠ 0 ∧ ((Console.putChar c rest s).OnScreen ∨
      Aside k (Console.putChar c rest s) ∧ Returns k rest) := by
  rcases back with rfl | rfl | rfl | ⟨rfl, more⟩
  · exact ⟨by decide, .inl aside.start.newLine⟩
  · exact ⟨by decide, .inl aside.start⟩
  · exact ⟨by decide, .inl (OnScreen.cls aside.written)⟩
  · exact ⟨by decide, .inr ⟨aside.putTab, more⟩⟩

/-- On the screen, or left of it with a text that returns. -/
def Steady (text : List U8) (s : Console) : Prop :=
  s.OnScreen ∨ ∃ k, Aside k s ∧ Returns k text

theorem Steady.round (steady : Steady (c :: rest) s) (straight : ¬ Astray c rest s.wrap) :
    Steady rest (putChar c rest s.wrap) ∧ (c = 0 → s.wrap.OnScreen) := by
  have on_screen {t : Console} (on : t.OnScreen) (straight : ¬ Astray c rest t) :
      Steady rest (putChar c rest t) :=
    (on.putChar straight).imp_right fun away => ⟨19, away⟩
  rcases steady with on | ⟨k, aside, back⟩
  · exact ⟨on_screen on.wrap.1 straight, fun _ => on.wrap.1⟩
  · cases k with
    | zero => exact ⟨on_screen aside.onScreen.wrap.1 straight, fun _ => aside.onScreen.wrap.1⟩
    | succ k =>
      rw [wrap_of_left aside.left]
      obtain ⟨more, next⟩ := aside.putChar back
      exact ⟨next.imp_right fun away => ⟨k, away⟩, fun zero => absurd zero more⟩

theorem Steady.printChars (steady : Steady text s)
    (straight : ∀ c rest t, Reaches text s (c :: rest) t → ¬ Astray c rest t.wrap) :
    (printChars text s).OnScreen := by
  induction text generalizing s with
  | nil =>
    rcases steady with on | ⟨k, aside, back⟩
    · exact on
    · cases k with
      | zero => exact aside.onScreen
      | succ k => exact back.elim
  | cons c rest ih =>
    obtain ⟨next, ends⟩ := steady.round (straight c rest s .here)
    rw [Console.printChars]
    split_ifs with zero
    · exact ends zero
    · exact ih next fun c' rest' t reached => straight c' rest' t (.round zero reached)

/-- Left of the screen, a text that does not return is printed there, or ends there. -/
theorem lost (column : s.curX = 1 - 4 * (k + 1 : Nat)) (few : k < 19)
    (away : ¬ Returns (k + 1) text) : ¬ (printChars text s).OnScreen := by
  intro on
  induction text generalizing s k with
  | nil =>
    have left := on.left
    rw [printChars] at left
    omega
  | cons c rest ih =>
    rw [printChars, wrap_of_left (by omega)] at on
    -- what is written left of the screen is not on it
    have hidden {x : Int} {t : Console} (left : x < 0) (near : -100 < x)
        (mem : (BitVec.ofInt 8 x, BitVec.ofInt 8 s.curY) ∈ t.vga.written)
        (on : (printChars rest t).OnScreen) : False := by
      obtain ⟨column, -⟩ := on.written _ (written_printChars mem)
      simp only [BitVec.toNat_ofInt] at column
      omega
    split_ifs at on with zero
    · have left := on.left
      omega
    · rw [putChar] at on
      split_ifs at on with space line back tab start feed
      · refine hidden (x := s.curX) (by omega) (by omega) ?_ on
        rw [written_putSpace]
        exact List.mem_append_right _ (List.mem_singleton.mpr rfl)
      · exact away (.inl line)
      · rw [putBackspace, if_neg (by omega), if_neg (by omega)] at on
        exact hidden (x := s.curX - 1) (by omega) (by omega)
          (List.mem_append_right _ (List.mem_singleton.mpr rfl)) on
      · cases k with
        | zero => exact away (.inr (.inr (.inr ⟨tab, trivial⟩)))
        | succ k =>
          have next : s.putTab.curX = s.curX + 4 := putTab_column.trans (if_neg (by omega))
          refine ih (k := k) (by omega) (by omega) (fun more => ?_) on
          exact away (.inr (.inr (.inr ⟨tab, more⟩)))
      · exact away (.inr (.inl start))
      · exact away (.inr (.inr (.inl feed)))
      · refine hidden (x := s.curX) (by omega) (by omega) ?_ on
        rw [written_putOther]
        exact List.mem_append_right _ (List.mem_singleton.mpr rfl)

theorem Astray.lost (astray : Astray c rest s.wrap) : ¬ (printChars (c :: rest) s).OnScreen := by
  rw [printChars]
  rcases astray with ⟨rfl, margin, away⟩ | ⟨rfl, rfl, margin⟩
  · rw [if_neg (by decide)]
    exact Console.lost (k := 18) (putTab_column.trans (if_pos margin)) (by decide) away
  · rw [if_neg (by decide)]
    intro on
    have right := on.right
    change (s.wrap.putSpace []).curX ≤ 79 at right
    have inner : ¬ 79 < nextWordLength [] + (s.wrap.writeCharacter (char ' ')).curX := by
      change ¬ 79 < (0 : Int) + s.wrap.curX
      omega
    rw [putSpace, if_neg inner] at right
    change s.wrap.curX + 1 ≤ 79 at right
    omega

/-! ## Every text -/

theorem Reaches.lost (reached : Reaches text s (c :: rest) t) (astray : Astray c rest t.wrap) :
    ¬ (printChars text s).OnScreen := by
  intro on
  generalize goal : c :: rest = left at reached
  induction reached with
  | here =>
    subst goal
    exact astray.lost on
  | round more _ ih =>
    rw [printChars, if_neg more] at on
    exact ih astray on goal

/--
From a cursor on the screen, a call of `print` writes on the screen only and leaves the cursor on it
if and only if no round goes astray.
-/
theorem print_onScreen_iff (toPrint : CString) (length : U32) (s : Console) (on : s.OnScreen) :
    (print toPrint length s).OnScreen ↔
      ∀ c rest t, Reaches (toPrint.text length) s (c :: rest) t → ¬ Astray c rest t.wrap := by
  constructor
  · intro ends c rest t reached astray
    exact reached.lost astray ends
  · exact Steady.printChars (.inl on)

/-- An empty screen with the cursor in a column of the first row. -/
def firstRow (x : Int) : Console := ⟨x, 0, 0, ⟨fun _ => 0, 0x0f, []⟩⟩

theorem firstRow_onScreen {x : Int} (left : 0 ≤ x) (right : x ≤ 79) : (firstRow x).OnScreen :=
  ⟨left, right, Int.le_refl 0, Int.zero_le_ofNat 24, fun _ mem => absurd mem List.not_mem_nil⟩

/-- The text of one character. -/
def single (c : U8) : CString := ⟨fun n => if n = 0 then c else 0, 1, rfl⟩

/-- Without tabs, and with no blank at the end, nothing goes astray. -/
theorem Reaches.straight (reached : Reaches text s (c :: rest) t) (tabs : char '\t' ∉ text)
    (blank : text.getLast? ≠ some (char ' ')) (u : Console) : ¬ Astray c rest u := by
  obtain ⟨before, rfl⟩ := reached.suffix
  rintro (⟨rfl, -⟩ | ⟨rfl, rfl, -⟩)
  · exact tabs (List.mem_append_right _ List.mem_cons_self)
  · exact blank List.getLast?_concat

/-- Three words and an empty line. -/
def words : CString := ⟨fun n => [char 'o', char 'n', char 'e', char ' ', char 't', char 'w', char 'o',
  char '\n', char '\n', char 's', char 'i', char 'x'].getD n 0, 12, rfl⟩

/-- The second word does not fit into the first row. -/
theorem print_words_onScreen : (print words 12 (firstRow 74)).OnScreen :=
  (print_onScreen_iff words 12 (firstRow 74) (firstRow_onScreen (by decide) (by decide))).mpr
    fun _ _ t reached => reached.straight (by decide) (by decide) t.wrap

/-- A tab in column 75 leads to column -75. -/
theorem print_tab_offScreen :
    (firstRow 75).OnScreen ∧ ¬ (print (single (char '\t')) 1 (firstRow 75)).OnScreen := by
  refine ⟨firstRow_onScreen (by decide) (by decide), fun on => ?_⟩
  have column : (print (single (char '\t')) 1 (firstRow 75)).curX = -75 := rfl
  have left := on.left
  omega

end ChudOS.Console
