import ChudOS.LowLevel.Memory
import Mathlib.Data.List.Range

/-!
# The text screen

The parts of `VGA.c` that the console and the terminals use. The positions given to `WriteCharacter`
are kept, the first one first.
-/

namespace ChudOS

/-- `VGA_CUR_COLOR` after `SetTextColor`. -/
def textColor (foreground background : U8) : U8 := background <<< 4 ||| foreground

structure Vga where
  /-- The memory from `vga_buffer` on. -/
  cells : Int → U8
  /-- `VGA_CUR_COLOR`. -/
  color : U8
  /-- The column and the row of each character written. -/
  written : List (U8 × U8)

namespace Vga

def writeCharacter (character x y : U8) (v : Vga) : Vga :=
  let offset : Int := (y.toNat * 80 + x.toNat) * 2
  { v with
    cells := fun a =>
      if a = offset then character else if a = offset + 1 then v.color else v.cells a
    written := v.written ++ [(x, y)] }

def readCharacter (x y : Int) (v : Vga) : U8 := v.cells ((y * 80 + x) * 2)

def clearLine (y : U8) (v : Vga) : Vga :=
  (List.range 80).foldl (fun v i => v.writeCharacter 32 (BitVec.ofNat 8 i) y) v

def clearScreen (v : Vga) : Vga :=
  (List.range 25).foldl (fun v i => v.clearLine (BitVec.ofNat 8 i)) v

/-- `VGA_Scroll`, which moves 80 lines. -/
def scroll (n : Int) (v : Vga) : Vga :=
  if n ≤ 0 then v
  else (List.range 80).foldl (fun v i => { v with
    cells := fun a =>
      if 160 * (i : Int) ≤ a ∧ a < 160 * i + 160 then v.cells (a + n * 160) else v.cells a }) v

/-! ## What is written -/

/-- A position on the screen. -/
def Visible (w : U8 × U8) : Prop := w.1.toNat < 80 ∧ w.2.toNat < 25

variable {v : Vga} {n : Int}

@[simp] theorem written_writeCharacter (character x y : U8) :
    (v.writeCharacter character x y).written = v.written ++ [(x, y)] := rfl

@[simp] theorem written_scroll : (v.scroll n).written = v.written := by
  rw [scroll]
  split_ifs with none
  · rfl
  · exact List.foldlRecOn (motive := fun w : Vga => w.written = v.written) _ _ rfl
      fun _ same _ _ => same

theorem written_clearLine (y : U8) : (v.clearLine y).written =
    v.written ++ (List.range 80).map fun i => (BitVec.ofNat 8 i, y) := by
  rw [clearLine]
  generalize List.range 80 = columns
  induction columns generalizing v with
  | nil => simp
  | cons i columns ih =>
    rw [List.foldl_cons, ih, written_writeCharacter, List.append_assoc]
    rfl

theorem written_clearScreen : v.clearScreen.written = v.written ++
    (List.range 25).flatMap fun j => (List.range 80).map fun i =>
      (BitVec.ofNat 8 i, BitVec.ofNat 8 j) := by
  rw [clearScreen]
  generalize List.range 25 = rows
  induction rows generalizing v with
  | nil => simp
  | cons j rows ih =>
    rw [List.foldl_cons, ih, written_clearLine, List.append_assoc]
    rfl

/-- A cleared screen is written on the screen only. -/
theorem visible_clearScreen {w : U8 × U8} (mem : w ∈ v.clearScreen.written) :
    w ∈ v.written ∨ Visible w := by
  rw [written_clearScreen, List.mem_append] at mem
  refine mem.imp_right fun cleared => ?_
  obtain ⟨j, row, line⟩ := List.mem_flatMap.mp cleared
  obtain ⟨i, column, rfl⟩ := List.mem_map.mp line
  rw [List.mem_range] at row column
  constructor <;> simp only [BitVec.toNat_ofNat] <;> omega

end Vga

end ChudOS
