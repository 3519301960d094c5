import ChudOS.Devices.Display
import ChudOS.Libraries.Numbers

/-!
# The console

`print` of `std.c` and what it calls. The loop over the characters is a recursion on those that are
left; arithmetic on the cursor is that of integers.
-/

namespace ChudOS

structure Console where
  curX : Int
  curY : Int
  snapshotY : Int
  vga : Vga

/-- A text in memory, with what lies behind its end. -/
structure CString where
  bytes : Nat → U8
  terminated : ∃ n, bytes n = 0

/-- `calculate_string_length`, as an `int`. -/
def CString.length (s : CString) : U32 := BitVec.ofNat 32 (Nat.find s.terminated)

/-- The characters over which `print` goes. -/
def CString.text (s : CString) (length : U32) : List U8 :=
  (List.range (if length = 0 then s.length else length).toInt.toNat).map s.bytes

/-- The length of the next word with the space behind it. -/
def nextWordLength : List U8 → Nat
  | [] => 0
  | c :: rest => if c = char ' ' then 1 else nextWordLength rest + 1

namespace Console

def writeCharacter (character : U8) (s : Console) : Console :=
  { s with vga := s.vga.writeCharacter character (BitVec.ofInt 8 s.curX) (BitVec.ofInt 8 s.curY) }

def scroll (n : Int) (s : Console) : Console :=
  { s with curX := 0, snapshotY := s.snapshotY - 1, vga := s.vga.scroll n }

def newLine (s : Console) : Console :=
  if s.curY = 24 then s.scroll 1 else { s with curX := 0, curY := s.curY + 1 }

def cls (s : Console) : Console := { s with curX := 0, curY := 0, vga := s.vga.clearScreen }

/-- The search for the end of the line above, from column `i` on with `left` columns to go. -/
def lineEnd (v : Vga) (y : Int) (curX : Int) (i : Nat) : Nat → Int
  | 0 => curX
  | left + 1 =>
    let scan := v.readCharacter i y
    let nextScan := v.readCharacter (i + 1) y
    if scan = char ' ' ∧ nextScan = char ' ' then i
    else if scan = char ' ' ∧ i = 79 then i
    else lineEnd v y 79 (i + 1) left

/-- The tests at the start of a round. -/
def wrap (s : Console) : Console :=
  let s := if 79 < s.curX then { s with curX := 0, curY := s.curY + 1 } else s
  if s.curX = 79 ∧ s.curY = 24 then s.scroll 1 else s

def putSpace (rest : List U8) (s : Console) : Console :=
  let s := s.writeCharacter (char ' ')
  if 79 < nextWordLength rest + s.curX then s.newLine else { s with curX := s.curX + 1 }

def putBackspace (s : Console) : Console :=
  if s.curX = 0 ∧ s.curY = 0 then s
  else if s.curX = 0 then
    let y := s.curY - 1
    { s with curX := lineEnd s.vga y s.curX 0 80, curY := y }.writeCharacter (char ' ')
  else { s with curX := s.curX - 1 }.writeCharacter (char ' ')

def putTab (s : Console) : Console :=
  if 79 - 8 < s.curX then
    let s := s.newLine
    { s with curX := 4 - (79 - s.curX) }
  else { s with curX := s.curX + 4 }

def putOther (c : U8) (s : Console) : Console :=
  let s := s.writeCharacter c
  if s.curX = 79 then s.newLine else { s with curX := s.curX + 1 }

/-- The round for `c`, with `rest` behind it. -/
def putChar (c : U8) (rest : List U8) (s : Console) : Console :=
  if c = char ' ' then s.putSpace rest
  else if c = char '\n' then s.newLine
  else if c = char '\x08' then s.putBackspace
  else if c = char '\t' then s.putTab
  else if c = char '\r' then { s with curX := 0 }
  else if c = char '\x0c' then s.cls
  else s.putOther c

def printChars : List U8 → Console → Console
  | [], s => s
  | c :: rest, s => if c = 0 then s.wrap else printChars rest (putChar c rest s.wrap)

def print (toPrint : CString) (length : U32) (s : Console) : Console :=
  printChars (toPrint.text length) s

end Console

end ChudOS
