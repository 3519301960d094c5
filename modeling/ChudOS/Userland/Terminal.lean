import ChudOS.Devices.Display
import ChudOS.Libraries.Numbers
import ChudOS.Library.Loop

/-!
# The virtual terminals

`virtualprint` and `refreshTerminals` of `terminal.c`. The two nested loops of the latter are one
loop, whose rounds are those of the inner loop and the ends of the rows. What it gives to
`WriteCharacter` for a terminal is kept as a list of calls.
-/

namespace ChudOS

structure Terminal where
  /-- `bytes`, and the memory behind it. -/
  bytes : Nat → U8
  lastPos : U64
  w : Int
  h : Int
  visible : Bool
  x : U8
  y : U8
  /-- `name`, and the memory behind it. -/
  name : Nat → U8
  nameLen : U8
  fg : U8
  bg : U8

/-- A call of `WriteCharacter`, with `VGA_CUR_COLOR`. -/
structure WriteCall where
  character : U8
  column : U8
  row : U8
  color : U8
  deriving DecidableEq

def Vga.perform (v : Vga) (call : WriteCall) : Vga :=
  { v with color := call.color }.writeCharacter call.character call.column call.row

namespace Terminal

/-- The local variables of `refreshTerminals`, and what it has done to a terminal. -/
structure Draw where
  bytes : Nat → U8
  lastPos : U64
  curX : Int
  curY : Int
  curI : Nat
  skip : Int
  tlen : Int
  firstnewline : Nat
  x : Int
  y : Int
  /-- No access was to a byte behind `bytes`. -/
  inside : Bool
  calls : List WriteCall

variable (t : Terminal)

/-- The row of the name, above the text. -/
def title : List WriteCall :=
  (List.range t.w.toNat).filterMap fun (n : Nat) =>
    let nx : Int := t.x.toNat + n
    let color := textColor (~~~t.fg &&& 0xf) (~~~t.bg &&& 0xf)
    if nx ≤ 80 ∧ n < t.nameLen.toNat then some ⟨t.name n, BitVec.ofInt 8 nx, t.y, color⟩
    else if nx ≤ 80 then some ⟨char ' ', BitVec.ofInt 8 nx, t.y, color⟩
    else none

def start : Draw where
  bytes := t.bytes
  lastPos := t.lastPos
  curX := t.x.toNat
  curY := t.y.toNat + 1
  curI := 0
  skip := 0
  tlen := 0
  firstnewline := 0
  x := 0
  y := 0
  inside := true
  calls := t.title

/-- `WriteCharacter` at the current position. -/
def draw (c : U8) (s : Draw) : Draw :=
  { s with
    calls := s.calls ++
      [⟨c, BitVec.ofInt 8 s.curX, BitVec.ofInt 8 s.curY, textColor t.fg t.bg⟩] }

/-- What the inner loop does with the next character `c`. -/
def put (c : U8) (s : Draw) : Draw :=
  if 25 < s.curY ∨ 80 < s.curX then { s with curX := s.curX + 1 }
  else if 1 < s.skip then
    { t.draw 0 s with skip := s.skip - 1, curX := s.curX + 1, tlen := s.tlen + 1 }
  else if c = char '\n' then
    let diff := t.w - s.x
    { s with
      skip := diff
      curI := s.curI + 1
      tlen := s.tlen + diff
      firstnewline := if s.firstnewline = 0 then s.curI + 1 else s.firstnewline }
  else if c = char '\x08' then
    { s with x := s.x - 1, curX := s.curX - 1, curI := s.curI + 1, tlen := s.tlen - 1 }
  else if c = char '\t' then { s with skip := s.skip + 4, curI := s.curI + 1, tlen := s.tlen + 4 }
  else if c = char '\r' then s
  else if c = 0 then { t.draw c s with curX := s.curX + 1, curI := s.curI + 1 }
  else { t.draw c s with curX := s.curX + 1, curI := s.curI + 1, tlen := s.tlen + 1 }

/-- The text moves up, and its first line is lost. -/
def deleteFirstLine (s : Draw) : Draw :=
  { s with
    lastPos := 0
    bytes := fun i =>
      if i < 2000 - s.firstnewline then s.bytes (i + s.firstnewline) else s.bytes i
    inside := s.inside && decide (s.firstnewline ≤ 2000) }

/-- A round of the inner loop. -/
def cell (s : Draw) : Draw :=
  let c := s.bytes s.curI
  let s := t.put c { s with inside := s.inside && decide (s.curI < 2000) }
  let s := if t.w * t.h < s.tlen then deleteFirstLine s else s
  { s with x := s.x + 1 }

def endRow (s : Draw) : Draw :=
  { s with x := 0, y := s.y + 1, curX := t.x.toNat, curY := s.curY + 1 }

def round (s : Draw) : Draw := if s.x < t.w then t.cell s else t.endRow s

def done (s : Draw) : Prop := t.h ≤ s.y

instance : DecidablePred t.done := fun s => inferInstanceAs (Decidable (t.h ≤ s.y))

/-- One terminal, in at most as many rounds. -/
def refresh (rounds : Nat) : Option Draw :=
  if t.visible then Loop.run t.done t.round rounds t.start
  else some { t.start with calls := [] }

/-- The screen with a terminal drawn on it. -/
def display (v : Vga) (d : Draw) : Vga :=
  if t.visible then { d.calls.foldl Vga.perform v with color := textColor t.fg t.bg } else v

/-! ## Printing -/

/-- The length of a string, up to 128 characters. -/
def textLength (src : Nat → U8) : Nat := ((List.range 128).find? fun i => src i = 0).getD 128

/-- There is no room for `len` more bytes. -/
def nadd (len : Nat) : Bool := BitVec.ofInt 64 (t.w * t.h) < t.lastPos + BitVec.ofNat 64 len

/-- Where `virtualprint` puts so many bytes. -/
def position (len : Nat) : U64 := if t.nadd len then 0 else t.lastPos

/-- What `virtualprint` does to its terminal before it draws all of them. -/
def store (src : Nat → U8) : Terminal :=
  let len := textLength src
  let pos := t.position len
  { t with
    bytes := fun i =>
      if pos.toNat ≤ i ∧ i < pos.toNat + len then src (i - pos.toNat) else t.bytes i
    lastPos := if t.nadd len then pos else pos + BitVec.ofNat 64 len }

end Terminal

def refreshAll (rounds : Nat) : List Terminal → Option (List Terminal.Draw)
  | [] => some []
  | t :: ts => do
    let d ← t.refresh rounds
    let ds ← refreshAll rounds ts
    return d :: ds

/-- `refreshTerminals`: the terminals afterwards, what was drawn for each, and the screen. -/
def refreshTerminals (rounds : Nat) (terminals : List Terminal) (v : Vga) :
    Option (List Terminal × List Terminal.Draw × Vga) := do
  let draws ← refreshAll rounds terminals
  let drawn := terminals.zip draws
  return (drawn.map fun (t, d) => { t with bytes := d.bytes, lastPos := d.lastPos }, draws,
    drawn.foldl (fun v (t, d) => t.display v d) v.clearScreen)

def virtualprint (rounds tid : Nat) (src : Nat → U8) (terminals : List Terminal) (v : Vga) :
    Option (List Terminal × List Terminal.Draw × Vga) :=
  refreshTerminals rounds (terminals.modify tid fun t => t.store src) v

end ChudOS
