import ChudOS.Userland.Tasks

/-!
# The keyboard interrupt

Scancodes build a line; `enter` copies it to the first task that waits for input.
-/

namespace ChudOS

def ascii (s : String) : List U8 := s.toList.map fun c => BitVec.ofNat 8 c.toNat

def keypadCodes : List U8 := ascii "789-456+1230." ++ [0, 0]

def keyCodeLookupTable : List U8 :=
  [0, 27] ++ ascii "1234567890-=" ++ [8, 9] ++ ascii "qwertyuiop[]" ++ [0, 0] ++
    ascii "asdfghjkl;" ++ [0x27] ++ ascii "`" ++ [0] ++ ascii "\\zxcvbnm,./" ++ [0] ++ ascii "*" ++
    [0] ++ ascii " " ++ List.replicate 12 0 ++ keypadCodes

def keyCodeLookupTableShift : List U8 :=
  [0, 27] ++ ascii "!@#$%^&*()_+" ++ [8, 9] ++ ascii "QWERTYUIOP\x7b\x7d" ++ [0, 0] ++
    ascii "ASDFGHJKL:\"~" ++ [0] ++ ascii "|ZXCVBNM<>?" ++ [0] ++ ascii "*" ++
    [0] ++ ascii " " ++ List.replicate 12 0 ++ keypadCodes

def keyCodeEnter : U8 := 28
def keyCodeLShift : U8 := 42
def keyCodeRShift : U8 := 54
def keyCodeCapslock : U8 := 58
def keyCodeF12 : U8 := 85

def keyCodeToChar (k : Kernel) (keycode : U8) : U8 :=
  if k.upper ^^ k.capslock then keyCodeLookupTableShift.getD keycode.toNat 0
  else keyCodeLookupTable.getD keycode.toNat 0

def keycodeIsPrintable (keycode : U8) : Bool := keyCodeLookupTable.getD keycode.toNat 0 != 0

/-- The first task that waits for input, or 512. -/
def getWaitingProgram (k : Kernel) : Nat :=
  ((List.range 512).find? fun i =>
    (k.taskManager i).exist && (k.taskManager i).processState == .waiting &&
      (k.taskManager i).waitingReason == .input).getD 512

/-- A printable key edits the line. -/
def typeKey (k : Kernel) (toPrint : U8) : Kernel :=
  let pos := k.keyBufferPos
  if toPrint = 8 ∧ 0 < pos then { k with keyBufferPos := pos - 1 }
  else if toPrint = 9 ∧ pos < 252 then
    { k with
      keyBuffer := fun i => if pos + 1 ≤ i ∧ i < pos + 5 then 32 else k.keyBuffer i
      keyBufferPos := pos + 4 }
  else if pos < 256 then
    { k with keyBuffer := Function.update k.keyBuffer pos toPrint, keyBufferPos := pos + 1 }
  else k

/-- `enter`: the line goes to the buffer the waiting task named in `rbx` and `rcx`. -/
def deliverLine (k : Kernel) (pid : Nat) : Option Kernel := do
  let waiting := k.taskManager pid
  let len := min k.keyBufferPos waiting.savedRegisters.rcx.toNat
  let prevPML4 := k.mem.paging.pml4Physical
  let k := k.setCr3 waiting.basePML4
  let m ← copyOut k.mem waiting.savedRegisters.rbx ((List.range len).map k.keyBuffer)
  let k := { k with mem := m, keyBuffer := fun _ => 0, keyBufferPos := 0 }
  let k := k.setTask pid { k.taskManager pid with waitingReason := .null, processState := .ready }
  some (k.setCr3 prevPML4)

/-- What a key does, by its code and whether it was released. -/
def handleKey (k : Kernel) (keycode : U8) (release : Bool) : Option Kernel :=
  if keycode = keyCodeLShift ∨ keycode = keyCodeRShift then some { k with upper := !release }
  else if keycode = keyCodeCapslock then some { k with capslock := !k.capslock }
  else if 0 < keycode ∧ keycode ≤ keyCodeF12 ∧ release = false then
    if keycodeIsPrintable keycode then some (typeKey k (keyCodeToChar k keycode))
    else if keycode = keyCodeEnter ∧ getWaitingProgram k ≠ 512 then
      deliverLine k (getWaitingProgram k)
    else some k
  else some k

/-- `status` is what port `0x64` shows and `scancode` what port `0x60` then holds. -/
def handleKeyboardInterrupt (k : Kernel) (regs : InterruptRegisters) (status scancode : U8) :
    Option (Kernel × InterruptRegisters) :=
  let k := k.setRegisters k.curPid regs
  if status &&& 1 = 0 then some (k, regs)
  else do
    let release := decide (0x81 ≤ scancode) && decide (scancode ≤ 0xD8)
    let k ← handleKey k (if release then scancode - 0x80 else scancode) release
    some (k, regs)

end ChudOS
