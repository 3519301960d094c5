import ChudOS.Libraries.Numbers

/-!
# printf

The three scanners of a format and the loop over its conversions. `toPrint : Int → U8` is the memory
around the format; each function returns the indexes it reads.
-/

namespace ChudOS

inductive PrintfType
  | null | int | hex | bin | char | str | percent
  deriving DecidableEq

def printfTypeOf (c : U8) : PrintfType :=
  if c = char 'i' ∨ c = char 'd' then .int
  else if c = char 'x' then .hex
  else if c = char 'b' then .bin
  else if c = char 'c' then .char
  else if c = char 's' then .str
  else if c = char '%' then .percent
  else .null

/-- The loop of `printf_get_type` with `left` characters to go; at the end nothing is returned. -/
def getTypeFrom (toScan : Int → U8) (index : Nat) (unset : PrintfType) (cur : Int) (seen : Nat) :
    Nat → PrintfType × List Int
  | 0 => (unset, [])
  | left + 1 =>
    let look := if cur = 0 then [] else [cur - 1]
    if cur ≠ 0 ∧ toScan (cur - 1) = char '%' then
      if seen + 1 ≠ index then
        let (type, reads) := getTypeFrom toScan index unset (cur + 1) (seen + 1) left
        (type, look ++ reads)
      else (printfTypeOf (toScan cur), look ++ [cur])
    else
      let (type, reads) := getTypeFrom toScan index unset (cur + 1) seen left
      (type, look ++ reads)

def printfGetType (toScan : Int → U8) (length index : Nat) (unset : PrintfType) :
    PrintfType × List Int :=
  getTypeFrom toScan (index + 1) unset 0 0 length

/-- `length--` comes before the body. -/
def printfScanLength (toScan : Int → U8) : Nat → Nat × List Int
  | 0 => (0, [])
  | length + 1 =>
    let (ret, reads) := printfScanLength toScan length
    let one := toScan (length - 1) = char '%'
    (ret + if one ∧ toScan (length - 2) ≠ char '%' then 1 else 0,
      (length - 1 : Int) :: (if one then [(length - 2 : Int)] else []) ++ reads)

/-- The conversion from `i` on, if there is one, with the number of loops before. -/
def nextConversion (toPrint : Int → U8) (i : Int) : Nat → Option Nat × List Int
  | 0 => (none, [])
  | left + 1 =>
    let percent := toPrint i = char '%'
    let alone := toPrint (i + 1) ≠ char '%'
    let look := i :: (if percent then (i + 1) :: if alone then [i - 1] else [] else [])
    if percent ∧ alone ∧ toPrint (i - 1) ≠ char '%' then (some 0, look)
    else
      let (found, reads) := nextConversion toPrint (i + 1) left
      (found.map (· + 1), look ++ reads)

/-- The text that is printed, `ret`, and the reads; without a conversion `ret` is not set. -/
def printfPrintFrom (toPrint : Int → U8) (length start unset : Int) :
    Option (List U8) × Int × List Int :=
  let left := (length - start).toNat
  let (found, reads) := nextConversion toPrint start left
  let ret := match found with
    | some loop => start + loop + 2
    | none => unset
  let loop := found.getD left
  let places := (List.range loop).map fun (k : Nat) => start + (k : Int)
  if loop = 0 then (none, ret, reads) else (some (places.map toPrint), ret, reads ++ places)

/-- What `printf` has done so far. -/
structure PrintfState where
  cur : Int
  variablePrint : Buffer U8
  taken : Nat
  printed : List (List U8)
  reads : List Int

/-- What was in memory before: in the local buffers and the variables that are not set. -/
structure PrintfGarbage where
  variablePrint : Int → U8
  tempBuffer : Int → U8
  ret : Nat → Int
  type : Nat → PrintfType

/-- The text in a buffer, as `print` finds it without a length. -/
def terminatedText (buffer : Buffer U8) : List U8 :=
  (List.range (buffer.scan.getD buffer.size)).map fun (k : Nat) => buffer.cells k

def printNumber (format : U64 → Buffer U8 → U64 → U32 → (Int → U8) → Buffer U8)
    (args : Nat → U64) (garbage : PrintfGarbage) (s : PrintfState) : PrintfState :=
  let buffer := format (args s.taken) s.variablePrint 64 0 garbage.tempBuffer
  { s with variablePrint := buffer, taken := s.taken + 1,
           printed := s.printed ++ [terminatedText buffer] }

def printArgument (type : PrintfType) (args : Nat → U64) (garbage : PrintfGarbage)
    (s : PrintfState) : PrintfState :=
  match type with
  | .int => printNumber intToCharArray args garbage s
  | .hex => printNumber intToCharArrayHex args garbage s
  | .bin => printNumber intToCharArrayBinary args garbage s
  | .char =>
    let c := (args s.taken).setWidth 8
    -- a terminator alone is the empty text
    { s with taken := s.taken + 1, printed := s.printed ++ [if c = 0 then [] else [c]] }
  | .null | .str | .percent => s

def printNext (toPrint : Int → U8) (length i : Nat) (garbage : PrintfGarbage) (s : PrintfState) :
    PrintfState :=
  let (text, ret, reads) := printfPrintFrom toPrint length s.cur (garbage.ret i)
  { s with cur := ret, printed := s.printed ++ text.toList, reads := s.reads ++ reads }

/-- The loop over the arguments, `todo` of them to go, and the rest of the text. -/
def printfLoop (toPrint : Int → U8) (length : Nat) (args : Nat → U64) (garbage : PrintfGarbage)
    (i : Nat) : Nat → PrintfState → PrintfState
  | 0, s => printNext toPrint length i garbage s
  | todo + 1, s =>
    let s := printNext toPrint length i garbage s
    let (type, reads) := printfGetType toPrint length i (garbage.type i)
    let s := printArgument type args garbage { s with reads := s.reads ++ reads }
    printfLoop toPrint length args garbage (i + 1) todo s

/-- `length` is the length of the format, which `get_string_length` finds. -/
def printf (toPrint : Int → U8) (length : Nat) (args : Nat → U64) (garbage : PrintfGarbage) :
    PrintfState :=
  let (argsLength, reads) := printfScanLength toPrint length
  let whole := (List.range (length + 1)).map fun (k : Nat) => (k : Int)
  let s : PrintfState := ⟨0, ⟨64, garbage.variablePrint, true⟩, 0, [], whole ++ reads⟩
  if argsLength = 0 then
    { s with printed := [(List.range length).map fun (k : Nat) => toPrint k] }
  else printfLoop toPrint length args garbage 0 argsLength s

end ChudOS
