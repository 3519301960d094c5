import ChudOS.Libraries.Printf

/-!
# The expansion of a format

What `printf` is for, in pieces of a format, and when it does it.
-/

namespace ChudOS

inductive Conversion
  | i | d | x | b | c
  deriving DecidableEq

namespace Conversion

def letter : Conversion → U8
  | i => char 'i'
  | d => char 'd'
  | x => char 'x'
  | b => char 'b'
  | c => char 'c'

/-- The text of an argument. -/
def text (arg : U64) : Conversion → List U8
  | i | d => figures decimal arg.toNat
  | x => hexadecimal.lead ++ figures hexadecimal arg.toNat
  | b => binary.lead ++ figures binary arg.toNat
  | c => [arg.setWidth 8]

end Conversion

/-- A piece of a format; the terminator and the percent sign are no text. -/
inductive Piece
  | text (c : U8) (proper : c ≠ 0 ∧ c ≠ char '%')
  | conversion (kind : Conversion)
  | percent

def Piece.source : Piece → List U8
  | text c _ => [c]
  | conversion kind => [char '%', kind.letter]
  | percent => [char '%', char '%']

def source (ps : List Piece) : List U8 := ps.flatMap Piece.source

/-- The text for the arguments from the `k`-th on. -/
def expansion (args : Nat → U64) : Nat → List Piece → List U8
  | _, [] => []
  | k, .text c _ :: ps => c :: expansion args k ps
  | k, .conversion kind :: ps => kind.text (args k) ++ expansion args (k + 1) ps
  | k, .percent :: ps => char '%' :: expansion args k ps

def conversions (ps : List Piece) : Nat :=
  ps.countP fun | .conversion _ => true | _ => false

/-- A terminated text in memory. -/
def inMemory (text : List U8) (around : Int → U8) (i : Int) : U8 :=
  if i < 0 then around i else (text ++ [0]).getD i.toNat (around i)

structure Expands (ps : List Piece) (args : Nat → U64) (s : PrintfState) : Prop where
  printed : s.printed.flatten = expansion args 0 ps
  taken : s.taken = conversions ps
  reads : ∀ i ∈ s.reads, 0 ≤ i ∧ i ≤ (source ps).length

variable {ps : List Piece} {args : Nat → U64} {garbage : PrintfGarbage} {s : PrintfState}
  {toPrint around : Int → U8} {length i todo : Nat} {place : Int}

/-- The counter looks at the byte before the format. -/
theorem printfScanLength_reads : (-1 : Int) ∈ (printfScanLength toPrint (length + 1)).2 := by
  induction length with
  | zero => simp [printfScanLength]
  | succ length ih =>
    rw [printfScanLength]
    exact List.mem_append_right _ ih

theorem printNext_reads (mem : place ∈ s.reads) :
    place ∈ (printNext toPrint length i garbage s).reads :=
  List.mem_append_left _ mem

theorem printArgument_reads {type : PrintfType} :
    (printArgument type args garbage s).reads = s.reads := by
  cases type <;> rfl

theorem printfLoop_reads (mem : place ∈ s.reads) :
    place ∈ (printfLoop toPrint length args garbage i todo s).reads := by
  induction todo generalizing i s with
  | zero => exact printNext_reads mem
  | succ todo ih =>
    refine ih ?_
    rw [printArgument_reads]
    exact List.mem_append_left _ (printNext_reads mem)

theorem printf_reads (pos : 0 < length) :
    (-1 : Int) ∈ (printf toPrint length args garbage).reads := by
  obtain ⟨length, rfl⟩ := Nat.exists_eq_succ_of_ne_zero pos.ne'
  have scanned := List.mem_append_right
    ((List.range (length + 1 + 1)).map fun (k : Nat) => (k : Int))
    (@printfScanLength_reads toPrint length)
  simp only [printf]
  split
  · exact scanned
  · exact printfLoop_reads scanned

theorem source_length_pos (ne : ps ≠ []) : 0 < (source ps).length := by
  cases ps with
  | nil => exact absurd rfl ne
  | cons p ps => cases p <;> simp [source, Piece.source]

theorem printf_expands_iff :
    Expands ps args (printf (inMemory (source ps) around) (source ps).length args garbage) ↔
      ps = [] := by
  constructor
  · intro expands
    by_contra ne
    exact absurd (expands.reads _ (printf_reads (source_length_pos ne))).1 (by decide)
  · rintro rfl
    refine ⟨rfl, rfl, fun i mem => ?_⟩
    have : i = 0 := by simpa [printf, source, printfScanLength] using mem
    subst i
    exact ⟨le_rfl, le_rfl⟩

/-- Without an argument too: both percent signs are printed. -/
theorem printf_doubles_percent :
    ¬ Expands [.text (char '5') (by decide), .percent] (fun _ => 0)
      (printf (inMemory ([char '5', char '%', char '%']) fun _ => 0) 3 (fun _ => 0)
        ⟨fun _ => 0, fun _ => 0, fun _ => 3, fun _ => .null⟩) := by
  intro expands
  exact absurd expands.printed (by decide)

/-! ## Formats without percent signs -/

namespace Conversion

def type : Conversion → PrintfType
  | .i | .d => .int
  | .x => .hex
  | .b => .bin
  | .c => .char

theorem printfTypeOf_letter (kind : Conversion) : printfTypeOf kind.letter = kind.type := by
  cases kind <;> decide

theorem letter_ne (kind : Conversion) : kind.letter ≠ char '%' := by cases kind <;> decide

end Conversion

/-- From `c` on memory spells pieces other than percent signs. -/
def Spelled (toPrint : Int → U8) (c : Int) : List Piece → Prop
  | [] => True
  | .text t _ :: ps => toPrint c = t ∧ Spelled toPrint (c + 1) ps
  | .conversion kind :: ps =>
    toPrint c = char '%' ∧ toPrint (c + 1) = kind.letter ∧ Spelled toPrint (c + 2) ps
  | .percent :: _ => False

def nthConversion : List Piece → Nat → Option Conversion
  | [], _ => none
  | .conversion kind :: _, 0 => some kind
  | .conversion _ :: ps, j + 1 => nthConversion ps j
  | .text _ _ :: ps, j | .percent :: ps, j => nthConversion ps j

variable {c : Int} {unset : PrintfType}

/-- The counter in the other direction. -/
def starts (toScan : Int → U8) (c : Int) : Nat → Nat
  | 0 => 0
  | n + 1 =>
    (if toScan (c - 1) = char '%' ∧ toScan (c - 2) ≠ char '%' then 1 else 0) +
      starts toScan (c + 1) n

theorem starts_succ : starts toPrint c (length + 1) = starts toPrint c length +
    if toPrint (c + length - 1) = char '%' ∧ toPrint (c + length - 2) ≠ char '%' then 1 else 0 := by
  induction length generalizing c with
  | zero => simp [starts]
  | succ length ih =>
    have place : c + 1 + length = c + (length + 1 : Nat) := by omega
    rw [starts, ih, starts, place, Nat.add_assoc]

theorem printfScanLength_eq : (printfScanLength toPrint length).1 = starts toPrint 0 length := by
  induction length with
  | zero => rfl
  | succ length ih =>
    rw [starts_succ, ← ih, Int.zero_add]
    rfl

theorem starts_of_spelled (spelled : Spelled toPrint c ps) (before : toPrint (c - 1) ≠ char '%') :
    starts toPrint c (source ps).length = conversions ps := by
  induction ps generalizing c with
  | nil => rfl
  | cons p ps ih =>
    cases p with
    | text t proper =>
      have rest := ih spelled.2 (by rw [Int.add_sub_cancel, spelled.1]; exact proper.2)
      change starts toPrint c ((source ps).length + 1) = conversions ps
      rw [starts, if_neg fun h => before h.1, rest, Nat.zero_add]
    | conversion kind =>
      obtain ⟨percent, letter, spelled⟩ := spelled
      have one : c + 2 - 1 = c + 1 := by omega
      have two : c + 1 - 2 = c - 1 := by omega
      have next : c + 1 + 1 = c + 2 := by omega
      have rest := ih spelled (by rw [one, letter]; exact kind.letter_ne)
      change starts toPrint c ((source ps).length + 1 + 1) = _
      rw [starts, if_neg fun h => before h.1, starts, Int.add_sub_cancel, two,
        if_pos ⟨percent, before⟩, next, rest, Nat.zero_add]
      simp [conversions, Nat.add_comm]
    | percent => exact spelled.elim

theorem getTypeFrom_eq {kind : Conversion} {seen j : Nat} (spelled : Spelled toPrint c ps)
    (before : toPrint (c - 1) ≠ char '%') (nonneg : 0 ≤ c)
    (nth : nthConversion ps j = some kind) :
    (getTypeFrom toPrint (seen + 1 + j) unset c seen (source ps).length).1 = kind.type := by
  induction ps generalizing c seen j with
  | nil => exact nomatch nth
  | cons p ps ih =>
    cases p with
    | text t proper =>
      change (getTypeFrom toPrint _ unset c seen ((source ps).length + 1)).1 = _
      rw [getTypeFrom, if_neg fun h => before h.2]
      exact ih spelled.2 (by rw [Int.add_sub_cancel, spelled.1]; exact proper.2) (by omega) nth
    | conversion kind' =>
      obtain ⟨percent, letter, spelled⟩ := spelled
      have one : c + 2 - 1 = c + 1 := by omega
      have next : c + 1 + 1 = c + 2 := by omega
      change (getTypeFrom toPrint _ unset c seen ((source ps).length + 1 + 1)).1 = _
      rw [getTypeFrom, if_neg fun h => before h.2]
      simp only
      rw [getTypeFrom, Int.add_sub_cancel, if_pos ⟨by omega, percent⟩]
      cases j with
      | zero =>
        rw [if_neg (by omega), letter]
        rw [kind'.printfTypeOf_letter]
        exact congrArg Conversion.type (Option.some.inj nth)
      | succ j =>
        have index : seen + 1 + (j + 1) = seen + 1 + 1 + j := by omega
        rw [if_pos (by omega), index, next]
        exact ih spelled (by rw [one, letter]; exact kind'.letter_ne) (by omega) nth
    | percent => exact spelled.elim

/-- Only text is left. -/
structure NoConversion (toPrint : Int → U8) (c : Int) (ps : List Piece) : Prop where
  next : (nextConversion toPrint c (source ps).length).1 = none
  text : ((List.range (source ps).length).map fun (k : Nat) => toPrint (c + k)) = source ps
  expansion_eq : ∀ args k, expansion args k ps = source ps
  conversions_eq : conversions ps = 0

/-- The text in front of the first conversion, the conversion and the pieces after it. -/
structure FirstConversion (toPrint : Int → U8) (c : Int) (ps : List Piece) (front : List U8)
    (kind : Conversion) (rest : List Piece) : Prop where
  next : (nextConversion toPrint c (source ps).length).1 = some front.length
  text : ((List.range front.length).map fun (k : Nat) => toPrint (c + k)) = front
  length_eq : (source ps).length = front.length + 2 + (source rest).length
  spelled : Spelled toPrint (c + front.length + 2) rest
  before : toPrint (c + front.length + 2 - 1) ≠ char '%'
  nth_zero : nthConversion ps 0 = some kind
  nth_succ : ∀ j, nthConversion ps (j + 1) = nthConversion rest j
  expansion_eq : ∀ args k,
    expansion args k ps = front ++ kind.text (args k) ++ expansion args (k + 1) rest
  conversions_eq : conversions ps = conversions rest + 1

theorem range_map_cons {t : U8} {n : Nat} {text : List U8} (first : toPrint c = t)
    (rest : ((List.range n).map fun (k : Nat) => toPrint (c + 1 + k)) = text) :
    ((List.range (n + 1)).map fun (k : Nat) => toPrint (c + k)) = t :: text := by
  rw [List.range_succ_eq_map, List.map_cons, List.map_map, ← rest, ← first]
  refine congrArg₂ List.cons (by simp) (List.map_congr_left fun k _ => ?_)
  have place : c + (k + 1 : Nat) = c + 1 + k := by omega
  exact congrArg toPrint place

theorem NoConversion.text_cons {t : U8} {proper : t ≠ 0 ∧ t ≠ char '%'} (first : toPrint c = t)
    (rest : NoConversion toPrint (c + 1) ps) : NoConversion toPrint c (.text t proper :: ps) where
  next := by
    change (nextConversion toPrint c ((source ps).length + 1)).1 = none
    rw [nextConversion, if_neg fun h => proper.2 (first ▸ h.1)]
    simp [rest.next]
  text := range_map_cons first rest.text
  expansion_eq args k := congrArg (t :: ·) (rest.expansion_eq args k)
  conversions_eq := rest.conversions_eq

theorem FirstConversion.text_cons {t : U8} {proper : t ≠ 0 ∧ t ≠ char '%'} {front : List U8}
    {kind : Conversion} {rest : List Piece} (at_c : toPrint c = t)
    (first : FirstConversion toPrint (c + 1) ps front kind rest) :
    FirstConversion toPrint c (.text t proper :: ps) (t :: front) kind rest := by
  have place : c + ((t :: front).length : Nat) + 2 = c + 1 + front.length + 2 := by
    rw [List.length_cons]
    omega
  constructor
  case next =>
    change (nextConversion toPrint c ((source ps).length + 1)).1 = _
    rw [nextConversion, if_neg fun h => proper.2 (at_c ▸ h.1)]
    simp [first.next]
  case text => exact range_map_cons at_c first.text
  case length_eq =>
    change (source ps).length + 1 = _
    rw [first.length_eq, List.length_cons]
    omega
  case spelled => exact place ▸ first.spelled
  case before => exact place ▸ first.before
  case nth_zero => exact first.nth_zero
  case nth_succ => exact first.nth_succ
  case expansion_eq => exact fun args k => congrArg (t :: ·) (first.expansion_eq args k)
  case conversions_eq => exact first.conversions_eq

/-- At a conversion. -/
theorem FirstConversion.here {kind : Conversion}
    (spelled : Spelled toPrint c (.conversion kind :: ps)) (before : toPrint (c - 1) ≠ char '%') :
    FirstConversion toPrint c (.conversion kind :: ps) [] kind ps := by
  obtain ⟨percent, letter, spelled⟩ := spelled
  have place : c + ([] : List U8).length + 2 = c + 2 := by simp
  have letter_place : c + 2 - 1 = c + 1 := by omega
  constructor
  case next =>
    change (nextConversion toPrint c ((source ps).length + 1 + 1)).1 = _
    rw [nextConversion, if_pos ⟨percent, by rw [letter]; exact kind.letter_ne, before⟩]
    rfl
  case text => rfl
  case length_eq => simp [source, Piece.source]; omega
  case spelled => exact place ▸ spelled
  case before =>
    rw [place, letter_place, letter]
    exact kind.letter_ne
  case nth_zero => rfl
  case nth_succ => exact fun _ => rfl
  case expansion_eq => exact fun _ _ => rfl
  case conversions_eq => simp [conversions]

theorem spelled_cases (spelled : Spelled toPrint c ps) (before : toPrint (c - 1) ≠ char '%') :
    NoConversion toPrint c ps ∨
      ∃ front kind rest, FirstConversion toPrint c ps front kind rest := by
  induction ps generalizing c with
  | nil => exact .inl ⟨rfl, rfl, fun _ _ => rfl, rfl⟩
  | cons p ps ih =>
    cases p with
    | text t proper =>
      obtain none | ⟨front, kind, rest, first⟩ :=
        ih spelled.2 (by rw [Int.add_sub_cancel, spelled.1]; exact proper.2)
      · exact .inl (none.text_cons spelled.1)
      · exact .inr ⟨t :: front, kind, rest, first.text_cons spelled.1⟩
    | conversion kind => exact .inr ⟨[], kind, ps, .here spelled before⟩
    | percent => exact spelled.elim

/-- What one call of `print` and one argument leave behind. -/
structure Printed (text : List U8) (cur : Int) (taken : Nat) (s s' : PrintfState) : Prop where
  cur_eq : s'.cur = cur
  taken_eq : s'.taken = taken
  printed_eq : s'.printed.flatten = s.printed.flatten ++ text
  size_eq : s'.variablePrint.size = s.variablePrint.size

theorem Printed.trans {text text' : List U8} {cur cur' : Int} {taken taken' : Nat}
    {s s' s'' : PrintfState} (first : Printed text cur taken s s')
    (second : Printed text' cur' taken' s' s'') : Printed (text ++ text') cur' taken' s s'' where
  cur_eq := second.cur_eq
  taken_eq := second.taken_eq
  printed_eq := by rw [second.printed_eq, first.printed_eq, List.append_assoc]
  size_eq := second.size_eq.trans first.size_eq

theorem printNext_none (none : NoConversion toPrint s.cur ps)
    (end_eq : (length : Int) = s.cur + (source ps).length) :
    Printed (source ps) (garbage.ret i) s.taken s (printNext toPrint length i garbage s) := by
  have left : ((length : Int) - s.cur).toNat = (source ps).length := by omega
  refine ⟨?_, rfl, ?_, rfl⟩
  · simp only [printNext, printfPrintFrom, left, none.next]
    split <;> rfl
  · simp only [printNext, printfPrintFrom, left, none.next, Option.getD_none, List.map_map,
      Function.comp_def, none.text]
    split
    · have := List.length_eq_zero_iff.1 ‹(source ps).length = 0›
      simp [this]
    · simp

theorem printNext_first {front : List U8} {kind : Conversion} {rest : List Piece}
    (first : FirstConversion toPrint s.cur ps front kind rest)
    (end_eq : (length : Int) = s.cur + (source ps).length) :
    Printed front (s.cur + front.length + 2) s.taken s (printNext toPrint length i garbage s) := by
  have left : ((length : Int) - s.cur).toNat = (source ps).length := by omega
  refine ⟨?_, rfl, ?_, rfl⟩
  · simp only [printNext, printfPrintFrom, left, first.next]
    split <;> rfl
  · simp only [printNext, printfPrintFrom, left, first.next, Option.getD_some, List.map_map,
      Function.comp_def, first.text]
    split
    · have := List.length_eq_zero_iff.1 ‹front.length = 0›
      simp [this]
    · simp

/-- The buffer has room for the text, and the text is no terminator. -/
def Printable (arg : U64) : Conversion → Prop
  | .b => arg.toNat < 2 ^ 61
  | .c => arg.setWidth 8 ≠ 0
  | .i | .d | .x => True

theorem terminatedText_eq {b : Buffer U8} {text : List U8} (holds : b.Text text) :
    terminatedText b = text := by
  have elements := (Buffer.holds_append.1 holds.holds).1
  rw [terminatedText, holds.scan, Option.getD_some]
  refine List.ext_getElem (by simp) fun k _ hk => ?_
  have := elements k text[k] (List.getElem?_eq_getElem hk)
  simpa using this

theorem printNumber_printed {f : NumberFormat} (size : s.variablePrint.size = 64)
    (room : f.lead.length + figureCount f (args s.taken).toNat < 64)
    (few : figureCount f (args s.taken).toNat + f.counted ≤ 64) :
    Printed (f.lead ++ figures f (args s.taken).toNat) s.cur (s.taken + 1) s
      (printNumber (formatNumber f) args garbage s) := by
  have text := @written_text f s.variablePrint (args s.taken).toNat (by rwa [size])
  have format : formatNumber f (args s.taken) s.variablePrint 64 0 garbage.tempBuffer =
      written f (args s.taken).toNat s.variablePrint := by
    have long : (0 : U32).toInt ≤
        (f.lead ++ figures f (args s.taken).toNat).length - f.lead.length := by
      change (0 : Int) ≤ _
      rw [List.length_append]
      omega
    have refused : ¬ (args s.taken ≠ 0 ∧
        (64 : U64).toNat < figureCount f (args s.taken).toNat + f.counted) := fun h =>
      Nat.not_lt.2 few h.2
    rw [formatNumber_eq, if_neg refused]
    split
    · rfl
    · exact padString_of_scan text.scan long
  refine ⟨rfl, rfl, ?_, ?_⟩
  · rw [printNumber, format, terminatedText_eq text]
    simp
  · rw [printNumber, format, written]
    exact Buffer.storeList_size

theorem printArgument_printed {kind : Conversion} (size : s.variablePrint.size = 64)
    (printable : Printable (args s.taken) kind) :
    Printed (kind.text (args s.taken)) s.cur (s.taken + 1) s
      (printArgument kind.type args garbage s) := by
  have small := (args s.taken).isLt
  have ten : figureCount decimal (args s.taken).toNat ≤ 20 :=
    (figureCount_le_iff (by decide)).2 (small.trans (by decide))
  cases kind with
  | i | d =>
    exact @printNumber_printed args garbage s decimal size (by change 0 + _ < 64; omega)
      (by change _ + 0 ≤ 64; omega)
  | x =>
    have sixteen : figureCount hexadecimal (args s.taken).toNat ≤ 16 :=
      (figureCount_le_iff (by decide)).2 small
    exact @printNumber_printed args garbage s hexadecimal size (by change 2 + _ < 64; omega)
      (by change _ + 2 ≤ 64; omega)
  | b =>
    have two : figureCount binary (args s.taken).toNat ≤ 61 :=
      (figureCount_le_iff (by decide)).2 printable
    exact @printNumber_printed args garbage s binary size (by change 2 + _ < 64; omega)
      (by change _ + 0 ≤ 64; omega)
  | c =>
    refine ⟨rfl, rfl, ?_, rfl⟩
    simp only [printArgument, Conversion.type, if_neg printable]
    simp [Conversion.text]

/-- Every argument fits its conversion. -/
def AllPrintable (args : Nat → U64) (k : Nat) (ps : List Piece) : Prop :=
  ∀ j kind, nthConversion ps j = some kind → Printable (args (k + j)) kind

/-- The loop from a place between two pieces on, with `i` conversions behind it. -/
theorem printfLoop_printed (spelled : Spelled toPrint s.cur ps)
    (before : toPrint (s.cur - 1) ≠ char '%') (end_eq : (length : Int) = s.cur + (source ps).length)
    (size : s.variablePrint.size = 64) (printable : AllPrintable args s.taken ps)
    (types : ∀ j kind unset, nthConversion ps j = some kind →
      (printfGetType toPrint length (i + j) unset).1 = kind.type) :
    ∃ cur, Printed (expansion args s.taken ps) cur (s.taken + conversions ps) s
      (printfLoop toPrint length args garbage i (conversions ps) s) := by
  generalize count_eq : conversions ps = count
  induction count generalizing ps s i with
  | zero =>
    obtain none | ⟨front, kind, rest, first⟩ := spelled_cases spelled before
    · have last := @printNext_none ps garbage s toPrint length i none end_eq
      exact ⟨_, none.expansion_eq args s.taken ▸ last⟩
    · have := first.conversions_eq
      omega
  | succ count ih =>
    obtain none | ⟨front, kind, rest, first⟩ := spelled_cases spelled before
    · have := none.conversions_eq
      omega
    have type : (printfGetType toPrint length i (garbage.type i)).1 = kind.type :=
      types 0 kind (garbage.type i) first.nth_zero
    set reads := (printfGetType toPrint length i (garbage.type i)).2
    set s₁ : PrintfState := { printNext toPrint length i garbage s with
      reads := (printNext toPrint length i garbage s).reads ++ reads }
    have text : Printed front (s.cur + front.length + 2) s.taken s s₁ :=
      have text := @printNext_first ps garbage s toPrint length i _ _ _ first end_eq
      ⟨text.cur_eq, text.taken_eq, text.printed_eq, text.size_eq⟩
    have arg := @printArgument_printed args garbage s₁ kind (text.size_eq.trans size)
      (text.taken_eq ▸ printable 0 kind first.nth_zero)
    set s₂ := printArgument kind.type args garbage s₁
    have both := text.trans arg
    rw [text.cur_eq, text.taken_eq] at both
    have count_rest : conversions rest = count := by
      have := first.conversions_eq
      omega
    obtain ⟨cur, rest_printed⟩ := @ih rest s₂ (i + 1) (both.cur_eq ▸ first.spelled)
      (both.cur_eq ▸ first.before) (by rw [both.cur_eq, end_eq, first.length_eq]; omega)
      (both.size_eq.trans size)
      (by
        intro j kind' nth
        rw [both.taken_eq, Nat.add_assoc, Nat.add_comm 1]
        exact printable (j + 1) kind' (first.nth_succ j ▸ nth))
      (by
        intro j kind' unset nth
        rw [Nat.add_assoc, Nat.add_comm 1]
        exact types (j + 1) kind' unset (first.nth_succ j ▸ nth))
      count_rest
    have all := both.trans rest_printed
    rw [both.taken_eq, ← first.expansion_eq args s.taken] at all
    refine ⟨cur, ?_⟩
    have step : printfLoop toPrint length args garbage i (count + 1) s =
        printfLoop toPrint length args garbage (i + 1) count s₂ :=
      congrArg (fun t => printfLoop toPrint length args garbage (i + 1) count
        (printArgument t args garbage s₁)) type
    rw [step]
    rwa [Nat.add_assoc, Nat.add_comm 1] at all

def NoPercent (ps : List Piece) : Prop := ∀ p ∈ ps, p ≠ .percent

theorem spelled_of_source (none : NoPercent ps)
    (holds : ∀ k x, (source ps)[k]? = some x → toPrint (c + (k : Nat)) = x) :
    Spelled toPrint c ps := by
  induction ps generalizing c with
  | nil => exact trivial
  | cons p ps ih =>
    have none' : NoPercent ps := fun q mem => none q (List.mem_cons_of_mem p mem)
    cases p with
    | text t proper =>
      refine ⟨by simpa using holds 0 t rfl, ih none' fun k x at_k => ?_⟩
      have place : c + 1 + k = c + (k + 1 : Nat) := by omega
      rw [place]
      exact holds (k + 1) x at_k
    | conversion kind =>
      refine ⟨by simpa using holds 0 _ rfl, holds 1 _ rfl, ih none' fun k x at_k => ?_⟩
      have place : c + 2 + k = c + (k + 2 : Nat) := by omega
      rw [place]
      exact holds (k + 2) x at_k
    | percent => exact absurd rfl (none _ List.mem_cons_self)

theorem inMemory_holds {text : List U8} {k : Nat} {x : U8} (at_k : text[k]? = some x) :
    inMemory text around (0 + (k : Nat)) = x := by
  have inside := (List.getElem?_eq_some_iff.1 at_k).1
  have place : ((0 : Int) + (k : Nat)).toNat = k := by omega
  rw [inMemory, if_neg (by omega), place, List.getD_eq_getElem?_getD,
    List.getElem?_append_left inside, at_k, Option.getD_some]

/-- A format without percent signs is expanded, if no percent sign lies in front of it. -/
theorem printf_printed (none : NoPercent ps) (before : around (-1) ≠ char '%')
    (printable : AllPrintable args 0 ps) :
    (printf (inMemory (source ps) around) (source ps).length args garbage).printed.flatten =
        expansion args 0 ps ∧
      (printf (inMemory (source ps) around) (source ps).length args garbage).taken =
        conversions ps := by
  have spelled := spelled_of_source none fun k x => @inMemory_holds around (source ps) k x
  have before : inMemory (source ps) around (0 - 1) ≠ char '%' := before
  have count := (@printfScanLength_eq (inMemory (source ps) around) _).trans
    (starts_of_spelled spelled before)
  simp only [printf, count]
  split
  · obtain none | ⟨front, kind, rest, first⟩ := spelled_cases spelled before
    · have text := none.text
      simp only [Int.zero_add] at text
      rw [List.flatten_singleton, text, none.expansion_eq, none.conversions_eq]
      exact ⟨rfl, rfl⟩
    · have := first.conversions_eq
      omega
  · have types j kind unset (nth : nthConversion ps j = some kind) :
        (printfGetType (inMemory (source ps) around) (source ps).length (0 + j) unset).1 =
          kind.type := by
      have type := @getTypeFrom_eq ps _ 0 unset kind 0 j spelled before le_rfl nth
      rw [Nat.zero_add, Nat.add_comm 1] at type
      rw [Nat.zero_add]
      exact type
    have loop (reads : List Int) := @printfLoop_printed ps args garbage
      ⟨0, ⟨64, garbage.variablePrint, true⟩, 0, [], reads⟩ _ (source ps).length 0
      spelled before (by simp) rfl printable types
    obtain ⟨cur, printed⟩ := loop (((List.range ((source ps).length + 1)).map fun (k : Nat) =>
      (k : Int)) ++ (printfScanLength (inMemory (source ps) around) (source ps).length).2)
    exact ⟨printed.printed_eq, printed.taken_eq.trans (Nat.zero_add _)⟩

end ChudOS
