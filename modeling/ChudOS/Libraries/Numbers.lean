import ChudOS.Library.Buffer
import ChudOS.LowLevel.Memory
import Mathlib.Data.BitVec
import Mathlib.Data.Nat.Digits.Lemmas

/-!
# Numbers as text

`int_to_char_array`, its two siblings and `pad_string`. An `int` is an integer here, a `size_t` a
word.
-/

namespace ChudOS

def char (c : Char) : U8 := BitVec.ofNat 8 c.toNat

/-- What a digit character stands for. -/
def digitValue (c : U8) : Option Nat :=
  if char '0' ≤ c ∧ c ≤ char '9' then some (c.toNat - 48)
  else if char 'A' ≤ c ∧ c ≤ char 'F' then some (c.toNat - 55)
  else none

def readDigit (base value : Nat) (c : U8) : Option Nat :=
  match digitValue c with
  | some k => if k < base then some (value * base + k) else none
  | none => none

def readNumber (base : Nat) (text : List U8) : Option Nat := text.foldlM (readDigit base) 0

/-- Where the three functions differ. -/
structure NumberFormat where
  base : Nat
  lead : List U8
  digit : Nat → U8
  /-- The characters of `lead` that the test of the size counts. -/
  counted : Nat
  /-- Without padding the function returns before `pad_string`. -/
  early : Bool
  two_le_base : 2 ≤ base
  digitValue_digit : ∀ k < base, digitValue (digit k) = some k
  zero_notMem_lead : 0 ∉ lead
  lead_length_le : lead.length ≤ 2
  counted_le : counted ≤ lead.length

def decimal : NumberFormat where
  base := 10
  lead := []
  digit remainder := BitVec.ofNat 8 remainder + char '0'
  counted := 0
  early := false
  two_le_base := by decide
  digitValue_digit := by decide
  zero_notMem_lead := by decide
  lead_length_le := by decide
  counted_le := by decide

def hexadecimal : NumberFormat where
  base := 16
  lead := [char '0', char 'x']
  digit remainder :=
    if remainder < 10 then BitVec.ofNat 8 remainder + char '0'
    else BitVec.ofNat 8 (remainder - 10) + char 'A'
  counted := 2
  early := false
  two_le_base := by decide
  digitValue_digit := by decide
  zero_notMem_lead := by decide
  lead_length_le := by decide
  counted_le := by decide

def binary : NumberFormat where
  base := 2
  lead := [char '0', char 'b']
  digit remainder := (if remainder = 1 then 1 else 0) + char '0'
  counted := 0
  early := true
  two_le_base := by decide
  digitValue_digit := by decide
  zero_notMem_lead := by decide
  lead_length_le := by decide
  counted_le := by decide

/-- The loop that counts up. -/
def countDigits (f : NumberFormat) (temp : Nat) : Nat :=
  if h : temp = 0 then 0
  else
    have : temp / f.base < temp := Nat.div_lt_self (Nat.pos_of_ne_zero h) f.two_le_base
    countDigits f (temp / f.base) + 1

/-- The loop that writes down, from `i` digits left on. -/
def writeDigits (f : NumberFormat) (buffer : Buffer U8) : Nat → Nat → Buffer U8
  | 0, _ => buffer
  | i + 1, n =>
    writeDigits f (buffer.store (f.lead.length + i) (f.digit (n % f.base))) i (n / f.base)

/-- The loops of `pad_string` over the temporary buffer, which lies on the stack. -/
def padCopies (padding : Int) (buffer : Buffer U8) (bufferSize start bufferNullSize : Int)
    (stack : Int → U8) : Buffer U8 :=
  let tempBuffer : Buffer U8 := ⟨bufferSize.toNat, stack, true⟩
  let (buffer, tempBuffer) := buffer.copyTo tempBuffer 0 0 start.toNat
  let (buffer, tempBuffer) :=
    buffer.copyTo tempBuffer (padding + (start - bufferNullSize)) start bufferSize.toNat
  let tempBuffer :=
    tempBuffer.storeList start (List.replicate (padding - bufferNullSize).toNat (char '0'))
  let (tempBuffer, buffer) := tempBuffer.copyTo buffer 0 0 bufferSize.toNat
  { buffer with inside := buffer.inside && tempBuffer.inside }

def padString (padding : Int) (buffer : Buffer U8) (bufferSize : Int) (_filler : U8) (start : Int)
    (stack : Int → U8) : Buffer U8 :=
  if bufferSize = 0 then buffer
  else if bufferSize ≤ start then buffer
  else if bufferSize < padding then buffer
  else match buffer.scan with
    -- the scan for the terminator has left the buffer
    | none => { buffer with inside := false }
    | some length =>
      let bufferNullSize := length - start
      if bufferNullSize ≤ 0 then buffer
      else if padding - bufferNullSize ≤ 0 then buffer
      else padCopies padding buffer bufferSize start bufferNullSize stack

def formatNumber (f : NumberFormat) (n : U64) (buffer : Buffer U8) (bufferSize : U64)
    (padding : U32) (stack : Int → U8) : Buffer U8 :=
  -- the parameter of `pad_string` is an `int`
  let padded (buffer : Buffer U8) := padString padding.toInt buffer (bufferSize.setWidth 32).toInt
    (char '0') f.lead.length stack
  -- `n < 0` holds of no unsigned number, which `abs` returns as it is
  if n = 0 then
    let buffer := buffer.storeList 0 (f.lead ++ [char '0', 0])
    if padding = 0 then buffer else padded buffer
  else
    let digits := countDigits f n.toNat
    if bufferSize.toNat < digits + f.counted then buffer
    else
      let buffer := buffer.store (f.lead.length + digits) 0
      let buffer := writeDigits f buffer digits n.toNat
      -- the loop has ended with `lastI` 0
      let buffer := buffer.storeList 0 f.lead
      if f.early && padding == 0 then buffer else padded buffer

def intToCharArray := formatNumber decimal
def intToCharArrayHex := formatNumber hexadecimal
def intToCharArrayBinary := formatNumber binary

/-! ## The digits -/

variable {f : NumberFormat} {b : Buffer U8} {n : Nat}

/-- The digits without padding. -/
def figures (f : NumberFormat) (n : Nat) : List U8 :=
  if n = 0 then [char '0'] else (Nat.digits f.base n).reverse.map f.digit

/-- How many of them there are. -/
def figureCount (f : NumberFormat) (n : Nat) : Nat := max (Nat.digits f.base n).length 1

theorem figures_length : (figures f n).length = figureCount f n := by
  rw [figures, figureCount]
  split
  · subst n
    simp
  · have := Nat.digits_ne_nil_iff_ne_zero (b := f.base).2 ‹n ≠ 0›
    have := List.length_pos_iff.2 this
    simp
    omega

theorem figureCount_le_iff {k : Nat} (pos : 0 < k) : figureCount f n ≤ k ↔ n < f.base ^ k := by
  rw [figureCount, Nat.max_le, and_iff_left (Nat.succ_le_of_lt pos)]
  exact Nat.digits_length_le_iff f.two_le_base n

theorem figureCount_le (small : n < 2 ^ 64) : figureCount f n ≤ 64 :=
  (figureCount_le_iff (by decide)).2 (small.trans_le (Nat.pow_le_pow_left f.two_le_base 64))

theorem countDigits_eq : countDigits f n = (Nat.digits f.base n).length := by
  induction n using Nat.strong_induction_on with
  | _ n ih =>
    rw [countDigits]
    split
    · subst n
      simp
    · have pos := Nat.pos_of_ne_zero ‹n ≠ 0›
      rw [ih _ (Nat.div_lt_self pos f.two_le_base), Nat.digits_def' f.two_le_base pos,
        List.length_cons]

/-- Downwards the digits come to the same as upwards. -/
theorem writeDigits_eq : writeDigits f b (Nat.digits f.base n).length n =
    b.storeList f.lead.length ((Nat.digits f.base n).reverse.map f.digit) := by
  induction n using Nat.strong_induction_on generalizing b with
  | _ n ih =>
    by_cases zero : n = 0
    · subst n
      rw [Nat.digits_zero]
      rfl
    · have pos := Nat.pos_of_ne_zero zero
      rw [Nat.digits_def' f.two_le_base pos, List.length_cons, writeDigits,
        ih _ (Nat.div_lt_self pos f.two_le_base), Buffer.storeList_store (by simp),
        List.reverse_cons, List.map_append, Buffer.storeList_append]
      simp [Buffer.storeList]

theorem readNumber_append_one {text : List U8} {c : U8} {base k value : Nat}
    (read : readNumber base text = some value) (digit : digitValue c = some k) (small : k < base) :
    readNumber base (text ++ [c]) = some (value * base + k) := by
  rw [readNumber] at read
  simp [readNumber, List.foldlM_append, read, readDigit, digit, small]

theorem readNumber_zeros {base k : Nat} (pos : 0 < base) :
    readNumber base (List.replicate k (char '0')) = some 0 := by
  induction k with
  | zero => rfl
  | succ k ih =>
    rw [List.replicate_succ']
    simpa using readNumber_append_one ih (show digitValue (char '0') = some 0 by decide) pos

/-- Zeros in front do not matter. -/
theorem readNumber_figures {k : Nat} :
    readNumber f.base (List.replicate k (char '0') ++ figures f n) = some n := by
  have base_pos : 0 < f.base := Nat.lt_of_lt_of_le (by decide) f.two_le_base
  have read : readNumber f.base (List.replicate k (char '0') ++
      (Nat.digits f.base n).reverse.map f.digit) = some n := by
    induction n using Nat.strong_induction_on with
    | _ n ih =>
      by_cases zero : n = 0
      · subst n
        simpa using readNumber_zeros base_pos
      · have pos := Nat.pos_of_ne_zero zero
        have small := Nat.mod_lt n base_pos
        have last := f.digitValue_digit (n % f.base) small
        have rest := ih _ (Nat.div_lt_self pos f.two_le_base)
        rw [Nat.digits_def' f.two_le_base pos, List.reverse_cons, List.map_append,
          ← List.append_assoc]
        have all := readNumber_append_one rest last small
        rwa [Nat.div_add_mod'] at all
  rw [figures]
  split
  · subst n
    rw [← List.replicate_succ']
    exact readNumber_zeros base_pos
  · exact read

theorem zero_notMem_figures : 0 ∉ figures f n := by
  rw [figures]
  split
  · decide
  · intro mem
    obtain ⟨k, member, zero⟩ := List.mem_map.1 mem
    have small := Nat.digits_lt_base f.two_le_base (List.mem_reverse.1 member)
    have := f.digitValue_digit k small
    rw [zero] at this
    exact nomatch (show digitValue 0 = none by decide).symm.trans this

/-! ## Padding -/

variable {padding bufferSize start nullSize j : Int} {stack : Int → U8} {filler : U8}

/-- `pad_string` leaves the buffer alone. -/
def padRefuses (padding bufferSize start : Int) : Prop :=
  bufferSize = 0 ∨ bufferSize ≤ start ∨ bufferSize < padding

instance : Decidable (padRefuses padding bufferSize start) := inferInstanceAs (Decidable (_ ∨ _))

theorem padString_of_refuses (refuses : padRefuses padding bufferSize start) :
    padString padding b bufferSize filler start stack = b := by
  rw [padString]
  obtain h | h | h := refuses <;> grind

theorem padString_of_scan {length : Nat} (scan : b.scan = some length)
    (long : padding ≤ length - start) :
    padString padding b bufferSize filler start stack = b := by
  simp only [padString, scan]
  grind

/-- Nothing to the left of `start` is text, or the text is long enough. -/
theorem padString_of_shift {length : Nat} (accepts : ¬ padRefuses padding bufferSize start)
    (scan : b.scan = some length) (text : start < length) (short : length - start < padding) :
    padString padding b bufferSize filler start stack =
      padCopies padding b bufferSize start (length - start) stack := by
  simp only [padRefuses, not_or] at accepts
  simp only [padString, scan, if_neg accepts.1, if_neg accepts.2.1, if_neg accepts.2.2]
  rw [if_neg (by omega), if_neg (by omega)]

/-- The second loop runs past the end of the temporary buffer. -/
theorem padCopies_outside (room : 0 < bufferSize) (short : nullSize < padding) :
    (padCopies padding b bufferSize start nullSize stack).inside = false := by
  by_contra all
  rw [Bool.not_eq_false] at all
  simp only [padCopies, Bool.and_eq_true, Buffer.copyTo_inside, Buffer.storeList_inside,
    Buffer.valid_congr (Buffer.copyTo_size).1, Buffer.valid_congr (Buffer.copyTo_size).2] at all
  obtain ⟨⟨⟨-, reads⟩, -⟩, ⟨⟨⟨-, writes⟩, -⟩, -⟩⟩ := all
  have first := (reads 0 (by omega)).1
  have last := (writes (bufferSize.toNat - 1) (by omega)).2
  change padding + (start - nullSize) + (bufferSize.toNat - 1 : Nat) < bufferSize.toNat at last
  omega

theorem padCopies_cells (from_zero : 0 ≤ start) (short : nullSize < padding) (valid : b.Valid j) :
    (padCopies padding b bufferSize start nullSize stack).cells j =
      if bufferSize ≤ j ∨ j < start then b.cells j
      else if j < start + (padding - nullSize) then char '0'
      else b.cells (j - (padding - nullSize)) := by
  let temp : Buffer U8 := ⟨bufferSize.toNat, stack, true⟩
  let first := b.copyTo temp 0 0 start.toNat
  let second := first.1.copyTo first.2 (padding + (start - nullSize)) start bufferSize.toNat
  let zeros := List.replicate (padding - nullSize).toNat (char '0')
  have cells : (padCopies padding b bufferSize start nullSize stack).cells j =
      if 0 ≤ j ∧ j < 0 + bufferSize.toNat ∧ second.1.Valid j then
        (second.2.storeList start zeros).cells (0 + (j - 0)) else second.1.cells j :=
    Buffer.copyTo_cells.2 j
  have untouched : second.1.cells = b.cells := Buffer.copyTo_cells.1.trans Buffer.copyTo_cells.1
  have sizes : second.1.Valid j := by
    rwa [Buffer.valid_congr Buffer.copyTo_size.1, Buffer.valid_congr Buffer.copyTo_size.1]
  have lengths : second.2.size = bufferSize.toNat :=
    Buffer.copyTo_size.2.trans Buffer.copyTo_size.2
  have zeros_length : (zeros.length : Int) = padding - nullSize := by simp [zeros]; omega
  have := valid.1
  rw [cells, untouched]
  by_cases beyond : bufferSize ≤ j
  · rw [if_neg (by omega), if_pos (.inl beyond)]
  rw [if_pos ⟨by omega, by omega, sizes⟩, zero_add, sub_zero]
  have inside (d : Buffer U8) (size : d.size = bufferSize.toNat) : d.Valid j :=
    ⟨by omega, by rw [size]; omega⟩
  by_cases before : j < start
  · rw [Buffer.storeList_frame (.inl before), Buffer.copyTo_cells.2, if_neg (by omega),
      Buffer.copyTo_cells.2, if_pos ⟨by omega, by omega, inside _ rfl⟩, if_pos (.inr before)]
    simp
  rw [if_neg (by omega)]
  by_cases zero : j < start + (padding - nullSize)
  · have place : j = start + (j - start).toNat := by omega
    have at_place : zeros[(j - start).toNat]? = some (char '0') := by
      rw [List.getElem?_replicate, if_pos (by omega)]
    rw [if_pos zero, place]
    exact Buffer.storeList_at at_place (place ▸ inside _ lengths)
  · rw [Buffer.storeList_frame (.inr (by omega)), Buffer.copyTo_cells.2,
      if_pos ⟨by omega, by omega, inside _ Buffer.copyTo_size.2⟩, Buffer.copyTo_cells.1,
      if_neg zero]
    congr 1
    omega

theorem padString_inside (room : start < bufferSize → 0 < b.size → 0 < bufferSize) :
    (padString padding b bufferSize filler start stack).inside = true ↔
      b.inside = true ∧ (padRefuses padding bufferSize start ∨
        ∃ length : Nat, b.scan = some length ∧ (length ≤ start ∨ padding ≤ length - start)) := by
  by_cases refuses : padRefuses padding bufferSize start
  · simp [padString_of_refuses refuses, refuses]
  have accepts := refuses
  simp only [padRefuses, not_or] at accepts
  cases scan : b.scan with
  | none => simp [padString, scan, refuses, accepts]
  | some length =>
    simp only [refuses, false_or, Option.some.injEq, exists_eq_left']
    by_cases text : length ≤ start
    · simp [padString, scan, accepts, text]
    by_cases long : padding ≤ length - start
    · simp [padString_of_scan scan long, long]
    have inside := (Buffer.scan_eq_some.1 scan).1
    rw [padString_of_shift refuses scan (by omega) (by omega),
      padCopies_outside (room (by omega) (by omega)) (by omega)]
    simp [text, long]

theorem padCopies_text {lead figs : List U8} (text : b.Text (lead ++ figs))
    (short : figs.length < padding) (fits : padding + lead.length < bufferSize)
    (size : bufferSize ≤ b.size) :
    (padCopies padding b bufferSize lead.length figs.length stack).Text
      (lead ++ (List.replicate (padding - figs.length).toNat (char '0') ++ figs)) := by
  have cells {j : Int} (low : 0 ≤ j) (high : j < bufferSize) :=
    @padCopies_cells b padding bufferSize lead.length figs.length j stack
      (Int.natCast_nonneg lead.length) short ⟨low, by omega⟩
  have holds := text.holds
  rw [List.append_assoc, Buffer.holds_append, zero_add] at holds
  have same : (padCopies padding b bufferSize lead.length figs.length stack).size = b.size := by
    simp [padCopies]
  refine ⟨?_, ?_, ?_⟩
  · simp only [List.length_append, List.length_replicate, same]
    omega
  · rw [List.append_assoc, List.append_assoc, Buffer.holds_append, Buffer.holds_append, zero_add]
    refine ⟨holds.1.moved fun j low high => ?_, fun k x at_k => ?_,
      holds.2.moved fun j low high => ?_⟩
    · rw [cells low (by omega), if_pos (.inr (by omega))]
      simp
    · rw [List.getElem?_replicate] at at_k
      split at at_k
      · rw [cells (by omega) (by omega), if_neg (by omega), if_pos (by omega)]
        exact Option.some.inj at_k
      · exact nomatch at_k
    · simp only [List.length_append, List.length_replicate, List.length_cons, List.length_nil]
        at low high
      rw [cells (by omega) (by omega), if_neg (by omega), if_neg (by omega), List.length_replicate]
      congr 1
      omega
  · have := text.zero_notMem
    simp only [List.mem_append, List.mem_replicate, not_or] at this ⊢
    exact ⟨this.1, fun zeros => absurd zeros.2 (by decide), this.2⟩

/-! ## The three functions -/

/-- What the loops write: the lead, the digits and the terminator. -/
def written (f : NumberFormat) (n : Nat) (b : Buffer U8) : Buffer U8 :=
  b.storeList 0 (f.lead ++ figures f n ++ [0])

theorem written_inside : (written f n b).inside = true ↔
    b.inside = true ∧ f.lead.length + figureCount f n < b.size := by
  rw [written, Buffer.storeList_inside]
  simp only [List.length_append, figures_length, List.length_singleton, Buffer.Valid]
  refine and_congr_right fun _ => ⟨fun all => ?_, fun small k hk => by omega⟩
  have := all (f.lead.length + figureCount f n) (by omega)
  omega

theorem written_text (small : f.lead.length + figureCount f n < b.size) :
    (written f n b).Text (f.lead ++ figures f n) where
  length_lt := by
    rw [List.length_append, figures_length, written, Buffer.storeList_size]
    exact small
  holds := by
    refine Buffer.storeList_holds fun k hk => ?_
    simp only [List.length_append, figures_length, List.length_singleton] at hk
    exact ⟨by omega, by omega⟩
  zero_notMem := by
    rw [List.mem_append, not_or]
    exact ⟨f.zero_notMem_lead, zero_notMem_figures⟩

variable {w s : U64} {p : U32}

theorem written_of_pos (pos : n ≠ 0) : written f n b =
    (writeDigits f (b.store (f.lead.length + figureCount f n) 0) (figureCount f n) n).storeList 0
      f.lead := by
  have count : figureCount f n = (Nat.digits f.base n).length := by
    have := List.length_pos_iff.2 (Nat.digits_ne_nil_iff_ne_zero (b := f.base).2 pos)
    rw [figureCount]
    omega
  have length : figureCount f n = ((Nat.digits f.base n).reverse.map f.digit).length := by
    simpa using count
  have early : (b.storeList f.lead.length ((Nat.digits f.base n).reverse.map f.digit)).storeList 0
      f.lead = (b.storeList 0 f.lead).storeList f.lead.length
        ((Nat.digits f.base n).reverse.map f.digit) := Buffer.storeList_comm (by simp)
  rw [count, writeDigits_eq, ← count, Buffer.storeList_store (.inr (by omega)),
    Buffer.storeList_store (.inr (by omega)), early, written, figures, if_neg pos,
    Buffer.storeList_append, Buffer.storeList_append]
  simp only [zero_add, List.length_append, ← length, Buffer.storeList, Nat.cast_add]

/-- The zero case writes like the others. -/
theorem formatNumber_eq : formatNumber f w b s p stack =
    if w ≠ 0 ∧ s.toNat < figureCount f w.toNat + f.counted then b
    else if p = 0 ∧ (w = 0 ∨ f.early = true) then written f w.toNat b
    else padString p.toInt (written f w.toNat b) (s.setWidth 32).toInt (char '0') f.lead.length
      stack := by
  have digits : w ≠ 0 → countDigits f w.toNat = figureCount f w.toNat := by
    intro pos
    have pos : w.toNat ≠ 0 := fun zero => pos (BitVec.eq_of_toNat_eq zero)
    have := List.length_pos_iff.2 (Nat.digits_ne_nil_iff_ne_zero (b := f.base).2 pos)
    rw [countDigits_eq, figureCount]
    omega
  by_cases zero : w = 0
  · subst w
    have same : written f (0#64).toNat b = b.storeList 0 (f.lead ++ [char '0', 0]) := by
      simp [written, figures]
    simp only [formatNumber]
    grind
  · have same := @written_of_pos f b w.toNat fun zero' => zero (BitVec.eq_of_toNat_eq zero')
    simp only [formatNumber, if_neg zero, digits zero, ← same]
    grind

end ChudOS
