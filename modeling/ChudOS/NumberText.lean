import ChudOS.Libraries.Numbers

/-!
# Numbers as text

What the three functions leave in a buffer, and which cells they touch.
-/

namespace ChudOS

abbrev Formatter := U64 → Buffer U8 → U64 → U32 → (Int → U8) → Buffer U8

variable {f : NumberFormat} {n s : U64} {p : U32} {b : Buffer U8} {stack : Int → U8}

/-- Whatever they held before, a buffer of `s` bytes then holds the lead and the digits of `n`. -/
def LeavesNumber (format : Formatter) (lead : List U8) (base : Nat) (n s : U64) (p : U32) : Prop :=
  ∀ cells stack, ∃ digits,
    (format n ⟨s.toNat, cells, true⟩ s p stack).Text (lead ++ digits) ∧
    digits.length = max p.toNat (max (Nat.digits base n.toNat).length 1) ∧
    readNumber base digits = some n.toNat

/-- No padding is called for, or the padded text fits into what `pad_string` takes for the size. -/
def PaddingFits (base : Nat) (lead : List U8) (n s : U64) (p : U32) : Prop :=
  p.toInt ≤ max (Nat.digits base n.toNat).length 1 ∨
    p.toInt + lead.length < (s.setWidth 32).toInt

theorem toInt_setWidth_le : (s.setWidth 32).toInt ≤ s.toNat := by
  have : (s.setWidth 32).toNat = s.toNat % 2 ^ 32 := BitVec.toNat_setWidth ..
  rw [BitVec.toInt]
  split <;> omega

/-- Without the whole padding the cell after the padded text is what it was before. -/
theorem formatNumber_stale (_ : 80 ≤ s.toNat) (size : b.size = s.toNat)
    (short : figureCount f n.toNat < p.toInt) (room : p.toInt + 3 ≤ s.toNat)
    (unfit : (s.setWidth 32).toInt ≤ p.toInt + f.lead.length) :
    (formatNumber f n b s p stack).cells (p.toInt + f.lead.length) =
      b.cells (p.toInt + f.lead.length) := by
  have lead := f.lead_length_le
  have counted := f.counted_le
  have count := @figureCount_le f n.toNat n.isLt
  have untouched : (written f n.toNat b).cells (p.toInt + f.lead.length) =
      b.cells (p.toInt + f.lead.length) := by
    refine Buffer.storeList_frame (.inr ?_)
    simp only [List.length_append, figures_length, List.length_singleton]
    omega
  have text := @written_text f b n.toNat (by omega)
  rw [formatNumber_eq, if_neg (by omega), if_neg (by grind), ← untouched]
  by_cases refuses : padRefuses p.toInt (s.setWidth 32).toInt f.lead.length
  · rw [padString_of_refuses refuses]
  have length : (f.lead ++ figures f n.toNat).length = f.lead.length + figureCount f n.toNat := by
    rw [List.length_append, figures_length]
  have count_pos : 0 < figureCount f n.toNat := by rw [figureCount]; omega
  have valid : (written f n.toNat b).Valid (p.toInt + f.lead.length) :=
    ⟨by omega, by rw [written, Buffer.storeList_size]; omega⟩
  rw [padString_of_shift refuses text.scan (by omega) (by omega),
    padCopies_cells (by omega) (by omega) valid, if_pos (.inl unfit)]

theorem formatNumber_leaves (large : 80 ≤ s.toNat) (nonneg : 0 ≤ p.toInt)
    (room : p.toInt + 3 ≤ s.toNat) :
    LeavesNumber (formatNumber f) f.lead f.base n s p ↔ PaddingFits f.base f.lead n s p := by
  have lead := f.lead_length_le
  have counted := f.counted_le
  have count := @figureCount_le f n.toNat n.isLt
  have narrowed := @toInt_setWidth_le s
  have positive : (p.toNat : Int) = p.toInt := by rw [BitVec.toInt] at nonneg ⊢; omega
  constructor
  · intro leaves
    by_contra unfit
    rw [PaddingFits, not_or] at unfit
    obtain ⟨digits, text, length, -⟩ := leaves (fun _ => 1) fun _ => 0
    have place : ((f.lead ++ digits).length : Int) = p.toInt + f.lead.length := by
      rw [List.length_append, length]
      omega
    have stale := @formatNumber_stale f n s p ⟨s.toNat, fun _ => 1, true⟩ (fun _ => 0) large rfl
      (by rw [figureCount]; omega) room (by omega)
    rw [← place, text.terminated] at stale
    exact absurd stale (show (0 : U8) ≠ 1 by decide)
  · intro fits cells stack
    have text := @written_text f ⟨s.toNat, cells, true⟩ n.toNat (by change _ < s.toNat; omega)
    have length : (f.lead ++ figures f n.toNat).length = f.lead.length + figureCount f n.toNat := by
      rw [List.length_append, figures_length]
    have count_pos : 0 < figureCount f n.toNat := by rw [figureCount]; omega
    rw [formatNumber_eq, if_neg (by omega)]
    by_cases long : p.toInt ≤ figureCount f n.toNat
    · refine ⟨figures f n.toNat, ?_, ?_, @readNumber_figures f n.toNat 0⟩
      · split
        · exact text
        · rwa [padString_of_scan text.scan (by omega)]
      · rw [figures_length, figureCount] at *
        omega
    · have fit : p.toInt + f.lead.length < (s.setWidth 32).toInt :=
        fits.resolve_left (by rwa [figureCount] at long)
      have accepts : ¬ padRefuses p.toInt (s.setWidth 32).toInt f.lead.length := by
        rw [padRefuses]
        omega
      have figs := @figures_length f n.toNat
      have start : ((f.lead ++ figures f n.toNat).length : Int) - f.lead.length =
          (figures f n.toNat).length := by omega
      rw [if_neg (by grind), padString_of_shift accepts text.scan (by omega) (by omega), start]
      refine ⟨_, padCopies_text text (by omega) fit ?_, ?_, readNumber_figures⟩
      · rw [written, Buffer.storeList_size]
        exact narrowed
      · rw [List.length_append, List.length_replicate, figs, figureCount] at *
        omega

theorem number_text (large : 80 ≤ s.toNat) (nonneg : 0 ≤ p.toInt) (room : p.toInt + 3 ≤ s.toNat) :
    (LeavesNumber intToCharArray [] 10 n s p ↔ PaddingFits 10 [] n s p) ∧
    (LeavesNumber intToCharArrayHex [char '0', char 'x'] 16 n s p ↔
      PaddingFits 16 [char '0', char 'x'] n s p) ∧
    (LeavesNumber intToCharArrayBinary [char '0', char 'b'] 2 n s p ↔
      PaddingFits 2 [char '0', char 'b'] n s p) :=
  ⟨@formatNumber_leaves decimal n s p large nonneg room,
    @formatNumber_leaves hexadecimal n s p large nonneg room,
    @formatNumber_leaves binary n s p large nonneg room⟩

theorem number_text_eighty : LeavesNumber intToCharArray [] 10 255 80 4 ∧
    LeavesNumber intToCharArrayHex [char '0', char 'x'] 16 255 80 4 ∧
    LeavesNumber intToCharArrayBinary [char '0', char 'b'] 2 255 80 4 := by
  obtain ⟨ten, sixteen, two⟩ := @number_text 255 80 4 (by decide) (by decide) (by decide)
  exact ⟨ten.2 (.inr (by decide)), sixteen.2 (.inr (by decide)), two.2 (.inr (by decide))⟩

/-- Two gigabytes are no `int`: the seven stays alone. -/
theorem number_text_narrowed : 80 ≤ (0x80000000 : U64).toNat ∧ 0 ≤ (10 : U32).toInt ∧
    (10 : U32).toInt + 3 ≤ (0x80000000 : U64).toNat ∧
    ¬ LeavesNumber intToCharArray [] 10 7 0x80000000 10 := by
  refine ⟨by decide, by decide, by decide, fun leaves => ?_⟩
  have fits := (@formatNumber_leaves decimal 7 0x80000000 10 (by decide) (by decide) (by decide)).1
    leaves
  obtain short | padded := fits
  · have digits : (Nat.digits 10 7).length = 1 := by simp
    change (10 : Int) ≤ max (Nat.digits 10 7).length 1 at short
    rw [digits] at short
    exact absurd short (by decide)
  · exact absurd padded (by decide)

/-! ## Accesses -/

/-- The size test says no, or everything written fits and the text is not padded. -/
def StaysInside (f : NumberFormat) (n s : U64) (p : U32) : Prop :=
  (n ≠ 0 ∧ s.toNat < figureCount f n.toNat + f.counted) ∨
  (f.lead.length + figureCount f n.toNat < s.toNat ∧
    (p.toInt ≤ figureCount f n.toNat ∨
      padRefuses p.toInt (s.setWidth 32).toInt f.lead.length))

theorem formatNumber_inside (size : b.size = s.toNat) (inside : b.inside = true) :
    (formatNumber f n b s p stack).inside = true ↔ StaysInside f n s p := by
  rw [formatNumber_eq, StaysInside]
  by_cases refused : n ≠ 0 ∧ s.toNat < figureCount f n.toNat + f.counted
  · rw [if_pos refused]
    exact iff_of_true inside (.inl refused)
  have counted := f.counted_le
  have pos : 0 < figureCount f n.toNat := by rw [figureCount]; omega
  rw [if_neg refused, or_iff_right refused, ← size]
  by_cases early : p = 0 ∧ (n = 0 ∨ f.early = true)
  · obtain ⟨rfl, when⟩ := early
    have short : (0 : U32).toInt ≤ figureCount f n.toNat := Int.natCast_nonneg _
    rw [if_pos ⟨rfl, when⟩, written_inside, and_iff_right inside]
    exact (and_iff_left (.inl short)).symm
  rw [if_neg early, padString_inside (by omega), written_inside, and_assoc, and_iff_right inside]
  refine and_congr_right fun fits => ?_
  have length : (f.lead ++ figures f n.toNat).length = f.lead.length + figureCount f n.toNat := by
    rw [List.length_append, figures_length]
  rw [(written_text fits).scan, or_comm]
  refine or_congr_left ?_
  simp only [Option.some.injEq, exists_eq_left', length]
  omega

/-- The cells of a buffer up to the first terminator. -/
def Terminated (cells : Int → U8) (length : Nat) : Prop :=
  cells length = 0 ∧ ∀ k < length, cells (k : Nat) ≠ 0

theorem staysInside_printf (few : figureCount f n.toNat + f.counted ≤ 64) :
    StaysInside f n 64 0 ↔ f.lead.length + figureCount f n.toNat < 64 := by
  have none : (0 : U32).toInt ≤ figureCount f n.toNat := Int.natCast_nonneg _
  have refused : ¬ (n ≠ 0 ∧ (64 : U64).toNat < figureCount f n.toNat + f.counted) := fun h =>
    Nat.not_lt.2 few h.2
  rw [StaysInside, or_iff_right refused]
  exact and_iff_left (.inl none)

theorem number_bounds (n s : U64) (p : U32) (cells stack : Int → U8) (padding size start : Int)
    (filler : U8) :
    ((intToCharArray n ⟨s.toNat, cells, true⟩ s p stack).inside = true ↔
      StaysInside decimal n s p) ∧
    ((intToCharArrayHex n ⟨s.toNat, cells, true⟩ s p stack).inside = true ↔
      StaysInside hexadecimal n s p) ∧
    ((intToCharArrayBinary n ⟨s.toNat, cells, true⟩ s p stack).inside = true ↔
      StaysInside binary n s p) ∧
    ((padString padding ⟨size.toNat, cells, true⟩ size filler start stack).inside = true ↔
      padRefuses padding size start ∨ ∃ length < size.toNat, Terminated cells length ∧
        (length ≤ start ∨ padding ≤ length - start)) ∧
    (intToCharArray n ⟨64, cells, true⟩ 64 0 stack).inside = true ∧
      (intToCharArrayHex n ⟨64, cells, true⟩ 64 0 stack).inside = true ∧
      ((intToCharArrayBinary n ⟨64, cells, true⟩ 64 0 stack).inside = true ↔ n.toNat < 2 ^ 61) := by
  refine ⟨formatNumber_inside rfl rfl, formatNumber_inside rfl rfl, formatNumber_inside rfl rfl,
    ?_, ?_⟩
  · rw [padString_inside (by change _ → 0 < size.toNat → _; omega), and_iff_right rfl]
    simp only [Buffer.scan_eq_some, Terminated]
    grind
  · have ten : figureCount decimal n.toNat ≤ 20 :=
      (figureCount_le_iff (by decide)).2 (n.isLt.trans (by decide))
    have sixteen : figureCount hexadecimal n.toNat ≤ 16 := (figureCount_le_iff (by decide)).2 n.isLt
    have two : figureCount binary n.toNat ≤ 61 ↔ n.toNat < 2 ^ 61 := figureCount_le_iff (by decide)
    have bits := @figureCount_le binary n.toNat n.isLt
    rw [intToCharArray, intToCharArrayHex, intToCharArrayBinary, formatNumber_inside rfl rfl,
      formatNumber_inside rfl rfl, formatNumber_inside rfl rfl,
      @staysInside_printf decimal n (by change _ + 0 ≤ 64; omega),
      @staysInside_printf hexadecimal n (by change _ + 2 ≤ 64; omega),
      @staysInside_printf binary n bits, ← two]
    refine ⟨?_, ?_, ?_⟩
    · change 0 + figureCount decimal n.toNat < 64
      omega
    · change 2 + figureCount hexadecimal n.toNat < 64
      omega
    · change 2 + figureCount binary n.toNat < 64 ↔ _
      omega

/-- The largest binary number ends after the buffer of `printf`. -/
theorem number_bounds_printf :
    (intToCharArrayBinary (-1) ⟨64, fun _ => 0, true⟩ 64 0 fun _ => 0).inside = false := by
  by_contra inside
  rw [Bool.not_eq_false, intToCharArrayBinary, formatNumber_inside rfl rfl] at inside
  have bits := @figureCount_le binary (-1 : U64).toNat (-1 : U64).isLt
  have few : ¬ figureCount binary (-1 : U64).toNat ≤ 61 := fun few =>
    absurd ((figureCount_le_iff (by decide)).1 few) (by decide)
  have fits := (@staysInside_printf binary (-1) bits).1 inside
  change 2 + figureCount binary (-1 : U64).toNat < 64 at fits
  omega

end ChudOS
