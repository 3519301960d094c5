import ChudOS.Boot.Boot1
import ChudOS.FloppyTransfer

/-!
# Sector addresses

The kernel's driver and the boot loader compute the same address of a sector, and different sectors
have different addresses.
-/

namespace ChudOS

variable {info : FloppyInfo} {lba lba' : U64}

/-- The address is that of the sector, and the boot loader stores the same. -/
structure Addressed (info : FloppyInfo) (lba : U64) (chs : CHS) : Prop where
  first : 1 ≤ chs.sector.toNat
  sector : chs.sector.toNat ≤ info.sectorMax.toNat
  head : chs.head.toNat < info.headCount.toNat
  position : (chs.cylinder.toNat * info.headCount.toNat + chs.head.toNat) * info.sectorMax.toNat +
    (chs.sector.toNat - 1) = lba.toNat
  boot : calculateLBAToCHS info (lba.setWidth 16) =
    some ⟨chs.cylinder.setWidth 8, chs.head.setWidth 8, chs.sector.setWidth 8⟩

theorem floppyLBAToCHS_addressed (heads : 0 < info.headCount.toNat)
    (sectors : 0 < info.sectorMax.toNat) (small : lba.toNat < 65536) :
    Addressed info lba (floppyLBAToCHS info lba) := by
  have low : (lba.setWidth 16).toNat = lba.toNat := by
    rw [BitVec.toNat_setWidth]
    exact Nat.mod_eq_of_lt small
  obtain ⟨c, h, s⟩ := @floppyLBAToCHS_toNat info lba heads sectors
    (Nat.lt_of_le_of_lt (Nat.div_le_self _ _) small)
  have head := Nat.mod_lt (lba.toNat / info.sectorMax.toNat) heads
  have sector := Nat.mod_lt lba.toNat sectors
  refine ⟨by omega, by omega, by omega, ?_, ?_⟩
  · rw [c, h, s, Nat.add_sub_cancel, split_sector]
  · rw [calculateLBAToCHS_eq sectors heads, low, Nat.div_div_eq_div_mul,
      Nat.mul_comm info.sectorMax.toNat, ← c, ← h, ← s]
    simp only [BitVec.ofNat_toNat]

/-- The three bytes of a command name one place on the medium. -/
theorem floppyCHS_inj (heads : 0 < info.headCount.toNat) (sectors : 0 < info.sectorMax.toNat)
    (fits : lba.toNat / (info.headCount.toNat * info.sectorMax.toNat) < 256)
    (fits' : lba'.toNat / (info.headCount.toNat * info.sectorMax.toNat) < 256)
    (same : floppyCHS info lba = floppyCHS info lba') : lba = lba' := by
  rw [floppyCHS_eq heads sectors, floppyCHS_eq heads sectors] at same
  injection same with bytes
  have start : info.startOf lba = info.startOf lba' :=
    congrArg (fun chs : U8 × U8 × U8 => info.position chs.1 chs.2.1 chs.2.2) bytes
  rw [FloppyInfo.startOf_eq heads sectors fits, FloppyInfo.startOf_eq heads sectors fits'] at start
  exact BitVec.eq_of_toNat_eq start

/-- For every geometry of a floppy disk. -/
theorem sector_addresses (heads : 1 ≤ info.headCount.toNat ∧ info.headCount.toNat ≤ 255)
    (sectors : 1 ≤ info.sectorMax.toNat ∧ info.sectorMax.toNat ≤ 63) :
    (∀ lba : U64, lba.toNat < 65536 → Addressed info lba (floppyLBAToCHS info lba)) ∧
      ∀ lba lba' : U64, lba ≠ lba' →
        lba.toNat < 256 * (info.headCount.toNat * info.sectorMax.toNat) →
        lba'.toNat < 256 * (info.headCount.toNat * info.sectorMax.toNat) →
        ∃ chs chs', floppyCHS info lba = .ok chs ∧ floppyCHS info lba' = .ok chs' ∧ chs ≠ chs' := by
  refine ⟨fun lba small => floppyLBAToCHS_addressed heads.1 sectors.1 small, ?_⟩
  intro lba lba' ne below below'
  have done (lba : U64) := @floppyCHS_eq info lba heads.1 sectors.1
  refine ⟨_, _, done lba, done lba', fun same => ne ?_⟩
  refine floppyCHS_inj heads.1 sectors.1 (Nat.div_lt_of_lt_mul ?_) (Nat.div_lt_of_lt_mul ?_) ?_
  · rwa [Nat.mul_comm]
  · rwa [Nat.mul_comm]
  · rw [done, done, same]

/-- A disk of 1.44 MB. -/
theorem sector_addresses_floppy : ∃ chs chs', floppyCHS ⟨2, 18⟩ 0 = .ok chs ∧
    floppyCHS ⟨2, 18⟩ 2879 = .ok chs' ∧ chs ≠ chs' :=
  (@sector_addresses ⟨2, 18⟩ (by decide) (by decide)).2 0 2879 (by decide) (by decide)
    (by decide)

end ChudOS
