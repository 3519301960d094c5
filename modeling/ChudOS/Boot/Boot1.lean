import ChudOS.Devices.Floppy

/-!
# The boot loader's sector addresses

`calculate_LBA_to_CHS` of `boot1.s`, on the registers it uses.
-/

namespace ChudOS

structure BootRegisters where
  ax : U16
  bx : U16
  dx : U16
  deriving DecidableEq, Repr

/-- `div bx`: the quotient of `dx:ax` goes to `ax`, the remainder to `dx`. The processor raises an
exception when the divisor is zero or the quotient too large. -/
def BootRegisters.div (r : BootRegisters) : Option BootRegisters :=
  let dividend := r.dx.toNat * 2 ^ 16 + r.ax.toNat
  if r.bx = 0 ∨ 2 ^ 16 ≤ dividend / r.bx.toNat then none
  else some { r with
    ax := BitVec.ofNat 16 (dividend / r.bx.toNat)
    dx := BitVec.ofNat 16 (dividend % r.bx.toNat) }

/-- The low byte of `target_cylinder`, `target_head` and `target_sector`. -/
structure TargetCHS where
  targetCylinder : U8
  targetHead : U8
  targetSector : U8
  deriving DecidableEq, Repr

def calculateLBAToCHS (info : FloppyInfo) (ax : U16) : Option TargetCHS := do
  let r : BootRegisters := { ax := ax, bx := 0, dx := 0 }
  let r := { r with bx := info.sectorMax.setWidth 16 }
  let r ← r.div
  let r := { r with dx := r.dx + 1 }
  let targetSector := r.dx.setWidth 8
  let r := { r with bx := 0, dx := 0 }
  let r := { r with bx := r.bx &&& 0xFF00 ||| info.headCount.setWidth 16 }
  let r ← r.div
  let targetHead := r.dx.setWidth 8
  let targetCylinder := r.ax.setWidth 8
  some ⟨targetCylinder, targetHead, targetSector⟩

/-- With a clear upper half the division cannot overflow. -/
theorem BootRegisters.div_low {r : BootRegisters} (clear : r.dx = 0) (divisor : r.bx ≠ 0) :
    r.div = some { r with
      ax := BitVec.ofNat 16 (r.ax.toNat / r.bx.toNat)
      dx := BitVec.ofNat 16 (r.ax.toNat % r.bx.toNat) } := by
  have low : r.dx.toNat * 2 ^ 16 + r.ax.toNat = r.ax.toNat := by simp [clear]
  have fits : r.ax.toNat / r.bx.toNat < 2 ^ 16 :=
    Nat.lt_of_le_of_lt (Nat.div_le_self _ _) r.ax.isLt
  unfold BootRegisters.div
  dsimp only
  rw [low, if_neg (by simp only [not_or, Nat.not_le]; exact ⟨divisor, fits⟩)]

theorem calculateLBAToCHS_eq {info : FloppyInfo} (sectors : 0 < info.sectorMax.toNat)
    (heads : 0 < info.headCount.toNat) (ax : U16) : calculateLBAToCHS info ax = some
      ⟨BitVec.ofNat 8 (ax.toNat / info.sectorMax.toNat / info.headCount.toNat),
        BitVec.ofNat 8 (ax.toNat / info.sectorMax.toNat % info.headCount.toNat),
        BitVec.ofNat 8 (ax.toNat % info.sectorMax.toNat + 1)⟩ := by
  have sectors' := info.sectorMax.isLt
  have heads' := info.headCount.isLt
  have divisor : info.sectorMax.setWidth 16 ≠ 0 := fun zero => by
    have := congrArg BitVec.toNat zero
    simp at this
    omega
  have divisor' : info.headCount.setWidth 16 ≠ 0 := fun zero => by
    have := congrArg BitVec.toNat zero
    simp at this
    omega
  have bl : (0 &&& 0xFF00 ||| info.headCount.setWidth 16 : U16) = info.headCount.setWidth 16 := by
    simp
  have quotient := Nat.lt_of_le_of_lt (Nat.div_le_self ax.toNat info.sectorMax.toNat) ax.isLt
  unfold calculateLBAToCHS
  dsimp only
  rw [BootRegisters.div_low rfl divisor]
  simp only [Option.bind_eq_bind, Option.bind_some, bl]
  rw [BootRegisters.div_low rfl divisor']
  simp only [Option.bind_some, BitVec.toNat_setWidth, BitVec.toNat_ofNat, Option.some.injEq,
    TargetCHS.mk.injEq]
  rw [Nat.mod_eq_of_lt (by omega : info.sectorMax.toNat < 2 ^ 16),
    Nat.mod_eq_of_lt (by omega : info.headCount.toNat < 2 ^ 16), Nat.mod_eq_of_lt quotient]
  refine ⟨?_, ?_, ?_⟩
  all_goals
    apply BitVec.eq_of_toNat_eq
    simp

end ChudOS
