import ChudOS.LowLevel.PageTables

/-!
# Memory as a program sees it

Bytes and quadwords at virtual addresses. A write to a page whose frame is mapped once in the lower
half, and is no page table, changes what is read at the addresses written and nowhere else.

## Main definitions

* `Private` — an address on such a page.
* `SameSpace` — the addresses lead to the same frames.
* `HoldsBytes` — the bytes that follow an address.
-/

namespace ChudOS

open Memory

/-- User programs and their stacks lie below this address. -/
def userEnd : Nat := 2 ^ 47

structure Private (m : Memory) (a : U64) (f : Nat) : Prop where
  mapped : translate m a = some f
  data : ¬IsTable m {frameOf m.paging.cr3} f
  alone : ∀ c : U64, c.toNat < userEnd → translate m c = some f →
    c.toNat / 0x1000 = a.toNat / 0x1000

/-- The page walks of `m'` end where those of `m` do. -/
structure SameSpace (m m' : Memory) : Prop where
  paging : m'.paging = m.paging
  translate : ∀ c, translate m' c = translate m c
  isTable : ∀ f, IsTable m' {frameOf m.paging.cr3} f ↔ IsTable m {frameOf m.paging.cr3} f

/-- The bytes `bs` lie from the address `a` on. -/
def HoldsBytes (m : Memory) (a : U64) (bs : List U8) : Prop :=
  ∀ c : U64, ∀ i, (hi : i < bs.length) → c.toNat = a.toNat + i → loadByte m c = some bs[i]

/-- From `m` to `m'` only the `n` bytes from `a` on have changed. -/
structure Written (m m' : Memory) (a : U64) (n : Nat) : Prop extends SameSpace m m' where
  same : ∀ c : U64, c.toNat < userEnd → ¬(a.toNat ≤ c.toNat ∧ c.toNat < a.toNat + n) →
    loadByte m' c = loadByte m c

variable {m m' m'' : Memory} {a c x : U64} {b : U8} {f k j n : Nat} {bs : List U8}

/-! ## Bytes of a quadword -/

theorem byteOf_getLsbD (x : U64) (k i : Nat) (hi : i < 8) :
    (byteOf x k).getLsbD i = x.getLsbD (8 * k + i) := by
  rw [byteOf, BitVec.getLsbD_setWidth, BitVec.getLsbD_ushiftRight]
  simp [hi]

theorem getLsbD_ff (p : Nat) : (0xFF : U64).getLsbD p = decide (p < 8) := by
  have ones : (0xFF : U64) = (BitVec.allOnes 8).setWidth 64 := by decide
  rw [ones, BitVec.getLsbD_setWidth, BitVec.getLsbD_allOnes]
  by_cases hp : p < 8
  · simp [hp, show p < 64 by omega]
  · simp [hp]

theorem byteOf_setByte (hk : k < 8) (hj : j < 8) :
    byteOf (setByte x k b) j = if j = k then b else byteOf x j := by
  apply BitVec.eq_of_getLsbD_eq
  intro i hi
  rw [byteOf_getLsbD _ _ _ hi, setByte, BitVec.getLsbD_or, BitVec.getLsbD_and, BitVec.getLsbD_not,
    BitVec.getLsbD_shiftLeft, BitVec.getLsbD_shiftLeft, BitVec.getLsbD_setWidth, getLsbD_ff]
  have inside : 8 * j + i < 64 := by omega
  rcases Nat.lt_trichotomy j k with lt | rfl | gt
  · rw [if_neg lt.ne, byteOf_getLsbD _ _ _ hi]
    simp [inside, show 8 * j + i < 8 * k by omega]
  · rw [if_pos rfl]
    simp [inside, hi, show ¬8 * j + i < 8 * j by omega, show i < 64 by omega]
  · rw [if_neg gt.ne', byteOf_getLsbD _ _ _ hi]
    have beyond : ¬8 * j + i - 8 * k < 8 := by omega
    simp [inside, beyond, BitVec.getLsbD_of_ge b _ (Nat.not_lt.mp beyond)]

theorem wordOfBytes_getLsbD (bs : List U8) (i : Nat) (hi : i < 64) :
    (wordOfBytes bs).getLsbD i = (bs.getD (i / 8) 0).getLsbD (i % 8) := by
  induction bs generalizing i with
  | nil => simp [wordOfBytes]
  | cons b bs ih =>
    rw [wordOfBytes, BitVec.getLsbD_or, BitVec.getLsbD_setWidth, BitVec.getLsbD_shiftLeft]
    by_cases low : i < 8
    · simp [low, hi, Nat.div_eq_of_lt low, Nat.mod_eq_of_lt low]
    · have rest : i / 8 = (i - 8) / 8 + 1 := by omega
      have bit : i % 8 = (i - 8) % 8 := by omega
      simp [low, hi, rest, bit, ih (i - 8) (by omega), BitVec.getLsbD_of_ge b i (by omega)]

@[simp] theorem length_bytesOf64 (x : U64) : (bytesOf64 x).length = 8 := rfl

@[simp] theorem wordOfBytes_bytesOf64 (x : U64) : wordOfBytes (bytesOf64 x) = x := by
  apply BitVec.eq_of_getLsbD_eq
  intro i hi
  have byte : i / 8 < 8 := by omega
  rw [wordOfBytes_getLsbD _ _ hi, bytesOf64]
  simp [byte, byteOf_getLsbD x _ _ (Nat.mod_lt i (by decide)), Nat.div_add_mod]

/-! ## One byte -/

theorem loadByte_of_translate (h : translate m a = some f) : loadByte m a =
    some (byteOf (m.ram f (a.toNat % 0x1000 / 8)) (a.toNat % 0x1000 % 8)) := by
  rw [loadByte, h]
  rfl

theorem SameSpace.refl : SameSpace m m := ⟨rfl, fun _ => rfl, fun _ => Iff.rfl⟩

theorem SameSpace.trans (h : SameSpace m m') (g : SameSpace m' m'') : SameSpace m m'' where
  paging := g.paging.trans h.paging
  translate c := (g.translate c).trans (h.translate c)
  isTable f := by
    have := g.isTable f
    rw [h.paging] at this
    exact this.trans (h.isTable f)

theorem Private.of_sameSpace (h : Private m a f) (same : SameSpace m m') : Private m' a f where
  mapped := (same.translate a).trans h.mapped
  data := by
    rw [same.paging]
    exact fun table => h.data ((same.isTable f).mp table)
  alone c hc eq := h.alone c hc ((same.translate c).symm.trans eq)

/-- The walk does not look at a frame that is no page table. -/
theorem setEntry_sameSpace {i : Nat} (data : ¬IsTable m {frameOf m.paging.cr3} f) :
    SameSpace m (m.setEntry (f, i) x) := by
  have tables (t : Nat) (ht : IsTable m {frameOf m.paging.cr3} t) :
      (m.setEntry (f, i) x).tables t = m.tables t := by
    have other : t ≠ f := fun eq => data (eq ▸ ht)
    funext j
    exact congrFun (Function.update_of_ne other _ _) j.val
  refine ⟨rfl, fun c => ?_, fun t => isTable_of_tables tables⟩
  rw [translate_eq, translate_eq]
  exact congrArg (·.bind link) (wordAt_of_tables (p := pathOf c) tables rfl (Nat.le_refl 3) _)

theorem storeByte_of_private (h : Private m a f) (b : U8) :
    ∃ m', storeByte m a b = some m' ∧ Written m m' a 1 ∧ loadByte m' a = some b := by
  have space : SameSpace m (m.setEntry (f, a.toNat % 0x1000 / 8)
      (setByte (m.ram f (a.toNat % 0x1000 / 8)) (a.toNat % 0x1000 % 8) b)) :=
    setEntry_sameSpace h.data
  refine ⟨_, by rw [storeByte, h.mapped]; rfl, ⟨space, fun c hc apart => ?_⟩, ?_⟩
  · cases eq : translate m c with
    | none => rw [loadByte, loadByte, space.translate, eq]; rfl
    | some g =>
      rw [loadByte_of_translate ((space.translate c).trans eq), loadByte_of_translate eq]
      by_cases frame : g = f
      · -- on the same page, but at another offset
        subst frame
        have page := h.alone c hc eq
        by_cases word : c.toNat % 0x1000 / 8 = a.toNat % 0x1000 / 8
        · rw [word, setEntry]
          simp only [Function.update_self]
          rw [byteOf_setByte (Nat.mod_lt _ (by decide)) (Nat.mod_lt _ (by decide)), if_neg (by omega)]
        · simp [setEntry, word]
      · simp [setEntry, frame]
  · rw [loadByte_of_translate ((space.translate a).trans h.mapped), setEntry]
    simp only [Function.update_self]
    rw [byteOf_setByte (Nat.mod_lt _ (by decide)) (Nat.mod_lt _ (by decide)), if_pos rfl]

/-! ## Several bytes -/

theorem Written.mono (h : Written m m' a n) {k : Nat} (le : n ≤ k) : Written m m' a k :=
  ⟨h.toSameSpace, fun c hc apart => h.same c hc fun inside => apart (by omega)⟩

/-- `n` addresses from `a` on, each on a page of its own program. -/
def PrivateRange (m : Memory) (a : U64) (n : Nat) : Prop :=
  a.toNat + n ≤ userEnd ∧
    ∀ c : U64, a.toNat ≤ c.toNat → c.toNat < a.toNat + n → ∃ f, Private m c f

theorem PrivateRange.of_sameSpace (h : PrivateRange m a n) (same : SameSpace m m') :
    PrivateRange m' a n :=
  ⟨h.1, fun c ge lt => (h.2 c ge lt).imp fun _ hf => hf.of_sameSpace same⟩

theorem PrivateRange.mono (h : PrivateRange m a n) (ge : a.toNat ≤ c.toNat)
    (le : c.toNat + k ≤ a.toNat + n) : PrivateRange m c k :=
  ⟨by have := h.1; omega, fun d hd hd' => h.2 d (by omega) (by omega)⟩

theorem toNat_succ (h : a.toNat < userEnd) : (a + 1).toNat = a.toNat + 1 := by
  unfold userEnd at h
  rw [BitVec.toNat_add]
  exact Nat.mod_eq_of_lt (by change a.toNat + 1 < _; omega)

theorem copyOut_of_private (h : PrivateRange m a bs.length) :
    ∃ m', copyOut m a bs = some m' ∧ Written m m' a bs.length ∧ HoldsBytes m' a bs := by
  induction bs generalizing m a with
  | nil => exact ⟨m, rfl, ⟨.refl, fun _ _ _ => rfl⟩, fun c i hi => absurd hi (Nat.not_lt_zero i)⟩
  | cons b bs ih =>
    rw [List.length_cons] at h
    have low : a.toNat < userEnd := by have := h.1; omega
    have succ := toNat_succ low
    obtain ⟨f, here⟩ := h.2 a (Nat.le_refl _) (by omega)
    obtain ⟨m₁, eq₁, written₁, read₁⟩ := storeByte_of_private here b
    obtain ⟨m₂, eq₂, written₂, read₂⟩ := ih (a := a + 1)
      ((h.mono (by omega) (by omega)).of_sameSpace written₁.toSameSpace)
    refine ⟨m₂, by rw [copyOut, eq₁]; exact eq₂, ⟨written₁.trans written₂.toSameSpace,
      fun c hc apart => ?_⟩, fun c i hi at_i => ?_⟩
    · rw [List.length_cons] at apart
      rw [written₂.same c hc (by omega), written₁.same c hc (by omega)]
    · cases i with
      | zero =>
        obtain rfl : c = a := BitVec.eq_of_toNat_eq at_i
        rw [written₂.same c low (by omega), read₁]
        rfl
      | succ i => exact read₂ c i (by simpa using hi) (by omega)

theorem copyIn_of_holds (h : HoldsBytes m a bs) (low : a.toNat + bs.length ≤ userEnd) :
    copyIn m a bs.length = some bs := by
  induction bs generalizing a with
  | nil => rfl
  | cons b bs ih =>
    rw [List.length_cons] at low
    have succ := toNat_succ (a := a) (by omega)
    have first := h a 0 (by simp) rfl
    have rest := ih (a := a + 1) (fun c i hi at_i => h c (i + 1) (by simpa using hi) (by omega))
      (by omega)
    rw [List.length_cons, copyIn, first]
    simp only [Option.bind_eq_bind, Option.bind_some, rest]
    rfl

/-- Bytes that were not written are still there. -/
theorem HoldsBytes.of_written (h : HoldsBytes m a bs) (written : Written m m' c n)
    (low : a.toNat + bs.length ≤ userEnd)
    (apart : a.toNat + bs.length ≤ c.toNat ∨ c.toNat + n ≤ a.toNat) : HoldsBytes m' a bs := by
  intro d i hi at_i
  rw [written.same d (by omega) (by omega)]
  exact h d i hi at_i

theorem store64_of_private (h : PrivateRange m a 8) (x : U64) :
    ∃ m', store64 m a x = some m' ∧ Written m m' a 8 ∧ HoldsBytes m' a (bytesOf64 x) := by
  rw [← length_bytesOf64 x] at h ⊢
  exact copyOut_of_private h

theorem load64_of_holds (h : HoldsBytes m a (bytesOf64 x)) (low : a.toNat + 8 ≤ userEnd) :
    load64 m a = some x := by
  have read := copyIn_of_holds h low
  rw [length_bytesOf64] at read
  rw [load64, read, Option.map_some, wordOfBytes_bytesOf64]

end ChudOS
