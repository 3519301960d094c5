import ChudOS.LowLevel.VirtualMemory

/-!
# Bytes that are pushed on a stack

A write is followed down to the bytes of the frames: what it changes are the places of the addresses
written, in every address space. Bytes that are pushed one below the other lie in one piece under
the address where the stack began.

## Main definitions

* `Changed` — only bytes at given places have changed.
* `Ready` — addresses that can be written, each to a place of its own.
* `Pushed` — the bytes that were pushed since a point.
-/

namespace ChudOS

open Memory

namespace Memory

/-- The byte `o` of a frame. -/
def frameByte (m : Memory) (f o : Nat) : U8 := byteOf (m.ram f (o / 8)) (o % 8)

end Memory

/-- The frame of an address, and the offset in it. -/
def placeOf (m : Memory) (a : U64) : Option (Nat × Nat) :=
  (translate m a).map fun f => (f, a.toNat % 0x1000)

/-- The places of the `n` bytes from an address on. -/
def Places (m : Memory) (a : U64) (n : Nat) (p : Nat × Nat) : Prop :=
  ∃ i < n, placeOf m (a + BitVec.ofNat 64 i) = some p

/-- From `m` to `m'` only bytes at the places `p` have changed. -/
structure Changed (m m' : Memory) (p : Nat × Nat → Prop) : Prop extends SameSpace m m' where
  frame : ∀ f o, ¬ p (f, o) → m'.frameByte f o = m.frameByte f o
  rest : m' = { m with ram := m'.ram }

/-- The bytes `bs` lie from the address `a` on. -/
def BytesAt (m : Memory) (a : U64) (bs : List U8) : Prop :=
  ∀ i, (hi : i < bs.length) → loadByte m (a + BitVec.ofNat 64 i) = some bs[i]

/-- `n` addresses that are mapped to different places, none of them in a page table. -/
structure Ready (m : Memory) (a : U64) (n : Nat) : Prop where
  mapped : ∀ i < n, ∃ f, translate m (a + BitVec.ofNat 64 i) = some f ∧
    ¬ IsTable m {frameOf m.paging.cr3} f
  apart : ∀ i j, i < n → j < n →
    placeOf m (a + BitVec.ofNat 64 i) = placeOf m (a + BitVec.ofNat 64 j) → i = j

/-- From `m₀` to `m` the bytes `bs` were pushed on a stack that began at `top`. -/
structure Pushed (m₀ m : Memory) (top : U64) (bs : List U8) : Prop where
  changed : Changed m₀ m (Places m₀ (top - BitVec.ofNat 64 bs.length) bs.length)
  held : BytesAt m (top - BitVec.ofNat 64 bs.length) bs

variable {m m' m'' m₀ m₁ : Memory} {a c top x : U64} {b : U8} {f k j n : Nat} {bs xs ys : List U8}
  {p q : Nat × Nat → Prop}

/-! ## Places -/

theorem loadByte_eq : loadByte m a = (placeOf m a).map fun p => m.frameByte p.1 p.2 := by
  rw [loadByte, placeOf]
  cases translate m a <;> rfl

theorem SameSpace.placeOf (h : SameSpace m m') : placeOf m' a = placeOf m a := by
  rw [ChudOS.placeOf, ChudOS.placeOf, h.translate]

theorem SameSpace.places (h : SameSpace m m') : Places m' a n = Places m a n := by
  funext p
  simp only [Places, h.placeOf]

theorem add_ofNat_add (a : U64) (i j : Nat) :
    a + BitVec.ofNat 64 i + BitVec.ofNat 64 j = a + BitVec.ofNat 64 (i + j) := by
  rw [BitVec.ofNat_add, BitVec.add_assoc]

theorem add_one_ofNat (a : U64) (i : Nat) :
    a + 1 + BitVec.ofNat 64 i = a + BitVec.ofNat 64 (i + 1) := by
  rw [Nat.add_comm i]
  exact add_ofNat_add a 1 i

theorem sub_ofNat_add (a : U64) (i j : Nat) :
    a - BitVec.ofNat 64 (i + j) + BitVec.ofNat 64 i = a - BitVec.ofNat 64 j := by
  rw [BitVec.ofNat_add]
  grind

namespace Changed

theorem refl : Changed m m p := ⟨.refl, fun _ _ _ => rfl, rfl⟩

theorem trans (h : Changed m m' p) (g : Changed m' m'' q) :
    Changed m m'' fun x => p x ∨ q x where
  toSameSpace := h.toSameSpace.trans g.toSameSpace
  frame f o out := (g.frame f o fun hq => out (.inr hq)).trans (h.frame f o fun hp => out (.inl hp))
  rest := by
    rw [g.rest]
    conv => lhs; rw [h.rest]

theorem mono (h : Changed m m' p) (le : ∀ x, p x → q x) : Changed m m' q :=
  ⟨h.toSameSpace, fun f o out => h.frame f o fun hp => out (le _ hp), h.rest⟩

/-- A byte at another place is still there. -/
theorem loadByte (h : Changed m m' p) (out : ∀ x, placeOf m a = some x → ¬ p x) :
    loadByte m' a = ChudOS.loadByte m a := by
  rw [loadByte_eq, loadByte_eq, h.placeOf]
  cases eq : placeOf m a with
  | none => rfl
  | some x => exact congrArg some (h.frame x.1 x.2 (out x eq))

end Changed

namespace Ready

theorem sub (h : Ready m a n) (le : k + j ≤ n) : Ready m (a + BitVec.ofNat 64 k) j where
  mapped i hi := by
    rw [add_ofNat_add]
    exact h.mapped _ (by omega)
  apart i i' hi hi' eq := by
    rw [add_ofNat_add, add_ofNat_add] at eq
    have := h.apart _ _ (by omega) (by omega) eq
    omega

theorem of_sameSpace (h : Ready m a n) (same : SameSpace m m') : Ready m' a n where
  mapped i hi := by
    obtain ⟨f, eq, data⟩ := h.mapped i hi
    refine ⟨f, (same.translate _).trans eq, fun table => data ((same.isTable f).mp ?_)⟩
    rw [same.paging] at table
    exact table
  apart i j hi hj eq := by
    rw [same.placeOf, same.placeOf] at eq
    exact h.apart i j hi hj eq

end Ready

/-! ## Writing -/

theorem storeByte_changed (h : Ready m a 1) (b : U8) :
    ∃ m', storeByte m a b = some m' ∧ Changed m m' (Places m a 1) ∧ loadByte m' a = some b := by
  obtain ⟨f, eq, data⟩ := h.mapped 0 (by decide)
  have zero : a + BitVec.ofNat 64 0 = a := BitVec.add_zero a
  rw [zero] at eq
  have space : SameSpace m (m.setEntry (f, a.toNat % 0x1000 / 8)
      (setByte (m.ram f (a.toNat % 0x1000 / 8)) (a.toNat % 0x1000 % 8) b)) := setEntry_sameSpace data
  have here : Places m a 1 (f, a.toNat % 0x1000) := ⟨0, by decide, by rw [zero, placeOf, eq]; rfl⟩
  refine ⟨_, by rw [storeByte, eq]; rfl, ⟨space, fun g o out => ?_, rfl⟩, ?_⟩
  · rw [frameByte, frameByte, setEntry]
    by_cases frame : g = f
    · subst frame
      by_cases word : o / 8 = a.toNat % 0x1000 / 8
      · -- another byte of the word
        have other : o % 8 ≠ a.toNat % 0x1000 % 8 := fun byte => out (by
          have same : o = a.toNat % 0x1000 := by omega
          exact same ▸ here)
        rw [word]
        simp only [Function.update_self]
        rw [byteOf_setByte (Nat.mod_lt _ (by decide)) (Nat.mod_lt _ (by decide)), if_neg other]
      · simp [word]
    · simp [frame]
  · rw [loadByte_of_translate ((space.translate a).trans eq), setEntry]
    simp only [Function.update_self]
    rw [byteOf_setByte (Nat.mod_lt _ (by decide)) (Nat.mod_lt _ (by decide)), if_pos rfl]

theorem copyOut_changed (h : Ready m a bs.length) :
    ∃ m', copyOut m a bs = some m' ∧ Changed m m' (Places m a bs.length) ∧ BytesAt m' a bs := by
  induction bs generalizing m a with
  | nil => exact ⟨m, rfl, .refl, fun i hi => absurd hi (Nat.not_lt_zero i)⟩
  | cons b bs ih =>
    rw [List.length_cons] at h
    have zero : a + BitVec.ofNat 64 0 = a := BitVec.add_zero a
    have first : Ready m a 1 := zero ▸ h.sub (k := 0) (j := 1) (by omega)
    have rest : Ready m (a + 1) bs.length := h.sub (k := 1) (by omega)
    obtain ⟨m₁, eq₁, changed₁, read₁⟩ := storeByte_changed first b
    obtain ⟨m₂, eq₂, changed₂, read₂⟩ := ih (rest.of_sameSpace changed₁.toSameSpace)
    rw [changed₁.toSameSpace.places] at changed₂
    refine ⟨m₂, by rw [copyOut, eq₁]; exact eq₂, (changed₁.trans changed₂).mono fun x inside => ?_,
      fun i hi => ?_⟩
    · rcases inside with ⟨i, hi, at_i⟩ | ⟨i, hi, at_i⟩
      · exact ⟨i, by simp; omega, at_i⟩
      · exact ⟨i + 1, by simpa using hi, add_one_ofNat a i ▸ at_i⟩
    · cases i with
      | zero =>
        rw [zero]
        refine (changed₂.loadByte fun x at_a => ?_).trans read₁
        rintro ⟨i, hi, at_i⟩
        rw [changed₁.toSameSpace.placeOf, ← at_i, add_one_ofNat] at at_a
        have := h.apart 0 (i + 1) (by omega) (by omega) (zero.symm ▸ at_a)
        omega
      | succ i =>
        rw [← add_one_ofNat]
        exact read₂ i (by simpa using hi)

/-! ## Reading -/

theorem copyIn_of_bytesAt (h : BytesAt m a bs) : copyIn m a bs.length = some bs := by
  induction bs generalizing a with
  | nil => rfl
  | cons b bs ih =>
    have first := h 0 (by simp)
    rw [BitVec.add_zero] at first
    have rest := ih (a := a + 1) fun i hi => by
      rw [add_one_ofNat]
      exact h (i + 1) (by simpa using hi)
    rw [List.length_cons, copyIn, first]
    simp only [Option.bind_eq_bind, Option.bind_some, rest]
    rfl

theorem load64_of_bytesAt (h : BytesAt m a (bytesOf64 x)) : load64 m a = some x := by
  have read := copyIn_of_bytesAt h
  rw [length_bytesOf64] at read
  rw [load64, read, Option.map_some, wordOfBytes_bytesOf64]

/-- A part of the bytes. -/
theorem BytesAt.part (h : BytesAt m a (xs ++ bs ++ ys)) :
    BytesAt m (a + BitVec.ofNat 64 xs.length) bs := by
  intro i hi
  rw [add_ofNat_add, h (xs.length + i) (by simp; omega)]
  simp [hi]

/-! ## Pushing -/

namespace Pushed

theorem nil : Pushed m m top [] := ⟨.refl, fun i hi => absurd hi (Nat.not_lt_zero i)⟩

/-- Bytes below those that were pushed. -/
theorem write (h : Pushed m₀ m top bs) (ready : Ready m₀ (top - BitVec.ofNat 64 n) n)
    (room : xs.length + bs.length ≤ n) :
    ∃ m', copyOut m (top - BitVec.ofNat 64 (xs.length + bs.length)) xs = some m' ∧
      Pushed m₀ m' top (xs ++ bs) := by
  have start (k : Nat) (le : k ≤ n) : top - BitVec.ofNat 64 n + BitVec.ofNat 64 (n - k) =
      top - BitVec.ofNat 64 k := by
    have split : n = (n - k) + k := by omega
    conv => lhs; rw [split]
    rw [Nat.add_sub_cancel]
    exact sub_ofNat_add top (n - k) k
  have here : Ready m₀ (top - BitVec.ofNat 64 (xs.length + bs.length)) (xs.length + bs.length) :=
    start _ room ▸ ready.sub (by omega)
  have upper := sub_ofNat_add top xs.length bs.length
  have zero (c : U64) : c + BitVec.ofNat 64 0 = c := BitVec.add_zero c
  obtain ⟨m', eq, changed, held⟩ := @copyOut_changed m
    (top - BitVec.ofNat 64 (xs.length + bs.length)) xs
    ((zero _ ▸ here.sub (k := 0) (j := xs.length) (by omega)).of_sameSpace h.changed.toSameSpace)
  rw [h.changed.toSameSpace.places] at changed
  have base : top - BitVec.ofNat 64 (xs ++ bs).length =
      top - BitVec.ofNat 64 (xs.length + bs.length) := by rw [List.length_append]
  refine ⟨m', eq, ?_, fun i hi => ?_⟩
  · rw [List.length_append]
    refine (h.changed.trans changed).mono fun x inside => ?_
    rcases inside with ⟨i, hi, at_i⟩ | ⟨i, hi, at_i⟩
    · refine ⟨xs.length + i, by omega, ?_⟩
      rw [← add_ofNat_add, upper]
      exact at_i
    · exact ⟨i, by omega, at_i⟩
  · rw [base]
    rw [List.length_append] at hi
    by_cases new : i < xs.length
    · rw [held i new, List.getElem_append_left new]
    · obtain ⟨j, rfl⟩ : ∃ j, i = xs.length + j := ⟨i - xs.length, by omega⟩
      rw [← add_ofNat_add, upper, List.getElem_append_right (by omega)]
      have old := h.held j (by omega)
      simp only [Nat.add_sub_cancel_left]
      refine (changed.loadByte fun x at_j => ?_).trans old
      rintro ⟨i, hi, at_i⟩
      rw [h.changed.toSameSpace.placeOf, ← at_i, ← upper, add_ofNat_add] at at_j
      have := here.apart _ _ (by omega) (by omega) at_j
      omega

/-- What was pushed determines the memory. -/
theorem unique (h : Pushed m₀ m top bs) (g : Pushed m₀ m' top bs) : m = m' := by
  have byte (f o : Nat) : m.frameByte f o = m'.frameByte f o := by
    by_cases inside : Places m₀ (top - BitVec.ofNat 64 bs.length) bs.length (f, o)
    · obtain ⟨i, hi, at_i⟩ := inside
      have here := h.held i hi
      have there := g.held i hi
      rw [loadByte_eq, h.changed.toSameSpace.placeOf, at_i] at here
      rw [loadByte_eq, g.changed.toSameSpace.placeOf, at_i] at there
      exact Option.some.inj (here.trans there.symm)
    · rw [h.changed.frame f o inside, g.changed.frame f o inside]
  have same : m.ram = m'.ram := by
    funext f i
    refine BitVec.eq_of_getLsbD_eq fun k hk => ?_
    have eq := byte f (8 * i + k / 8)
    have word : (8 * i + k / 8) / 8 = i := by omega
    have offset : (8 * i + k / 8) % 8 = k / 8 := by omega
    rw [frameByte, frameByte, word, offset] at eq
    have bit := congrArg (fun b : U8 => b.getLsbD (k % 8)) eq
    simp only [byteOf_getLsbD _ _ _ (Nat.mod_lt k (show 0 < 8 by decide)), Nat.div_add_mod] at bit
    exact bit
  rw [h.changed.rest, g.changed.rest, same]

end Pushed

end ChudOS
