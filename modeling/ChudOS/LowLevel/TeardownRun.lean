import ChudOS.LowLevel.Teardown

/-!
# The run of a tear-down

Each of the three loops ends: the first present entry moves up with each turn. Besides the entry it
clears, a turn writes below this entry and in the page tables of the direct map.

## Main definitions

* `Within` — an operation writes only to the table at a path and those below it, and to page tables
  of the direct map.
-/

namespace ChudOS

open Memory

variable {m m' m'' : Memory} {root t fuel : Nat} {p q : List (Fin 512)} {i : Fin 512}

/-- A table that is neither at `p` nor below it, and no page table of the kernel half. -/
def Outside (m : Memory) (root : Nat) (p : List (Fin 512)) (t : Nat) : Prop :=
  ∀ q, q.length ≤ 3 → m.tableAt root q = some t → ¬p <+: q ∧ (LowerPath q ∨ q.length < 3)

/-- From `m` to `m'` some links at `p` and below have been cut, and outside nothing is written. -/
structure Within (root : Nat) (p : List (Fin 512)) (m m' : Memory) : Prop where
  clears : Clears {root} p m m'
  words : ∀ t, Outside m root p t → ∀ j, m'.tables t j = m.tables t j

theorem outside_of_not_isTable (other : ¬IsTable m {root} t) : Outside m root p t :=
  fun q hq ht => absurd ⟨root, rfl, q, hq, ht⟩ other

theorem outside_of_tableAt (hm : Trees m {root}) (hq : q.length ≤ 3)
    (ht : m.tableAt root q = some t) (away : ¬p <+: q) (kind : LowerPath q ∨ q.length < 3) :
    Outside m root p t := by
  intro q' hq' ht'
  obtain rfl := hm.separated.path_eq rfl rfl hq hq' ht ht'
  exact ⟨away, kind⟩

namespace Within

theorem refl : Within root p m m := ⟨.refl, fun _ _ _ => rfl⟩

theorem trans (h : Within root p m m') (g : Within root p m' m'') : Within root p m m'' where
  clears := h.clears.trans g.clears
  words t outside j := by
    have outside' : Outside m' root p t := fun q hq ht =>
      outside q hq (h.clears.sub root rfl q t hq ht)
    rw [g.words t outside' j, h.words t outside j]

theorem above (h : Within root (p ++ [i]) m m') : Within root p m m' where
  clears := h.clears.above
  words t outside := h.words t fun q hq ht =>
    ⟨fun below => (outside q hq ht).1 ((List.prefix_append p [i]).trans below),
      (outside q hq ht).2⟩

end Within

theorem freeTable_within (hm : Trees m {root}) (current : frameOf m.paging.pml4Physical = root)
    {table a : U64} {pt : Nat}
    (mapped : m.tableAt root (pathOf (table + virtualMemoryBarrier)) = some pt)
    (upper : ¬LowerPath (pathOf (table + virtualMemoryBarrier))) :
    Within root p m (freeTable m table a) where
  clears := freeTable_clears hm current (current ▸ mapped) a
  words t outside j := by
    have ne : t ≠ pt := by
      rintro rfl
      obtain ⟨-, lower | short⟩ := outside _ (pathOf_length _).le mapped
      · exact upper lower
      · exact absurd short (by rw [pathOf_length]; decide)
    obtain unchanged | cleared := freeTable_cases hm current (current ▸ mapped) a
    · rw [unchanged]
    · rw [cleared, tables_setEntry, RadixTree.write_of_ne_table ne]
      unfold Memory.tables
      rw [dropReference_ram]

theorem setEntry_within (hm : Trees m {root}) (hp : p.length ≤ 2)
    (hpt : m.tableAt root p = some t) (lower : LowerPath (p ++ [i])) :
    Within root p m (m.setEntry (t, i.val) 0) where
  clears := setEntry_clears hm rfl hp hpt lower
  words u outside j := by
    have ne : u ≠ t := by
      rintro rfl
      exact (outside p (by omega) hpt).1 List.prefix_rfl
    rw [tables_setEntry, RadixTree.write_of_ne_table ne]

/-- One turn of a loop, with the entry that it clears. -/
theorem clearEntry_within (hm : Clearable {root} m) (hp : p.length ≤ 2)
    (hpt : m.tableAt root p = some t) {e a : U64}
    (present : link (m.tables t i) = some (pteFrame e)) (lower : LowerPath (p ++ [i]))
    (kind : LowerPath p ∨ p = []) (below : Within root (p ++ [i]) m m') :
    Within root p m ((freeTable m' (pteAddr e) a).setEntry (t, i.val) 0) ∧
      ∀ j, ((freeTable m' (pteAddr e) a).setEntry (t, i.val) 0).tables t j =
        if j = i then 0 else m.tables t j := by
  have current : frameOf m.paging.pml4Physical = root := hm.current
  have hpi : (p ++ [i]).length ≤ 3 := by
    rw [List.length_append, List.length_singleton]
    omega
  have table : m.tableAt root (p ++ [i]) = some (pteFrame e) :=
    RadixTree.tableAt_concat_eq_some.mpr ⟨t, hpt, present⟩
  have bound := hm.trees.inMemory _ ⟨_, rfl, _, hpi, table⟩
  have count := frameCount_lt hm.trees.small
  have cleared := below.clears.clearable hm
  have current' : frameOf m'.paging.pml4Physical = root := cleared.current
  obtain ⟨pt, mapped⟩ := cleared.mapped (pteFrame e) (below.clears.layout.frameCount_eq ▸ bound)
  have upper := direct_upper (show pteFrame e < 2 ^ 35 by omega)
  rw [current', ← pteAddr_eq] at mapped
  rw [← pteAddr_eq] at upper
  have freed (q : List (Fin 512)) : Within root q m' (freeTable m' (pteAddr e) a) :=
    freeTable_within cleared.trees current' mapped upper
  have sofar := below.above.trans (freed p)
  have reached : (freeTable m' (pteAddr e) a).tableAt root p = some t :=
    (sofar.clears.keeps _ rfl p (by omega) fun off => off.2.2 rfl).trans hpt
  refine ⟨sofar.trans (setEntry_within (sofar.clears.trees hm.trees) hp reached lower), fun j => ?_⟩
  have outside : Outside m root (p ++ [i]) t := by
    refine outside_of_tableAt hm.trees (by omega) hpt (fun below => ?_) (kind.imp_right ?_)
    · have := below.length_le
      rw [List.length_append, List.length_singleton] at this
      omega
    · rintro rfl
      decide
  rw [tables_setEntry]
  by_cases same : j = i
  · rw [same, if_pos rfl, RadixTree.write_self]
  · rw [if_neg same, RadixTree.write_of_ne_index same]
    exact (below.trans (freed _)).words t outside j

/-! ## The first present entry -/

theorem findFirstPresent_le : findFirstPresent m t ≤ 512 := by
  rw [findFirstPresent]
  cases search : (List.range 513).find? fun i => tableWord m t i &&& 1 == 1 with
  | none => exact Nat.le_refl 512
  | some j => exact Nat.le_of_lt_succ (List.mem_range.mp (List.mem_of_find?_eq_some search))

theorem findFirstPresent_absent {j : Nat} (hj : j < 512) (before : j < findFirstPresent m t) :
    m.ram t j &&& 1 = 0 := by
  have absent : ¬(tableWord m t j &&& 1 == 1) = true := by
    rw [findFirstPresent] at before
    cases search : (List.range 513).find? fun i => tableWord m t i &&& 1 == 1 with
    | none => exact List.find?_eq_none.mp search j (List.mem_range.mpr (by omega))
    | some k =>
      rw [search, Option.getD_some] at before
      have := (List.find?_range_eq_some.mp search).2.2 j before
      simpa using this
  rw [tableWord, if_pos hj] at absent
  generalize m.ram t j = x at absent ⊢
  have bit : x &&& 1 = 0 ∨ x &&& 1 = 1 := by grind
  exact bit.resolve_right fun one => absent (by rw [one]; rfl)

/-- Once it is cleared, the next one is further up. -/
theorem findFirstPresent_next (first : findFirstPresent m t = i.val)
    (words : ∀ j, m'.tables t j = if j = i then 0 else m.tables t j) :
    i.val < findFirstPresent m' t := by
  by_contra small
  generalize found : findFirstPresent m' t = k at small
  have hk : k < 512 := by omega
  have present := link_eq_some.mp (findFirstPresent_link found hk)
  rw [words] at present
  by_cases same : (⟨k, hk⟩ : Fin 512) = i
  · rw [if_pos same] at present
    exact present.1 (by decide)
  · have below : k < findFirstPresent m t := by
      have : k ≠ i.val := fun h => same (Fin.ext h)
      omega
    rw [if_neg same] at present
    exact present.1 (findFirstPresent_absent hk below)

/-! ## The loops -/

theorem Within.clearable (h : Within root p m m') (hm : Clearable {root} m) :
    Clearable {root} m' := h.clears.clearable hm

theorem Within.tableAt_eq (h : Within root p m m') (hp : p.length ≤ 3) :
    m'.tableAt root p = m.tableAt root p := h.clears.keeps root rfl p hp fun off => off.2.2 rfl

theorem clearPD_runs {pd : Nat} (hm : Clearable {root} m) (hp : p.length = 2) (lower : LowerPath p)
    (hpd : m.tableAt root p = some pd) (enough : 513 ≤ fuel + findFirstPresent m pd) :
    ∃ m', clearPD fuel m pd = some m' ∧ Within root p m m' := by
  induction fuel generalizing m with
  | zero =>
    have := @findFirstPresent_le m pd
    omega
  | succ fuel ih =>
    rw [clearPD]
    dsimp only
    generalize found : findFirstPresent m pd = i at enough
    split
    next hi =>
      obtain ⟨turn, words⟩ := clearEntry_within hm hp.le hpd (findFirstPresent_link found hi)
        (lower.append _) (.inl lower) .refl (a := pteAddr (m.ram pd i))
      have next := @findFirstPresent_next m _ pd ⟨i, hi⟩ found words
      obtain ⟨m', run, rest⟩ := ih (turn.clearable hm) ((turn.tableAt_eq (by omega)).trans hpd)
        (by change i < _ at next; omega)
      exact ⟨m', run, turn.trans rest⟩
    next => exact ⟨m, rfl, .refl⟩

theorem clearPDPT_runs {pdpt : Nat} (hm : Clearable {root} m) (hp : p.length = 1)
    (lower : LowerPath p) (hpdpt : m.tableAt root p = some pdpt)
    (enough : 1026 ≤ fuel + findFirstPresent m pdpt) :
    ∃ m', clearPDPT fuel m pdpt = some m' ∧ Within root p m m' := by
  induction fuel generalizing m with
  | zero =>
    have := @findFirstPresent_le m pdpt
    omega
  | succ fuel ih =>
    have bound := @findFirstPresent_le m pdpt
    rw [clearPDPT]
    dsimp only
    generalize found : findFirstPresent m pdpt = i at enough bound
    split
    next hi =>
      have link := findFirstPresent_link found hi
      have table := RadixTree.tableAt_concat_eq_some.mpr ⟨pdpt, hpdpt, link⟩
      obtain ⟨m₁, inner, below⟩ := @clearPD_runs m root fuel _ _ hm (by simp [hp])
        (lower.append _) table (by omega)
      obtain ⟨turn, words⟩ := clearEntry_within hm (by omega) hpdpt link (lower.append _)
        (.inl lower) below (a := pteAddr (m₁.ram pdpt i))
      have next := @findFirstPresent_next m _ pdpt ⟨i, hi⟩ found words
      obtain ⟨m', run, rest⟩ := ih (turn.clearable hm) ((turn.tableAt_eq (by omega)).trans hpdpt)
        (by change i < _ at next; omega)
      refine ⟨m', ?_, turn.trans rest⟩
      rw [← pteFrame, inner]
      exact run
    next => exact ⟨m, rfl, .refl⟩

/-- The last loop stops at the kernel half. -/
theorem clearPML4_runs (hm : Clearable {root} m) (enough : 1539 ≤ fuel + findFirstPresent m root) :
    ∃ m', clearPML4 fuel m root = some m' ∧ Within root [] m m' ∧
      256 ≤ findFirstPresent m' root := by
  induction fuel generalizing m with
  | zero =>
    have := @findFirstPresent_le m root
    omega
  | succ fuel ih =>
    have bound := @findFirstPresent_le m root
    rw [clearPML4]
    dsimp only
    generalize found : findFirstPresent m root = i at enough bound
    split
    next hi =>
      have link := findFirstPresent_link found (hi.trans (by decide))
      have start : m.tableAt root [] = some root := rfl
      have table := RadixTree.tableAt_concat_eq_some.mpr ⟨root, start, link⟩
      have lower : LowerPath ([] ++ [⟨i, hi.trans (by decide)⟩]) :=
        ⟨_, [], rfl, Nat.not_le.mpr hi⟩
      obtain ⟨m₁, inner, below⟩ := @clearPDPT_runs m root fuel _ _ hm rfl lower table (by omega)
      obtain ⟨turn, words⟩ := clearEntry_within (p := []) hm (Nat.zero_le 2) start link
        lower (.inr rfl) below (a := pteAddr (m₁.ram root i))
      have next := @findFirstPresent_next m _ root ⟨i, _⟩ found words
      obtain ⟨m', run, rest, stops⟩ := ih (turn.clearable hm) (by change i < _ at next; omega)
      refine ⟨m', ?_, turn.trans rest, stops⟩
      rw [← pteFrame, inner]
      exact run
    next beyond => exact ⟨m, rfl, .refl, by omega⟩

end ChudOS
