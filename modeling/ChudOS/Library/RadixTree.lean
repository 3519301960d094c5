import Mathlib.Logic.Function.Basic
import Mathlib.Data.Set.Basic
import Mathlib.Data.List.Induction
import Mathlib.Tactic.TypeStar

/-!
# Radix trees in a memory of tables

A memory holds tables of words; `link` says which table a word points at. `tableAt mem root path`
is the table reached from `root`. Several trees may live in one memory, and the first index may be
shared between them: `Separated` says that, apart from this, no table is reached in two ways.

A tree changes in three ways: a word changes that no path follows, a fresh table is installed, or a
link is cut.

## Main definitions

* `tableAt`, `wordAt` — the table, and the word in it, that a path leads to.
* `write` — one word of one table replaced.
* `Separated` — the trees of several roots share at most what is below a shared first index.
* `reached` — the tables of a tree with their paths, as a list.
-/

namespace RadixTree

variable {ι α : Type*} (link : α → Option Nat)

/-- The table reached from the table `root` along a path of indices. -/
def tableAt (mem : Nat → ι → α) (root : Nat) : List ι → Option Nat
  | [] => some root
  | i :: path => (link (mem root i)).bind fun t => tableAt mem t path

/-- The word with index `last` in the table reached along a path. -/
def wordAt (mem : Nat → ι → α) (root : Nat) (path : List ι) (last : ι) : Option α :=
  (tableAt link mem root path).map fun t => mem t last

/-- No table is reached in two ways by paths up to a depth, except that roots may share what is
below a `shared` first index. -/
def Separated (mem : Nat → ι → α) (depth : Nat) (roots : Set Nat) (shared : ι → Prop) : Prop :=
  ∀ ⦃r r' p q t⦄, r ∈ roots → r' ∈ roots → p.length ≤ depth → q.length ≤ depth →
    tableAt link mem r p = some t → tableAt link mem r' q = some t →
      p = q ∧ (r = r' ∨ ∃ i s, p = i :: s ∧ shared i)

variable {link} {mem mem' : Nat → ι → α} {root t n depth : Nat} {i : ι} {x : α} {roots : Set Nat}
  {shared : ι → Prop} {p q : List ι}

@[simp] theorem tableAt_nil : tableAt link mem root [] = some root := rfl

theorem tableAt_append (p q : List ι) : tableAt link mem root (p ++ q) =
    (tableAt link mem root p).bind fun t => tableAt link mem t q := by
  induction p generalizing root with
  | nil => rfl
  | cons i p ih =>
    simp only [List.cons_append, tableAt, ih]
    cases link (mem root i) <;> rfl

/-- The last step of a path. -/
theorem tableAt_concat (p : List ι) (i : ι) : tableAt link mem root (p ++ [i]) =
    (tableAt link mem root p).bind fun t => link (mem t i) := by
  rw [tableAt_append]
  congr 1
  funext t
  simp [tableAt]

theorem tableAt_concat_eq_some : tableAt link mem root (p ++ [i]) = some n ↔
    ∃ t, tableAt link mem root p = some t ∧ link (mem t i) = some n := by
  rw [tableAt_concat, Option.bind_eq_some_iff]

/-- The tables on the way decide where a path leads. -/
theorem tableAt_congr_along
    (h : ∀ q j s, p = q ++ j :: s → ∀ t, tableAt link mem root q = some t →
      link (mem' t j) = link (mem t j)) : tableAt link mem' root p = tableAt link mem root p := by
  induction p using List.reverseRecOn with
  | nil => rfl
  | append_singleton q j ih =>
    rw [tableAt_concat, tableAt_concat, ih fun q' j' s hq => h q' j' (s ++ [j]) (by simp [hq])]
    cases hq : tableAt link mem root q with
    | none => rfl
    | some t => exact h q j [] rfl t hq

/-- Tables above the last level decide the whole tree. -/
theorem tableAt_congr
    (h : ∀ q t, q.length < depth → tableAt link mem root q = some t →
      ∀ j, link (mem' t j) = link (mem t j)) (hp : p.length ≤ depth) :
    tableAt link mem' root p = tableAt link mem root p := by
  refine tableAt_congr_along fun q j s hq t ht => h q t ?_ ht j
  rw [hq, List.length_append, List.length_cons] at hp
  omega

/-! ## Listing the tables -/

/-- The tables reached from `root` by paths of `indices` up to a depth. -/
def reached (link : α → Option Nat) (indices : List ι) (mem : Nat → ι → α) (root : Nat) :
    Nat → List (List ι × Nat)
  | 0 => [([], root)]
  | n + 1 => ([], root) :: indices.flatMap fun i =>
      match link (mem root i) with
      | none => []
      | some t => (reached link indices mem t n).map fun (p, u) => (i :: p, u)

theorem mem_reached {indices : List ι} (all : ∀ i, i ∈ indices) (hp : p.length ≤ depth)
    (h : tableAt link mem root p = some t) : (p, t) ∈ reached link indices mem root depth := by
  induction p generalizing root depth with
  | nil =>
    obtain rfl := Option.some.inj h
    cases depth <;> simp [reached]
  | cons i p ih =>
    obtain ⟨u, hu, ht⟩ := Option.bind_eq_some_iff.mp h
    obtain ⟨n, rfl⟩ : ∃ n, depth = n + 1 := ⟨depth - 1, by rw [List.length_cons] at hp; omega⟩
    have below : (p, t) ∈ reached link indices mem u n :=
      ih (by rw [List.length_cons] at hp; omega) ht
    refine List.mem_cons_of_mem _ (List.mem_flatMap.mpr ⟨i, all i, ?_⟩)
    rw [hu]
    exact List.mem_map.mpr ⟨(p, t), below, rfl⟩

/-! ## Writing one word -/

section Write

variable [DecidableEq ι]

/-- The memory with the word `i` of the table `t` replaced. -/
def write (mem : Nat → ι → α) (t : Nat) (i : ι) (x : α) : Nat → ι → α :=
  Function.update mem t (Function.update (mem t) i x)

@[simp] theorem write_self : write mem t i x t i = x := by simp [write]

theorem write_of_ne_table {u : Nat} (h : u ≠ t) (j : ι) : write mem t i x u j = mem u j := by
  simp [write, h]

theorem write_of_ne_index {j : ι} (h : j ≠ i) (u : Nat) : write mem t i x u j = mem u j := by
  by_cases hu : u = t
  · subst hu; simp [write, h]
  · exact write_of_ne_table hu j

theorem write_of_ne {u : Nat} {j : ι} (h : ¬(u = t ∧ j = i)) : write mem t i x u j = mem u j := by
  by_cases hu : u = t
  · exact write_of_ne_index (fun hj => h ⟨hu, hj⟩) u
  · exact write_of_ne_table hu j

/-- A word of a table that no path of full length goes through is not followed. -/
theorem tableAt_write_leaf (h : ∀ q, q.length < depth → tableAt link mem root q ≠ some t)
    (hp : p.length ≤ depth) :
    tableAt link (write mem t i x) root p = tableAt link mem root p := by
  refine tableAt_congr (fun q u hq hu j => ?_) hp
  have hut : u ≠ t := fun hut => h q hq (hut ▸ hu)
  rw [write_of_ne_table hut]

/-- A fresh, empty table behind a word without a link adds one path and nothing below it. -/
theorem tableAt_write_install (empty : ∀ j, link (mem n j) = none) (fresh : n ≠ t)
    (old : link (mem t i) = none) (new : link x = some n) {s : Nat} :
    tableAt link (write mem t i x) root p = some s ↔
      tableAt link mem root p = some s ∨
        ∃ q, p = q ++ [i] ∧ tableAt link mem root q = some t ∧ s = n := by
  induction p using List.reverseRecOn generalizing s with
  | nil => simp
  | append_singleton q j ih =>
    rw [tableAt_concat_eq_some, tableAt_concat_eq_some]
    constructor
    · rintro ⟨u, hu', hs⟩
      obtain hu | ⟨q', rfl, hq', rfl⟩ := ih.mp hu'
      · by_cases hut : u = t ∧ j = i
        · obtain ⟨hut, rfl⟩ := hut
          rw [hut, write_self, new] at hs
          exact .inr ⟨q, rfl, hut ▸ hu, (Option.some.inj hs).symm⟩
        · rw [write_of_ne hut] at hs
          exact .inl ⟨u, hu, hs⟩
      · rw [write_of_ne_table fresh, empty] at hs
        cases hs
    · rintro (⟨u, hu, hs⟩ | ⟨q', hq, hq', rfl⟩)
      · refine ⟨u, ih.mpr (.inl hu), ?_⟩
        rwa [write_of_ne]
        rintro ⟨rfl, rfl⟩
        rw [old] at hs
        cases hs
      · obtain ⟨rfl, hj⟩ := List.append_inj' hq rfl
        obtain rfl : j = i := List.singleton_inj.mp hj
        exact ⟨t, ih.mpr (.inl hq'), by rw [write_self, new]⟩

/-- Cutting a link removes paths and adds none. -/
theorem tableAt_of_write_cut (cut : link x = none) {s : Nat}
    (h : tableAt link (write mem t i x) root p = some s) : tableAt link mem root p = some s := by
  induction p using List.reverseRecOn generalizing s with
  | nil => exact h
  | append_singleton q j ih =>
    rw [tableAt_concat_eq_some] at h ⊢
    obtain ⟨u, hu, hs⟩ := h
    refine ⟨u, ih hu, ?_⟩
    rwa [write_of_ne] at hs
    rintro ⟨rfl, rfl⟩
    rw [write_self, cut] at hs
    cases hs

/-- A write is seen by the paths only that follow the word. -/
theorem tableAt_write_of_off
    (off : ∀ q s, p = q ++ i :: s → tableAt link mem root q ≠ some t) :
    tableAt link (write mem t i x) root p = tableAt link mem root p := by
  refine tableAt_congr_along fun q j s hq u hu => ?_
  rw [write_of_ne]
  rintro ⟨rfl, rfl⟩
  exact off q s hq hu

end Write

/-! ## Separation -/

/-- Fewer tables, or fewer roots, are still separated. -/
theorem Separated.mono {roots' : Set Nat} (h : Separated link mem depth roots shared)
    (hr : ∀ r ∈ roots', r ∈ roots)
    (hm : ∀ r ∈ roots', ∀ p t, p.length ≤ depth → tableAt link mem' r p = some t →
      tableAt link mem r p = some t) : Separated link mem' depth roots' shared :=
  fun _ _ _ _ _ hr₁ hr₂ hp hq h₁ h₂ =>
    h (hr _ hr₁) (hr _ hr₂) hp hq (hm _ hr₁ _ _ hp h₁) (hm _ hr₂ _ _ hq h₂)

/-- Separation can be checked on the lists of tables. -/
theorem Separated.of_reached {indices : List ι} (all : ∀ i, i ∈ indices) {rs : List Nat}
    (h : ∀ r ∈ rs, ∀ r' ∈ rs, ∀ a ∈ reached link indices mem r depth,
      ∀ b ∈ reached link indices mem r' depth, a.2 = b.2 →
        a.1 = b.1 ∧ (r = r' ∨ ∃ i ∈ a.1.head?, shared i)) :
    Separated link mem depth {r | r ∈ rs} shared := by
  intro r r' p q t hr hr' hp hq ht ht'
  obtain ⟨same, roots⟩ := h r hr r' hr' (p, t) (mem_reached all hp ht) (q, t)
    (mem_reached all hq ht') rfl
  refine ⟨same, roots.imp_right fun ⟨i, head, hi⟩ => ?_⟩
  obtain ⟨s, path⟩ := List.head?_eq_some_iff.mp head
  exact ⟨i, s, path, hi⟩

/-- The path of a table is unique. -/
theorem Separated.path_eq (h : Separated link mem depth roots shared) {r r' : Nat}
    (hr : r ∈ roots) (hr' : r' ∈ roots) (hp : p.length ≤ depth) (hq : q.length ≤ depth)
    (h₁ : tableAt link mem r p = some t) (h₂ : tableAt link mem r' q = some t) : p = q :=
  (h hr hr' hp hq h₁ h₂).1

/-- A table of the last level is no table of a level above. -/
theorem Separated.leaf_ne (h : Separated link mem depth roots shared) {r r' : Nat}
    (hr : r ∈ roots) (hr' : r' ∈ roots) (hp : p.length = depth) (hq : q.length < depth)
    (ht : tableAt link mem r p = some t) : tableAt link mem r' q ≠ some t := by
  intro h'
  have same := h.path_eq hr hr' hp.le hq.le ht h'
  rw [same] at hp
  omega

/-- What a root reaches that has the shared links of another root and no others. -/
theorem tableAt_of_share {r₀ : Nat} (copy : ∀ i, shared i → link (mem n i) = link (mem r₀ i))
    (own : ∀ i, ¬shared i → link (mem n i) = none)
    (h : tableAt link mem n (i :: p) = some t) : shared i ∧ tableAt link mem r₀ (i :: p) = some t := by
  by_cases hi : shared i
  · refine ⟨hi, ?_⟩
    rwa [tableAt, ← copy i hi]
  · rw [tableAt, own i hi] at h
    cases h

/-- A fresh root may share the links of another one. -/
theorem Separated.share (h : Separated link mem depth roots shared) {r₀ : Nat} (hr₀ : r₀ ∈ roots)
    (copy : ∀ i, shared i → link (mem n i) = link (mem r₀ i))
    (own : ∀ i, ¬shared i → link (mem n i) = none)
    (fresh : ∀ r ∈ roots, ∀ p, p.length ≤ depth → tableAt link mem r p ≠ some n) :
    Separated link mem depth (insert n roots) shared := by
  have below {i : ι} {p : List ι} {t : Nat} := tableAt_of_share (i := i) (p := p) (t := t) copy own
  have unique {p : List ι} (hp : p.length ≤ depth) {t : Nat} {r : Nat} {q : List ι} (hr : r ∈ roots)
      (hq : q.length ≤ depth) (h₁ : tableAt link mem n p = some t)
      (h₂ : tableAt link mem r q = some t) : p = q ∧ ∃ i s, p = i :: s ∧ shared i := by
    cases p with
    | nil =>
      obtain rfl := Option.some.inj h₁
      exact absurd h₂ (fresh r hr q hq)
    | cons i p =>
      obtain ⟨hi, h₁⟩ := below h₁
      exact ⟨(h hr₀ hr hp hq h₁ h₂).1, i, p, rfl, hi⟩
  rintro r r' p q t (rfl | hr) (rfl | hr') hp hq h₁ h₂
  · refine ⟨?_, .inl rfl⟩
    cases q with
    | nil =>
      obtain rfl := Option.some.inj h₂
      cases p with
      | nil => rfl
      | cons i p => exact absurd (below h₁).2 (fresh r₀ hr₀ _ hp)
    | cons j q => exact (unique hp hr₀ hq h₁ (below h₂).2).1
  · exact (unique hp hr' hq h₁ h₂).imp_right .inr
  · obtain ⟨same, i, s, rfl, hi⟩ := unique hq hr hp h₂ h₁
    exact ⟨same.symm, .inr ⟨i, s, same.symm, hi⟩⟩
  · exact h hr hr' hp hq h₁ h₂

variable [DecidableEq ι]

/-- Installing a fresh table keeps the trees separated. -/
theorem Separated.install (h : Separated link mem depth roots shared)
    (empty : ∀ j, link (mem n j) = none) (old : link (mem t i) = none) (new : link x = some n)
    (reached : ∃ r ∈ roots, ∃ p, p.length ≤ depth ∧ tableAt link mem r p = some t)
    (fresh : ∀ r ∈ roots, ∀ p, p.length ≤ depth → tableAt link mem r p ≠ some n) :
    Separated link (write mem t i x) depth roots shared := by
  obtain ⟨r₀, hr₀, p₀, hp₀, ht⟩ := reached
  have hnt : n ≠ t := fun hn => fresh r₀ hr₀ p₀ hp₀ (hn ▸ ht)
  intro r r' p q s hr hr' hp hq h₁ h₂
  rw [tableAt_write_install empty hnt old new] at h₁ h₂
  obtain h₁ | ⟨p', rfl, h₁, rfl⟩ := h₁ <;> obtain h₂ | ⟨q', rfl, h₂, hs⟩ := h₂
  · exact h hr hr' hp hq h₁ h₂
  · exact absurd (hs ▸ h₁) (fresh r hr p hp)
  · exact absurd h₂ (fresh r' hr' q hq)
  · simp only [List.length_append, List.length_singleton] at hp hq
    obtain ⟨rfl, same⟩ := h hr hr' (by omega) (by omega) h₁ h₂
    refine ⟨rfl, same.imp_right ?_⟩
    rintro ⟨j, s', rfl, hj⟩
    exact ⟨j, s' ++ [i], rfl, hj⟩

end RadixTree
