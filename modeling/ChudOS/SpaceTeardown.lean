import ChudOS.ExecveAtomicity
import ChudOS.LowLevel.TeardownRun

/-!
# The tear-down stays inside its address space

The loops of the two functions that free the memory of a task end, and leave the lower half of every
other address space alone.
-/

namespace ChudOS

open Memory

variable {m m' : Memory} {k : Kernel} {pid root r t : Nat} {roots live : Set Nat} {pml4 v : U64}
  {q : List (Fin 512)}

/-- The tables of the dying space are a tree inside memory, its direct map is there, and it has no
table in common with the PML4 or the lower half of another live space. -/
structure Dying (m : Memory) (root : Nat) (live : Set Nat) : Prop where
  trees : Trees m {root}
  mapped : DirectMapped m root
  apart : ∀ r ∈ live, ∀ q, q.length ≤ 3 → LowerPath q ∨ q = [] → ∀ t,
    m.tableAt r q = some t → ¬IsTable m {root} t

/-- Separated address spaces are apart. -/
theorem Dying.of_trees (hm : Trees m roots) (hroot : root ∈ roots) (mapped : DirectMapped m root) :
    Dying m root (roots \ {root}) where
  trees :=
    { separated := hm.separated.mono (fun _ hr => hr ▸ hroot) fun _ _ _ _ _ ht => ht
      inMemory := fun t ht => by
        obtain ⟨r, rfl, q, hq, ht⟩ := ht
        exact hm.inMemory t ⟨r, hroot, q, hq, ht⟩
      small := hm.small }
  mapped := mapped
  apart := by
    rintro r ⟨hr, other⟩ q hq lower t ht ⟨_, rfl, q', hq', ht'⟩
    obtain ⟨-, same | ⟨i, s, path, upper⟩⟩ := hm.separated hr hroot hq hq' ht ht'
    · exact other same
    · obtain ⟨j, s', path', low⟩ | rfl := lower
      · rw [path] at path'
        obtain ⟨rfl, -⟩ := List.cons.inj path'
        exact low upper
      · exact nomatch path

theorem lowerPath_of_lt (lower : v.toNat < 2 ^ 47) : LowerPath (pathOf v) :=
  ⟨_, _, rfl, (userPath_of_lt lower).2 _ _ rfl⟩

section Apart

variable (within : Within root [] m m') (dying : Dying m root live) (hr : r ∈ live)

include within dying hr

theorem apart_words (hq : q.length ≤ 3) (lower : LowerPath q ∨ q = [])
    (ht : m.tableAt r q = some t) (j : Fin 512) : m'.tables t j = m.tables t j :=
  within.words t (outside_of_not_isTable (dying.apart r hr q hq lower t ht)) j

theorem apart_tableAt (hq : q.length ≤ 3) (lower : LowerPath q) :
    m'.tableAt r q = m.tableAt r q := by
  refine RadixTree.tableAt_congr_along fun q' j s path t ht => ?_
  have above : LowerPath q' ∨ q' = [] := by
    cases q' with
    | nil => exact .inr rfl
    | cons i q' =>
      obtain ⟨i', s', path', low⟩ := lower
      rw [path'] at path
      obtain ⟨rfl, -⟩ := List.cons.inj path
      exact .inl ⟨i', q', rfl, low⟩
  have shorter : q'.length ≤ 3 := by
    rw [path, List.length_append] at hq
    omega
  rw [apart_words within dying hr shorter above ht]

/-- In the lower half nothing changes for a space that is apart. -/
theorem apart_walkEntry (lower : v.toNat < 2 ^ 47) : walkEntry m' r v = walkEntry m r v := by
  have path := lowerPath_of_lt lower
  rw [walkEntry_eq, walkEntry_eq, Memory.wordAt_eq, Memory.wordAt_eq,
    apart_tableAt within dying hr (pathOf_length v).le path]
  cases ht : m.tableAt r (pathOf v) with
  | none => rfl
  | some t =>
    exact congrArg some (apart_words within dying hr (pathOf_length v).le (.inl path) ht _)

end Apart

theorem teardown_of_loops {fuel : Nat}
    (run : clearPML4 fuel (memSetCr3 m pml4) (frameOf pml4) = some m') :
    ∃ m'', teardown fuel m pml4 = some m'' := by
  simp only [teardown, run, Option.bind_eq_bind, Option.bind_some]
  exact ⟨_, rfl⟩

/-- Both functions return, and between their two `CR3` switches the loops have emptied the lower half
of the dying PML4 and kept that of every other live address space. -/
theorem teardown_inside (base : (k.taskManager pid).basePML4 = pml4)
    (dying : Dying k.mem (frameOf pml4) live) : ∃ fuel,
      (∃ m', clearPML4 fuel (memSetCr3 k.mem pml4) (frameOf pml4) = some m' ∧
        (∀ i < 256, m'.ram (frameOf pml4) i &&& 1 = 0) ∧
        ∀ r ∈ live, ∀ v : U64, v.toNat < 2 ^ 47 → walkEntry m' r v = walkEntry k.mem r v) ∧
      (freeTaskMemory fuel k pid).isSome = true ∧
      (freeTaskMemoryByPml4 fuel k.mem pml4).isSome = true := by
  subst base
  have clearable : Clearable {frameOf (k.taskManager pid).basePML4}
      (memSetCr3 k.mem (k.taskManager pid).basePML4) :=
    ⟨dying.trees.of_ram rfl rfl, rfl, dying.mapped⟩
  obtain ⟨m', run, within, stops⟩ := @clearPML4_runs _ _ 1539 clearable (Nat.le_add_right ..)
  have dying' : Dying (memSetCr3 k.mem (k.taskManager pid).basePML4) _ live :=
    ⟨clearable.trees, dying.mapped, dying.apart⟩
  refine ⟨1539, ⟨m', run, fun i hi => findFirstPresent_absent (by omega) (by omega), ?_⟩, ?_, ?_⟩
  · intro r hr v lower
    have same := apart_walkEntry within dying' hr lower
    exact same
  · obtain ⟨m'', down⟩ := teardown_of_loops run
    simp only [freeTaskMemory, down, Option.bind_eq_bind, Option.bind_some]
    split <;> rfl
  · obtain ⟨m'', down⟩ := teardown_of_loops run
    simp only [freeTaskMemoryByPml4, down, Option.bind_eq_bind, Option.bind_some]
    split <;> rfl

theorem teardown_inside_program : ∃ fuel,
    (∃ m', clearPML4 fuel (memSetCr3 programKernel.mem 0x5000) (frameOf 0x5000) = some m' ∧
      (∀ i < 256, m'.ram (frameOf 0x5000) i &&& 1 = 0) ∧
      ∀ r ∈ ({r | r ∈ [1, 5]} \ {5} : Set Nat), ∀ v : U64, v.toNat < 2 ^ 47 →
        walkEntry m' r v = walkEntry programKernel.mem r v) ∧
    (freeTaskMemory fuel programKernel 1).isSome = true ∧
    (freeTaskMemoryByPml4 fuel programKernel.mem 0x5000).isSome = true :=
  teardown_inside rfl (.of_trees programMemory_forest.trees (by decide)
    (.of_isSome (by decide +kernel)))

end ChudOS
