import ChudOS.ErrorHandling.Exceptions
import ChudOS.Userland.TasksFrame

/-!
# What resolving a page fault leaves alone
-/

namespace ChudOS

open Memory

variable {k k' : Kernel} {m m₁ m' : Memory} {a : U64}

theorem growStack_keeps {pid n : Nat} {page : PageDetails}
    (h : growStack k pid page n = some k') : KeepsTasks k k' := by
  induction n generalizing k page with
  | zero => cases h; exact .refl
  | succ n ih =>
    simp only [growStack, Option.bind_eq_bind, Option.bind_eq_some_iff, Prod.exists] at h
    obtain ⟨m, a, hm, h⟩ := h
    exact ((KeepsTasks.mem (allocPage_layout hm)).trans (.memoryData pid _)).trans (ih h)

theorem demandPage_keeps {pid : Nat} (h : demandPage k pid a = some k') : KeepsTasks k k' := by
  unfold demandPage at h
  dsimp only at h
  split at h
  · exact growStack_keeps h
  · simp only [Option.bind_eq_bind, Option.bind_eq_some_iff, Prod.exists] at h
    obtain ⟨m, b, hm, h⟩ := h
    cases h
    exact (KeepsTasks.memoryData pid _).trans (.mem (allocPage_layout hm))

theorem copyPage_layout (h : copyPage m m₁ a = some m') : SameLayout m₁ m' := by
  simp only [copyPage, Option.bind_eq_bind, Option.bind_eq_some_iff] at h
  obtain ⟨src, -, dst, -, h⟩ := h
  cases h
  exact ⟨rfl, rfl, rfl⟩

theorem resolveCoW_layout {slot : Slot} (h : resolveCoW m slot a = some m') :
    SameLayout m m' := by
  unfold resolveCoW at h
  dsimp only at h
  split at h
  · cases h; exact ⟨rfl, rfl, rfl⟩
  · obtain ⟨paging, total, size⟩ := copyPage_layout h
    exact ⟨paging, total, size⟩

end ChudOS
