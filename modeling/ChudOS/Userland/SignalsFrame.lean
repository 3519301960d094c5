import ChudOS.Userland.Signals
import ChudOS.Userland.TasksFrame

/-!
# What signals leave alone

The stack of a task is read and written in its own address space. The paging registers come back
to what they were, provided that `CR3` and `PML4_Physical` agreed before.
-/

namespace ChudOS

variable {k k' : Kernel} {pid : Nat}

theorem taskStackPush_keeps {x : U64} (h : taskStackPush k pid x = some k') :
    KeepsSpaces k k' := by
  unfold taskStackPush at h
  dsimp only at h
  split at h
  · simp only [Option.bind_eq_bind, Option.bind_eq_some_iff] at h
    obtain ⟨m, hm, h⟩ := h
    cases h
    exact (KeepsSpaces.ram (store64_eq hm)).trans (.setRegisters pid _)
  · cases h; exact .refl

theorem taskStackPushAll_keeps {xs : List U64} (h : taskStackPushAll k pid xs = some k') :
    KeepsSpaces k k' := by
  induction xs generalizing k with
  | nil => cases h; exact .refl
  | cons x xs ih =>
    simp only [taskStackPushAll, Option.bind_eq_bind, Option.bind_eq_some_iff] at h
    obtain ⟨k₁, h₁, h⟩ := h
    exact (taskStackPush_keeps h₁).trans (ih h)

theorem taskStackPop_keeps {x : U64} (h : taskStackPop k pid = some (k', x)) :
    KeepsSpaces k k' := by
  unfold taskStackPop at h
  dsimp only at h
  split at h
  · simp only [Option.bind_eq_bind, Option.bind_eq_some_iff] at h
    obtain ⟨y, -, h⟩ := h
    cases h
    exact .setRegisters pid _
  · cases h; exact .refl

theorem taskStackPopAll_keeps {n : Nat} {xs : List U64}
    (h : taskStackPopAll k pid n = some (k', xs)) : KeepsSpaces k k' := by
  induction n generalizing k xs with
  | zero => cases h; exact .refl
  | succ n ih =>
    simp only [taskStackPopAll, Option.bind_eq_bind, Option.bind_eq_some_iff, Prod.exists] at h
    obtain ⟨k₁, x, h₁, k₂, ys, h₂, h⟩ := h
    cases h
    exact (taskStackPop_keeps h₁).trans (ih h₂)

/-- A return to the paging registers `last`, if the current address space was ever left. -/
theorem restored_keeps {c : Prop} [Decidable c] {address : U64}
    (agree : k.mem.paging.cr3 = k.mem.paging.pml4Physical)
    (h : KeepsSpaces (if c then k else k.setCr3 address) k') :
    KeepsSpaces k (if c then k' else k'.setCr3 k.mem.paging.pml4Physical) := by
  split_ifs at h ⊢
  · exact h
  · have kernel := congrArg Paging.kernelPML4Physical h.paging
    exact ⟨h.curPid, Paging.ext agree.symm rfl kernel, h.exist, h.basePML4⟩

theorem establishSignalStack_keeps (agree : k.mem.paging.cr3 = k.mem.paging.pml4Physical)
    (h : establishSignalStack k pid = some k') : KeepsSpaces k k' := by
  unfold establishSignalStack at h
  dsimp only at h
  split at h
  · simp only [Option.bind_eq_bind, Option.bind_eq_some_iff] at h
    obtain ⟨k₁, h₁, h⟩ := h
    cases h
    have pushed := (KeepsSpaces.setState pid .creation).trans (taskStackPushAll_keeps h₁)
    exact (restored_keeps agree (pushed.trans (.setRegisters pid _))).trans (.setState pid .ready)
  · cases h; exact .refl

theorem signalReturn_keeps (agree : k.mem.paging.cr3 = k.mem.paging.pml4Physical)
    (h : signalReturn k pid = some k') : KeepsSpaces k k' := by
  unfold signalReturn at h
  dsimp only at h
  split at h
  · simp only [Option.bind_eq_bind, Option.bind_eq_some_iff, Prod.exists] at h
    obtain ⟨k₁, popped, h₁, h⟩ := h
    cases h
    have pops := ((KeepsSpaces.setState pid .creation).trans (.setRegisters pid _)).trans
      (taskStackPopAll_keeps h₁)
    exact (restored_keeps agree (pops.trans (.setRegisters pid _))).trans (.setState pid .ready)
  · cases h; exact .refl

theorem sendSignal_keeps {ident : U32} {arg0 arg1 arg2 arg3 : U64}
    (agree : k.mem.paging.cr3 = k.mem.paging.pml4Physical)
    (h : sendSignal k pid ident arg0 arg1 arg2 arg3 = some k') : KeepsSpaces k k' := by
  unfold sendSignal at h
  dsimp only at h
  split at h
  · cases h; exact .refl
  split at h
  · simp only [Option.bind_eq_bind, Option.bind_eq_some_iff] at h
    obtain ⟨k₁, h₁, h⟩ := h
    cases h
    exact (((KeepsSpaces.setState pid .creation).trans (establishSignalStack_keeps agree h₁)).trans
      (.setRegisters pid _)).trans (.setState pid .ready)
  · cases h; exact .setState pid .creation

end ChudOS
