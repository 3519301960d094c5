import ChudOS.LowLevel.InterruptStubs
import Mathlib.Data.BitVec

/-!
# Frames of interrupts

What a stub hands to its handler, and with which registers the processor goes on afterwards.
-/

namespace ChudOS

namespace Stub

open WordStack Instruction

/-! ## Runs of instructions -/

/-- An instruction that neither jumps nor ends a part of a stub. -/
def Instruction.Plain : Instruction → Prop
  | callq | iretq | jne _ | jmp _ => False
  | _ => True

instance : DecidablePred Instruction.Plain := fun i => by
  cases i <;> first | exact isTrue trivial | exact isFalse id

variable {s t : Cpu} {i : Instruction} {code block : List Instruction} {r : Register} {x : U64}
  {l xs : List U64} {rs : List Register}

theorem exec_plain (plain : i.Plain) : exec (i :: code) none s = exec code none (i.run s) := by
  cases i <;> first | rfl | exact plain.elim

theorem exec_block (plain : ∀ i ∈ block, i.Plain) :
    exec (block ++ code) none s = exec code none (block.foldl Instruction.run s) := by
  induction block generalizing s with
  | nil => rfl
  | cons i block ih =>
    rw [List.cons_append, exec_plain (plain i (by simp)), ih fun j mem => plain j (by simp [mem]),
      List.foldl_cons]

/-- The words on the stack. -/
def Cpu.Stack (s : Cpu) (l : List U64) : Prop := Holds 8 s.mem (s.reg .rsp) l

theorem spread (n : Nat) (lt : n < 1000) : Spread (8 : U64) n := by
  intro i pos le zero
  rw [nsmul_eq_mul] at zero
  have eight : (8 : U64).toNat = 8 := rfl
  have product := congrArg BitVec.toNat zero
  rw [BitVec.natCast_eq_ofNat, BitVec.toNat_mul, BitVec.toNat_ofNat, eight] at product
  change i % 2 ^ 64 * 8 % 2 ^ 64 = 0 at product
  omega

/-! ## The stack -/

theorem Cpu.Stack.push (h : s.Stack l) (short : l.length < 1000) (x : U64) :
    (s.push x).Stack (x :: l) := by
  change Holds 8 (Function.update s.mem (s.reg .rsp - 8) x)
    (Function.update s.reg .rsp (s.reg .rsp - 8) .rsp) (x :: l)
  rw [Function.update_self]
  exact Holds.push h (spread _ short) x

theorem reg_push_rsp : (s.push x).reg .rsp = s.reg .rsp - 8 := by
  change Function.update s.reg .rsp (s.reg .rsp - 8) .rsp = _
  rw [Function.update_self]

theorem reg_push (other : r ≠ .rsp) : (s.push x).reg r = s.reg r :=
  Function.update_of_ne other ..

/-- What pushing words leaves as it was. -/
structure Pushes (s t : Cpu) : Prop where
  reg : ∀ r ≠ .rsp, t.reg r = s.reg r
  cr2 : t.cr2 = s.cr2

theorem Pushes.trans {u : Cpu} (h : Pushes s t) (h' : Pushes t u) : Pushes s u where
  reg r other := (h'.reg r other).trans (h.reg r other)
  cr2 := h'.cr2.trans h.cr2

theorem pushes_push : Pushes s (s.push x) := ⟨fun _ => reg_push, rfl⟩

/-- The registers are pushed one after the other. -/
theorem stack_pushq (h : s.Stack l) (short : l.length + rs.length < 1000) (sp : .rsp ∉ rs) :
    let t := (rs.map pushq).foldl Instruction.run s
    t.Stack ((rs.map s.reg).reverse ++ l) ∧ Pushes s t := by
  induction rs generalizing s l with
  | nil => exact ⟨h, fun _ _ => rfl, rfl⟩
  | cons r rs ih =>
    rw [List.length_cons] at short
    rw [List.mem_cons, not_or] at sp
    obtain ⟨stack, pushes⟩ := ih (h.push (by omega) (s.reg r)) (by rw [List.length_cons]; omega) sp.2
    refine ⟨?_, pushes_push.trans pushes⟩
    have same : rs.map (s.push (s.reg r)).reg = rs.map s.reg :=
      List.map_congr_left fun r' mem => reg_push fun eq => sp.2 (eq ▸ mem)
    rw [same] at stack
    have all : ((r :: rs).map s.reg).reverse ++ l = (rs.map s.reg).reverse ++ s.reg r :: l := by simp
    rw [all]
    exact stack

theorem stack_push_all (h : s.Stack l) (short : l.length + xs.length < 1000) :
    (xs.foldl Cpu.push s).Stack (xs.reverse ++ l) ∧ Pushes s (xs.foldl Cpu.push s) := by
  induction xs generalizing s l with
  | nil => exact ⟨h, fun _ _ => rfl, rfl⟩
  | cons x xs ih =>
    rw [List.length_cons] at short
    obtain ⟨stack, pushes⟩ := ih (h.push (by omega) x) (by rw [List.length_cons]; omega)
    refine ⟨?_, pushes_push.trans pushes⟩
    rw [List.reverse_cons, List.append_assoc]
    exact stack

theorem reg_popq : (Instruction.run s (popq r)).reg =
    Function.update (Function.update s.reg .rsp (s.reg .rsp + 8)) r (s.word 0) := rfl

/-- The registers are popped one after the other. -/
theorem stack_popq (h : s.Stack (xs ++ l)) (len : xs.length = rs.length) (sp : .rsp ∉ rs)
    (distinct : rs.Nodup) :
    let t := (rs.map popq).foldl Instruction.run s
    t.Stack l ∧ rs.map t.reg = xs ∧ ∀ r ∉ rs, r ≠ .rsp → t.reg r = s.reg r := by
  induction rs generalizing s xs with
  | nil =>
    obtain rfl := List.eq_nil_of_length_eq_zero len
    exact ⟨h, rfl, fun _ _ _ => rfl⟩
  | cons r rs ih =>
    obtain ⟨x, xs, rfl⟩ := List.exists_cons_of_length_eq_add_one len
    rw [List.mem_cons, not_or] at sp
    obtain ⟨absent, distinct⟩ := List.nodup_cons.mp distinct
    obtain ⟨top, below⟩ := h
    have popped : (Instruction.run s (popq r)).Stack (xs ++ l) := by
      rw [Cpu.Stack, reg_popq, Function.update_of_ne sp.1, Function.update_self]
      exact below
    have found : (Instruction.run s (popq r)).reg r = x := by
      rw [reg_popq, Function.update_self, Cpu.word, add_zero, top]
    obtain ⟨stack, regs, others⟩ := ih popped (by simpa using len) sp.2 distinct
    refine ⟨stack, congrArg₂ List.cons ((others r absent (Ne.symm sp.1)).trans found) regs,
      fun r' out other => ?_⟩
    rw [List.mem_cons, not_or] at out
    refine (others r' out.2 other).trans ?_
    rw [reg_popq, Function.update_of_ne out.1, Function.update_of_ne other]

/-! ## The check of the privilege level -/

theorem exec_skip {n : Nat} (absent : .label n ∉ block) :
    exec (block ++ code) (some n) s = exec code (some n) s := by
  induction block with
  | nil => rfl
  | cons i block ih =>
    rw [List.mem_cons, not_or] at absent
    rw [List.cons_append, exec, if_neg (Ne.symm absent.1), ih absent.2]

/-- The two checks, which differ in what they push for the kernel. -/
def check (kernel : List Instruction) (offset : U64) : List Instruction :=
  [pushq .rax, movqMemory 8 .rax, andq 3 .rax, cmpq 0 .rax, jne 2, cmpqMemory 0x08 8, jne 2] ++
    kernel ++ [label 2, popq .rax, jmp 4, label 3, movqMemory offset .rax, label 4]

theorem exec_label_two (offset : U64) :
    exec ([label 2, popq .rax, jmp 4, label 3, movqMemory offset .rax, label 4] ++ code) (some 2) s =
      exec code none (Instruction.run s (popq .rax)) := rfl

/-- A check leaves everything as it was when the word it takes for `cs` is not that of the kernel. -/
theorem exec_check {kernel : List Instruction} {offset : U64} (h : s.Stack (x :: l))
    (short : l.length < 900) (user : x ≠ 8) (absent : .label 2 ∉ kernel) :
    ∃ t, exec (check kernel offset ++ code) none s = exec code none t ∧ t.reg = s.reg ∧
      t.cr2 = s.cr2 ∧ t.Stack (x :: l) := by
  have pushed := h.push (by rw [List.length_cons]; omega) (s.reg .rax)
  -- the state at the first jump
  let u := Instruction.run (Instruction.run (Instruction.run (Instruction.run s (pushq .rax))
    (movqMemory 8 .rax)) (andq 3 .rax)) (cmpq 0 .rax)
  have mem : u.mem = (s.push (s.reg .rax)).mem := rfl
  have sp : u.reg .rsp = (s.push (s.reg .rax)).reg .rsp := rfl
  have others : ∀ r, r ≠ .rax → u.reg r = (s.push (s.reg .rax)).reg r := fun r other =>
    (Function.update_of_ne other ..).trans (Function.update_of_ne other ..)
  have seen : u.word 8 = x := by
    rw [Cpu.word, mem, sp]
    exact pushed.2.1
  obtain ⟨z, run⟩ : ∃ z, exec (check kernel offset ++ code) none s =
      exec code none (Instruction.run { u with zero := z } (popq .rax)) := by
    have start : exec (check kernel offset ++ code) none s =
        exec ([cmpqMemory 0x08 8, jne 2] ++ kernel ++ ([label 2, popq .rax, jmp 4, label 3,
          movqMemory offset .rax, label 4] ++ code)) (if u.zero then none else some 2) u := by
      rw [check, List.append_assoc, List.append_assoc]
      rfl
    cases zero : u.zero with
    | false =>
      refine ⟨u.zero, start.trans ?_⟩
      rw [if_neg (zero ▸ Bool.false_ne_true), exec_skip (by simpa using absent)]
      exact exec_label_two offset
    | true =>
      refine ⟨false, ?_⟩
      have compared : Instruction.run u (cmpqMemory 0x08 8) = { u with zero := false } := by
        rw [Instruction.run, seen, decide_eq_false user]
      rw [start, zero, if_pos rfl, List.append_assoc]
      change exec (jne 2 :: _) none (Instruction.run u (cmpqMemory 0x08 8)) = _
      rw [compared]
      change exec (kernel ++ _) (some 2) _ = _
      rw [exec_skip absent]
      exact exec_label_two offset
  have sp_back : (s.push (s.reg .rax)).reg .rsp + 8 = s.reg .rsp := by
    rw [reg_push_rsp, sub_add_cancel]
  have back : (Instruction.run { u with zero := z } (popq .rax)).reg = s.reg := by
    funext r
    rw [reg_popq]
    change Function.update (Function.update u.reg .rsp (u.reg .rsp + 8)) .rax (u.mem (u.reg .rsp + 0)) r
      = s.reg r
    rw [mem, sp, sp_back, add_zero, pushed.1]
    by_cases ax : r = .rax
    · rw [ax, Function.update_self]
    by_cases top : r = .rsp
    · rw [Function.update_of_ne ax, top, Function.update_self]
    · rw [Function.update_of_ne ax, Function.update_of_ne top, others r ax, reg_push top]
  refine ⟨_, run, back, rfl, ?_⟩
  rw [Cpu.Stack, back, ← sp_back]
  exact pushed.2

/-! ## The call of the handler -/

theorem saved_nodup : saved.Nodup := by decide

theorem rsp_not_saved : .rsp ∉ saved := by decide

/-- What a handler finds on the stack. -/
theorem exec_callHandler (h : s.Stack l) (short : l.length < 900) (number : U64)
    (leave : List Instruction) :
    ∃ t, exec (callHandler number leave) none s = (addq 16 .rsp :: (popRegs ++ leave), t) ∧
      t.reg .rdi = t.reg .rsp ∧
      t.Stack ((number :: s.cr2 :: saved.reverse.map s.reg) ++ l) := by
  let p := (saved.map pushq).foldl Instruction.run s
  obtain ⟨stack, pushes⟩ : p.Stack ((saved.map s.reg).reverse ++ l) ∧ Pushes s p :=
    stack_pushq h (by change _ + 15 < _; omega) rsp_not_saved
  rw [← List.map_reverse] at stack
  have len : (saved.reverse.map s.reg ++ l).length = 15 + l.length := List.length_append
  -- `rax` holds `cr2` from here on
  let q := p.set .rax p.cr2
  have stack_q : q.Stack (saved.reverse.map s.reg ++ l) := stack
  have full := (stack_q.push (by omega) p.cr2).push (by rw [List.length_cons]; omega) number
  refine ⟨((q.push p.cr2).push number).set .rdi (((q.push p.cr2).push number).reg .rsp), ?_, ?_, ?_⟩
  · rw [callHandler, pushRegs, List.append_assoc, List.append_assoc, List.append_assoc,
      exec_block (by decide)]
    rfl
  · rfl
  · rw [← pushes.cr2]
    exact full

/-- What a handler leaves on the stack is popped. -/
theorem exec_popRegs {y z : U64} (h : s.Stack (y :: z :: xs ++ l)) (len : xs.length = 15)
    (leave : List Instruction) :
    ∃ t, exec (addq 16 .rsp :: (popRegs ++ leave)) none s = exec leave none t ∧ t.Stack l ∧
      saved.reverse.map t.reg = xs := by
  let u := Instruction.run s (addq 16 .rsp)
  have below : u.Stack (xs ++ l) := by
    change Holds 8 s.mem (Function.update s.reg .rsp (s.reg .rsp + 16) .rsp) (xs ++ l)
    have regs := h.2.2
    rw [add_assoc] at regs
    rw [Function.update_self]
    exact regs
  obtain ⟨stack, regs, -⟩ := stack_popq below (show _ = saved.reverse.length from len)
    (by rw [List.mem_reverse]; exact rsp_not_saved) (List.nodup_reverse.mpr saved_nodup)
  refine ⟨_, ?_, stack, regs⟩
  rw [exec_plain (i := addq 16 .rsp) trivial, popRegs, exec_block (by decide)]

/-! ## The frame -/

/-- The members of a frame in the order of their addresses. -/
def words (f : InterruptRegisters) : List U64 :=
  [f.intNo, f.cr2, f.r15, f.r14, f.r13, f.r12, f.r11, f.r10, f.r9, f.r8, f.rdi, f.rsi, f.rbp, f.rbx,
    f.rdx, f.rcx, f.rax, f.errorCode, f.rip, f.cs, f.rflags, f.rsp, f.ss]

variable {f : InterruptRegisters} {mem : U64 → U64} {a : U64}

theorem holds_words : Holds 8 mem a (words f) ↔ frameAt mem a = f := by
  cases f
  simp only [words, holds_cons, holds_nil, frameAt, InterruptRegisters.mk.injEq, add_assoc,
    BitVec.reduceAdd, and_true]
  exact Iff.rfl

/-! ## What distinguishes the stubs -/

def number : Stub → U64
  | isr80 => 0x80
  | kernelPanic => 0x81
  | invalidOpcode => 0x06
  | gpf => 0x0D
  | pageFault => 0x0E
  | syncTime => 0x28
  | floppyDrive => 0x06
  | timer | keyboard | ahci => 0

/-- What stands for an error code. -/
def dummy : Stub → List U64
  | gpf | pageFault | syncTime | ahci => []
  | _ => [0]

def enterFlags : Stub → List Instruction
  | gpf => [cli, cld]
  | ahci | floppyDrive => [cld]
  | _ => []

def leave : Stub → List Instruction
  | invalidOpcode | syncTime | ahci => [.iretq]
  | gpf => [addq 8 .rsp, sti, .iretq]
  | _ => skipErrorCode

/-- What is pushed once more when the interrupted program is taken for the kernel. -/
def again : Stub → List Instruction
  | gpf | pageFault => [label 1, pushqImmediate 0x10, pushq .rsp, pushqMemory 40, pushqMemory 40,
      pushqMemory 40, pushqMemory 40, jmp 3]
  | _ => [label 1, pushqImmediate 0x10, pushq .rsp, pushqMemory 32, pushqMemory 32, pushqMemory 32,
      jmp 3]

def raxOffset : Stub → U64
  | gpf | pageFault => 0x30
  | _ => 0x28

variable (stub : Stub)

theorem code_eq : stub.code = stub.enterFlags ++ (check stub.again stub.raxOffset ++
    (stub.dummy.map pushqImmediate ++ callHandler stub.number stub.leave)) := by
  cases stub <;> rfl

/-- The word that a stub takes for the code segment is that of the kernel. -/
def TakenForKernel (f : InterruptRegisters) : Prop :=
  (if stub.hasErrorCode then f.errorCode else f.rip) = 8

instance (f : InterruptRegisters) : Decidable (stub.TakenForKernel f) := inferInstanceAs (Decidable (_ = _))

variable {stub} {top : U64} {handler : Handler}

theorem stack_enter : (stub.enter f top mem).Stack (stub.pushed f ++ [mem top]) ∧
    (∀ r ≠ .rsp, (stub.enter f top mem).reg r = register f r) ∧
    (stub.enter f top mem).cr2 = f.cr2 := by
  let s : Cpu :=
    { reg := Function.update (register f) .rsp top, cr2 := f.cr2, zero := false, mem }
  have start : s.Stack [mem top] := by
    change Holds 8 mem (Function.update (register f) .rsp top .rsp) [mem top]
    rw [Function.update_self]
    exact ⟨rfl, trivial⟩
  have short : [mem top].length + (stub.pushed f).reverse.length < 1000 := by
    cases stub <;> simp [pushed, hasErrorCode]
  obtain ⟨stack, pushes⟩ := stack_push_all start short
  rw [List.reverse_reverse] at stack
  exact ⟨stack, fun r other => (pushes.reg r other).trans (Function.update_of_ne other ..),
    pushes.cr2⟩

theorem exec_enterFlags : exec (stub.enterFlags ++ code) none s = exec code none s := by
  cases stub <;> rfl

theorem length_pushed : (stub.pushed f).length ≤ 6 := by
  cases stub <;> simp [pushed, hasErrorCode]

theorem length_dummy : stub.dummy.length ≤ 1 := by
  cases stub <;> simp [dummy]

theorem reverse_dummy : stub.dummy.reverse = stub.dummy := by
  cases stub <;> rfl

theorem pushed_eq :
    ∃ x l, stub.pushed f ++ [mem top] = x :: l ∧ (x = 8 ↔ stub.TakenForKernel f) := by
  cases stub <;> exact ⟨_, _, rfl, Iff.rfl⟩

/-- The processor at the call of the handler. -/
theorem exec_enter (user : ¬ stub.TakenForKernel f) :
    ∃ t, exec stub.code none (stub.enter f top mem) =
        (addq 16 .rsp :: (popRegs ++ stub.leave), t) ∧ t.reg .rdi = t.reg .rsp ∧
      t.Stack ((stub.number :: f.cr2 :: saved.reverse.map (register f)) ++
        (stub.dummy ++ (stub.pushed f ++ [mem top]))) := by
  obtain ⟨stack, regs, cr2⟩ := @stack_enter f mem stub top
  obtain ⟨x, l, eq, taken⟩ := @pushed_eq f mem stub top
  have len := congrArg List.length eq
  simp only [List.length_append, List.length_cons, List.length_nil] at len
  have six := @length_pushed f stub
  have one := @length_dummy stub
  rw [eq] at stack ⊢
  have absent : label 2 ∉ stub.again := by cases stub <;> decide
  obtain ⟨u, checked, reg_u, cr2_u, stack_u⟩ := @exec_check (stub.enter f top mem)
    (stub.dummy.map pushqImmediate ++ callHandler stub.number stub.leave) x l stub.again
    stub.raxOffset stack (by omega) (fun is => user (taken.mp is)) absent
  obtain ⟨stack_v, pushes⟩ := @stack_push_all u _ stub.dummy stack_u (by rw [List.length_cons]; omega)
  rw [reverse_dummy] at stack_v
  obtain ⟨t, called, rdi, stack_t⟩ := exec_callHandler stack_v
    (by rw [List.length_append, List.length_cons]; omega) stub.number stub.leave
  refine ⟨t, ?_, rdi, ?_⟩
  · rw [code_eq, exec_enterFlags, checked, exec_block (by simp [Instruction.Plain]),
      List.foldl_map]
    exact called
  · rw [pushes.cr2, cr2_u, cr2] at stack_t
    have same : saved.reverse.map (stub.dummy.foldl Cpu.push u).reg =
        saved.reverse.map (register f) := by
      refine List.map_congr_left fun r mem => ?_
      have other : r ≠ .rsp := fun sp => rsp_not_saved (sp ▸ List.mem_reverse.mp mem)
      rw [pushes.reg r other, reg_u, regs r other]
    rwa [same] at stack_t

/-! ## The whole run -/

/-- A frame whose members behind `rax` are one word further down. -/
def shiftDown (f : InterruptRegisters) : InterruptRegisters :=
  { f with
    rip := f.errorCode
    cs := f.rip
    rflags := f.cs
    rsp := f.rflags
    ss := f.rsp }

/-- The frame that a handler is called with. Two stubs push nothing in the place of an error code, so
that the members from there on are those of the next one, and the last is the word above the stack. -/
def received (stub : Stub) (f : InterruptRegisters) (above : U64) : InterruptRegisters :=
  match stub with
  | syncTime | ahci =>
    { f with
      intNo := stub.number
      errorCode := f.rip
      rip := f.cs
      cs := f.rflags
      rflags := f.rsp
      rsp := f.ss
      ss := above }
  | _ =>
    { f with
      intNo := stub.number
      errorCode := if stub.hasErrorCode then f.errorCode else 0 }

/-- What a stub takes back from the frame. Three of them leave the error code on the stack. -/
def resumed (stub : Stub) (f : InterruptRegisters) : InterruptRegisters :=
  match stub with
  | invalidOpcode | syncTime | ahci => shiftDown f
  | _ => f

/-- The words on the stack make up the frame. -/
theorem words_received : ∃ l, (stub.number :: f.cr2 :: saved.reverse.map (register f)) ++
    (stub.dummy ++ (stub.pushed f ++ [mem top])) = words (stub.received f (mem top)) ++ l := by
  cases stub <;> exact ⟨_, rfl⟩

theorem frame_calls (user : ¬ stub.TakenForKernel f) :
    frameAt (stub.calls (stub.enter f top mem)).mem ((stub.calls (stub.enter f top mem)).reg .rdi) =
      stub.received f (mem top) := by
  obtain ⟨t, run, rdi, stack⟩ := @exec_enter f mem stub top user
  obtain ⟨l, eq⟩ := @words_received f mem stub top
  have called : stub.calls (stub.enter f top mem) = t := congrArg Prod.snd run
  rw [called, rdi]
  rw [eq] at stack
  exact holds_words.mp (holds_append.mp stack).1

theorem iretq_eq {rip cs rflags rsp ss : U64} (h : s.Stack (rip :: cs :: rflags :: rsp :: ss :: l))
    (regs : saved.reverse.map s.reg = saved.reverse.map (register f)) :
    s.iretq = context { f with rip, cs, rflags, rsp, ss } := by
  simp only [saved, List.reverse_cons, List.reverse_nil, List.nil_append, List.cons_append,
    List.map_cons, List.map_nil, List.cons.injEq, register, and_true] at regs
  simp only [Cpu.Stack, holds_cons, add_assoc, BitVec.reduceAdd] at h
  obtain ⟨rfl, rfl, rfl, rfl, rfl, -⟩ := h
  simp only [Cpu.iretq, Cpu.word, context, add_zero, regs]
  rfl

theorem iretq_leave
    (h : s.Stack [f.errorCode, f.rip, f.cs, f.rflags, f.rsp, f.ss])
    (regs : saved.reverse.map s.reg = saved.reverse.map (register f)) :
    (exec stub.leave none s).2.iretq = context (stub.resumed f) := by
  have shifted : s.iretq = context (shiftDown f) := iretq_eq h regs
  let t := Instruction.run s (addq 8 .rsp)
  have stack : t.Stack [f.rip, f.cs, f.rflags, f.rsp, f.ss] := by
    change Holds 8 s.mem (Function.update s.reg .rsp (s.reg .rsp + 8) .rsp) _
    rw [Function.update_self]
    exact h.2
  have others : saved.reverse.map t.reg = saved.reverse.map (register f) := by
    rw [← regs]
    refine List.map_congr_left fun r mem => Function.update_of_ne (fun sp => ?_) ..
    exact rsp_not_saved (sp ▸ List.mem_reverse.mp mem)
  have skipped : t.iretq = context f := iretq_eq stack others
  cases stub <;> first | exact shifted | exact skipped

/-- The processor goes on with the frame that the handler has left. -/
theorem run_eq (user : ¬ stub.TakenForKernel f) :
    stub.run handler (stub.enter f top mem) =
      context (stub.resumed (frameAt (handler.call (stub.calls (stub.enter f top mem))).mem
        ((stub.calls (stub.enter f top mem)).reg .rdi))) := by
  obtain ⟨t, run, rdi, -⟩ := @exec_enter f mem stub top user
  have called : stub.calls (stub.enter f top mem) = t := congrArg Prod.snd run
  rw [Stub.run, called, run]
  have top_eq : (handler.call t).reg .rsp = t.reg .rdi := (handler.balanced t).trans rdi.symm
  generalize handler.call t = u at top_eq ⊢
  generalize left : frameAt u.mem (t.reg .rdi) = g
  have stack : u.Stack (words g) := by
    rw [Cpu.Stack, top_eq]
    exact holds_words.mpr left
  have split : words g = g.intNo :: g.cr2 :: saved.reverse.map (register g) ++
      [g.errorCode, g.rip, g.cs, g.rflags, g.rsp, g.ss] := rfl
  rw [split] at stack
  obtain ⟨v, popped, stack, regs⟩ := exec_popRegs stack (by rw [List.length_map]; rfl) stub.leave
  change (exec (addq 16 .rsp :: (popRegs ++ stub.leave)) none u).2.iretq = _
  rw [popped]
  exact iretq_leave stack regs

theorem resumed_received (other : stub ≠ invalidOpcode) :
    context (stub.resumed (stub.received f x)) = context f := by
  cases stub <;> first | rfl | exact absurd rfl other

/-- A handler that leaves its frame alone lets the interrupted program go on as it was, whether its
stub pushes an error code or not. -/
theorem run_untouched (other : stub ≠ invalidOpcode) (user : ¬ stub.TakenForKernel f)
    (untouched : ∀ s, frameAt (handler.call s).mem (s.reg .rdi) = frameAt s.mem (s.reg .rdi)) :
    stub.run handler (stub.enter f top mem) = context f := by
  rw [run_eq user, untouched, frame_calls user, resumed_received other]

end Stub

/-! ## The kernel's interrupts -/

def Cause.stub : Cause → Stub
  | .timer => .timer
  | .syscall => .isr80
  | .pageFault => .pageFault
  | .generalProtection _ => .gpf
  | .invalidOpcode _ => .invalidOpcode
  | .keyboard _ _ => .keyboard

theorem stubPops_eq (cause : Cause) (f : InterruptRegisters) :
    stubPops cause f = cause.stub.resumed f := by
  cases cause <;> rfl

/-- The machine code of a handler does to the frame at its argument what the handler does to the
frame of an interrupt. -/
def Implements (handler : Stub.Handler) (k : Kernel) (i : Interrupt) : Prop :=
  ∀ k' f, handleInterrupt k i = some (k', f) → ∀ s : Stub.Cpu,
    Stub.frameAt s.mem (s.reg .rdi) = i.frame →
      Stub.frameAt (handler.call s).mem (s.reg .rdi) = f

variable {k k' : Kernel} {i : Interrupt} {f g : InterruptRegisters} {stub : Stub}
  {handler : Stub.Handler} {top : U64} {mem : U64 → U64}

/-- The frame at the argument of a handler. -/
def Stub.Cpu.frame (s : Stub.Cpu) : InterruptRegisters := Stub.frameAt s.mem (s.reg .rdi)

/-- The frame that a handler leaves where it found the one it was called with. -/
def Stub.Handler.leaves (handler : Stub.Handler) (s : Stub.Cpu) : InterruptRegisters :=
  Stub.frameAt (handler.call s).mem (s.reg .rdi)

/-- A stub around a handler that models an interrupt of the kernel: the processor goes on with what
`stubPops` says of the frame that is left. -/
theorem run_interrupt (received : i.frame = i.cause.stub.received f (mem top))
    (user : ¬ i.cause.stub.TakenForKernel f) (implements : Implements handler k i)
    (step : handleInterrupt k i = some (k', g)) :
    i.cause.stub.run handler (i.cause.stub.enter f top mem) = context (stubPops i.cause g) := by
  rw [Stub.run_eq user, stubPops_eq]
  exact congrArg (fun left => context (i.cause.stub.resumed left))
    (implements k' g step _ ((Stub.frame_calls user).trans received.symm))

/-- What each of the stubs does around any handler: what it hands over, what it takes back, what it
does around a handler that leaves its frame alone, and around one of the kernel's. -/
theorem stub_simulates (user : ¬ stub.TakenForKernel f) :
    (stub.calls (stub.enter f top mem)).frame = stub.received f (mem top) ∧
      stub.run handler (stub.enter f top mem) =
        context (stub.resumed (handler.leaves (stub.calls (stub.enter f top mem)))) ∧
      (stub ≠ .invalidOpcode → (∀ s, handler.leaves s = s.frame) →
        stub.run handler (stub.enter f top mem) = context f) ∧
      ∀ (k k' : Kernel) (i : Interrupt) (g : InterruptRegisters), i.cause.stub = stub →
        i.frame = stub.received f (mem top) → Implements handler k i →
        handleInterrupt k i = some (k', g) →
        stub.run handler (stub.enter f top mem) = context (stubPops i.cause g) := by
  refine ⟨Stub.frame_calls user, Stub.run_eq user, fun other untouched =>
    Stub.run_untouched other user untouched, fun k k' i g same received implements step => ?_⟩
  subst same
  exact run_interrupt received user implements step

/-- A kernel without tasks. -/
def tasklessKernel : Kernel :=
  ⟨⟨fun _ _ => 0, fun _ => ⟨0, 0⟩, 0, 0, 0, 0, ⟨0, 0, 0⟩⟩, fun _ => zeroTask, 0, zeroTSS, false, false,
    fun _ => 0, 0⟩

/-- A shift key, pressed in a program at `0x400010`. -/
def shiftKey : Interrupt where
  cause := .keyboard 1 0x2A
  frame := { zeroRegisters with rip := 0x400010, cs := 0x1B, rsp := 0x7FFF0FF0, ss := 0x23 }
  dev := ⟨fun _ => ⟨0, 0, 0⟩, fun _ => 0, fun _ _ => 0, fun _ => 0, fun _ _ => 0, 0⟩
  fuel := 0

/-- The shift key changes nothing in the frame: the processor goes on with it. -/
theorem stub_simulates_shiftKey :
    Stub.keyboard.run ⟨id, fun _ => rfl⟩ (Stub.keyboard.enter shiftKey.frame 0x9000 fun _ => 0) =
      context shiftKey.frame := by
  have implements : Implements ⟨id, fun _ => rfl⟩ tasklessKernel shiftKey := by
    intro k' f step s seen
    have pressed : handleInterrupt tasklessKernel shiftKey =
      some (_, shiftKey.frame) := rfl
    rw [pressed, Option.some.injEq, Prod.mk.injEq] at step
    exact seen.trans step.2
  exact (@stub_simulates shiftKey.frame .keyboard ⟨id, fun _ => rfl⟩ 0x9000 (fun _ => 0)
    (by decide)).2.2.2 tasklessKernel _ shiftKey _ rfl rfl implements rfl

end ChudOS
