import ChudOS.ContextSwitch
import ChudOS.LowLevel.StackBytes
import ChudOS.Userland.Arguments

/-!
# The stack of a new program

`SetupTaskStack` pushes the strings, the vector of pointers to them with its zero, and the count. All
of it is one list of bytes that ends where the stack began.

## Main definitions

* `stackImage` — the bytes that are pushed.
* `ArgumentAt` — an argument outside the part of memory that is written.
* `LaidOut` — what the program finds on its stack.
-/

namespace ChudOS

/-- The strings with their terminators. -/
def joined (strings : List (List U8)) : List U8 := strings.flatMap (· ++ [0])

/-- Where the strings begin below `top`. -/
def pointersOf (top : U64) : List (List U8) → List U64
  | [] => []
  | s :: strings =>
    (top - BitVec.ofNat 64 (joined (s :: strings)).length) :: pointersOf top strings

def wordBytes (xs : List U64) : List U8 := xs.flatMap bytesOf64

def stackImage (top : U64) (strings : List (List U8)) : List U8 :=
  bytesOf64 (BitVec.ofNat 64 strings.length) ++
    (wordBytes (pointersOf top strings ++ [0]) ++ joined strings)

/-- How many bytes are written. -/
def stackSize (strings : List (List U8)) : Nat :=
  8 * (strings.length + 2) + (strings.map (·.length + 1)).sum

/-- Where string number `i` begins among the strings. -/
def offset (strings : List (List U8)) (i : Nat) : Nat := (joined (strings.take i)).length

/-- The address of the copy of string number `i`, above the count, the pointers and their zero. -/
def stringAddress (rsp : U64) (strings : List (List U8)) (i : Nat) : U64 :=
  rsp + BitVec.ofNat 64 (8 * (strings.length + 2) + offset strings i)

/-- The count, the pointers with a zero after them, and the copies they point to, one after the
other. -/
structure LaidOut (m : Memory) (rsp : U64) (strings : List (List U8)) : Prop where
  count : load64 m rsp = some (BitVec.ofNat 64 strings.length)
  pointer : ∀ i < strings.length,
    load64 m (rsp + BitVec.ofNat 64 (8 * (i + 1))) = some (stringAddress rsp strings i)
  sentinel : load64 m (rsp + BitVec.ofNat 64 (8 * (strings.length + 1))) = some 0
  copy : ∀ i, (hi : i < strings.length) →
    BytesAt m (stringAddress rsp strings i) (strings[i] ++ [0])
  next : ∀ i, (hi : i < strings.length) → stringAddress rsp strings i +
    BitVec.ofNat 64 (strings[i].length + 1) = stringAddress rsp strings (i + 1)
  disjoint : ∀ i j, (hi : i < strings.length) → (hj : j < strings.length) → i ≠ j →
    ∀ a < strings[i].length + 1, ∀ b < strings[j].length + 1,
      stringAddress rsp strings i + BitVec.ofNat 64 a ≠ stringAddress rsp strings j + BitVec.ofNat 64 b

/-- The bytes `bs` lie from `a` on, at places other than `p`. -/
structure Untouched (m : Memory) (p : Nat × Nat → Prop) (a : U64) (bs : List U8) : Prop where
  held : BytesAt m a bs
  outside : ∀ i < bs.length, ∀ x, placeOf m (a + BitVec.ofNat 64 i) = some x → ¬ p x

/-- `argv[i]` is the string `s`. -/
structure ArgumentAt (m : Memory) (p : Nat × Nat → Prop) (argv : U64) (i : Nat) (s : List U8) :
    Prop where
  terminated : 0 ∉ s
  string : ∃ pointer, Untouched m p (argv + BitVec.ofNat 64 (8 * i)) (bytesOf64 pointer) ∧
    Untouched m p pointer (s ++ [0])

variable {m m' m₀ : Memory} {k k' : Kernel} {argv top a : U64} {s bs : List U8} {xs : List U64}
  {strings : List (List U8)} {i j n fuel pid : Nat} {p q : Nat × Nat → Prop}

/-! ## Sizes -/

@[simp] theorem length_wordBytes (xs : List U64) : (wordBytes xs).length = 8 * xs.length := by
  induction xs with
  | nil => rfl
  | cons x xs ih =>
    rw [wordBytes, List.flatMap_cons, List.length_append, length_bytesOf64, List.length_cons]
    change 8 + (wordBytes xs).length = _
    omega

theorem length_joined (strings : List (List U8)) :
    (joined strings).length = (strings.map (·.length + 1)).sum := by
  simp [joined, List.length_flatMap]

@[simp] theorem length_pointersOf : (pointersOf top strings).length = strings.length := by
  induction strings with
  | nil => rfl
  | cons s strings ih => rw [pointersOf, List.length_cons, List.length_cons, ih]

theorem length_stackImage : (stackImage top strings).length = stackSize strings := by
  rw [stackImage, List.length_append, List.length_append, length_bytesOf64, length_wordBytes,
    List.length_append, length_pointersOf, length_joined, stackSize]
  simp only [List.length_singleton]
  omega

/-! ## Reading the arguments -/

theorem Untouched.bytesAt (h : Untouched m p a bs) (changed : Changed m m' p) : BytesAt m' a bs :=
  fun i hi => (changed.loadByte (h.outside i hi)).trans (h.held i hi)

theorem argumentByte_eq (h : ArgumentAt m p argv i s) (changed : Changed m m' p)
    (hj : j < (s ++ [0]).length) : argumentByte m' argv i j = some (s ++ [0])[j] := by
  obtain ⟨pointer, slot, string⟩ := h.string
  rw [argumentByte, load64_of_bytesAt (slot.bytesAt changed)]
  exact string.bytesAt changed j hj

theorem argumentLength_eq (h : ArgumentAt m p argv i s) (changed : Changed m m' p)
    (enough : s.length < n + j) (le : j ≤ s.length) :
    argumentLength m' argv i n j = some s.length := by
  induction n generalizing j with
  | zero => omega
  | succ n ih =>
    rw [argumentLength, argumentByte_eq h changed (by simp; omega)]
    by_cases last : j = s.length
    · subst last
      simp
    · have lt : j < s.length := by omega
      have ne : s[j] ≠ 0 := fun zero => h.terminated (zero ▸ List.getElem_mem lt)
      rw [List.getElem_append_left lt]
      simp only [Option.bind_eq_bind, Option.bind_some, if_neg ne]
      exact ih (by omega) (by omega)

/-! ## Pushing -/

namespace Pushed

/-- What was pushed lies in the part that is written. -/
theorem within (h : Pushed m₀ m top bs) (le : bs.length ≤ n) :
    Changed m₀ m (Places m₀ (top - BitVec.ofNat 64 n) n) := by
  refine h.changed.mono fun x inside => ?_
  obtain ⟨i, hi, at_i⟩ := inside
  refine ⟨n - bs.length + i, by omega, ?_⟩
  have split : n = (n - bs.length) + bs.length := by omega
  have base := sub_ofNat_add top (n - bs.length) bs.length
  rw [← split] at base
  rw [← add_ofNat_add, base]
  exact at_i

variable (ready : Ready m₀ (top - BitVec.ofNat 64 n) n)
include ready

theorem byte (h : Pushed m₀ m top bs) (b : U8) (room : bs.length < n) :
    ∃ m', storeByte m (top - BitVec.ofNat 64 bs.length - 1) b = some m' ∧
      Pushed m₀ m' top (b :: bs) := by
  obtain ⟨m', eq, pushed⟩ := @write _ _ _ n bs [b] h ready (by rw [List.length_singleton]; omega)
  have place : top - BitVec.ofNat 64 bs.length - 1 =
      top - BitVec.ofNat 64 ([b].length + bs.length) := by
    rw [List.length_singleton, BitVec.ofNat_add]
    grind
  refine ⟨m', ?_, pushed⟩
  rw [place]
  rw [copyOut] at eq
  cases stored : storeByte m (top - BitVec.ofNat 64 ([b].length + bs.length)) b with
  | none => rw [stored] at eq; cases eq
  | some m₁ =>
    rw [stored] at eq
    exact eq

/-- The bytes of an argument from number `j` on were pushed; now the others are. -/
theorem argument (arg : ArgumentAt m₀ (Places m₀ (top - BitVec.ofNat 64 n) n) argv i s)
    (h : Pushed m₀ m top ((s ++ [0]).drop j ++ bs)) (le : j ≤ (s ++ [0]).length)
    (room : (s ++ [0] ++ bs).length ≤ n) :
    ∃ m', pushArgument argv i j m (top - BitVec.ofNat 64 ((s ++ [0]).drop j ++ bs).length) =
        some (m', top - BitVec.ofNat 64 (s ++ [0] ++ bs).length) ∧
      Pushed m₀ m' top (s ++ [0] ++ bs) := by
  induction j generalizing m with
  | zero => exact ⟨m, rfl, h⟩
  | succ j ih =>
    have lt : j < (s ++ [0]).length := le
    have cons : (s ++ [0])[j] :: ((s ++ [0]).drop (j + 1) ++ bs) = (s ++ [0]).drop j ++ bs := by
      rw [← List.cons_append, List.getElem_cons_drop]
    have size : ((s ++ [0]).drop (j + 1) ++ bs).length < n := by
      rw [List.length_append, List.length_drop]
      rw [List.length_append] at room
      omega
    have read := argumentByte_eq arg (h.within (Nat.le_of_lt size)) lt
    obtain ⟨m₁, stored, pushed⟩ := h.byte ready (s ++ [0])[j] size
    rw [cons] at pushed
    have below : top - BitVec.ofNat 64 ((s ++ [0]).drop (j + 1) ++ bs).length - 1 =
        top - BitVec.ofNat 64 ((s ++ [0]).drop j ++ bs).length := by
      rw [← cons, List.length_cons, BitVec.ofNat_add]
      grind
    obtain ⟨m', rest, done⟩ := ih pushed (Nat.le_of_lt lt)
    refine ⟨m', ?_, done⟩
    rw [pushArgument, read]
    simp only [Option.bind_eq_bind, Option.bind_some]
    rw [stored, below]
    exact rest

/-- The arguments from number `i` on. -/
theorem arguments (args : ∀ j (hj : j < strings.length),
      ArgumentAt m₀ (Places m₀ (top - BitVec.ofNat 64 n) n) argv (i + j) strings[j])
    (enough : ∀ s ∈ strings, s.length < fuel) (room : (joined strings).length ≤ n) :
    ∃ m, pushArguments fuel m₀ argv top i strings.length =
        some (m, top - BitVec.ofNat 64 (joined strings).length, pointersOf top strings) ∧
      Pushed m₀ m top (joined strings) := by
  induction strings generalizing i with
  | nil => exact ⟨m₀, by rw [pushArguments.eq_def]; simp [joined, pointersOf], .nil⟩
  | cons s strings ih =>
    have cons : joined (s :: strings) = s ++ [0] ++ joined strings := List.flatMap_cons
    rw [cons] at room
    obtain ⟨m, eq, pushed⟩ := ih (i := i + 1) (fun j hj => by
        have arg : ArgumentAt m₀ _ argv (i + (j + 1)) strings[j] := args (j + 1) (Nat.succ_lt_succ hj)
        rwa [show i + (j + 1) = i + 1 + j by omega] at arg)
      (fun s mem => enough s (List.mem_cons_of_mem _ mem))
      (by rw [List.length_append] at room; omega)
    have arg : ArgumentAt m₀ _ argv i s := args 0 (Nat.succ_pos _)
    have small := enough s List.mem_cons_self
    have drop : (s ++ [0]).drop (s.length + 1) = [] := by simp
    have length := argumentLength_eq (n := fuel) (j := 0) arg
      (pushed.within (n := n) (by rw [List.length_append] at room; omega)) (by omega) (Nat.zero_le _)
    obtain ⟨m', eq', pushed'⟩ := argument (j := s.length + 1) ready arg
      (by rw [drop]; exact pushed) (by simp) room
    rw [drop, List.nil_append] at eq'
    refine ⟨m', ?_, cons ▸ pushed'⟩
    rw [List.length_cons, pushArguments, eq]
    simp only [Option.bind_eq_bind, Option.bind_some]
    rw [length]
    simp only [Option.bind_some]
    rw [eq', pointersOf, cons]
    rfl

/-- The strings, given as lists. -/
theorem lists (room : (joined strings).length ≤ n) :
    ∃ m, pushStrings m₀ top strings =
        some (m, top - BitVec.ofNat 64 (joined strings).length, pointersOf top strings) ∧
      Pushed m₀ m top (joined strings) := by
  induction strings with
  | nil => exact ⟨m₀, by simp [pushStrings, joined, pointersOf], .nil⟩
  | cons s strings ih =>
    have cons : joined (s :: strings) = s ++ [0] ++ joined strings := List.flatMap_cons
    rw [cons, List.length_append] at room
    obtain ⟨m, eq, pushed⟩ := ih (by omega)
    obtain ⟨m', eq', pushed'⟩ := @write _ _ _ n _ (s ++ [0]) pushed ready room
    have below : top - BitVec.ofNat 64 (joined strings).length - BitVec.ofNat 64 (s.length + 1) =
        top - BitVec.ofNat 64 ((s ++ [0]).length + (joined strings).length) := by
      rw [List.length_append, List.length_singleton, BitVec.ofNat_add _ (joined strings).length]
      grind
    refine ⟨m', ?_, cons ▸ pushed'⟩
    rw [pushStrings, eq]
    simp only [Option.bind_eq_bind, Option.bind_some]
    have size : (s ++ [0] ++ joined strings).length = (s ++ [0]).length + (joined strings).length :=
      List.length_append
    rw [below, eq', pointersOf, cons, size]
    rfl

theorem words (h : Pushed m₀ m top bs) (room : (wordBytes xs ++ bs).length ≤ n) :
    ∃ m', pushWords m (top - BitVec.ofNat 64 bs.length) xs =
        some (m', top - BitVec.ofNat 64 (wordBytes xs ++ bs).length) ∧
      Pushed m₀ m' top (wordBytes xs ++ bs) := by
  induction xs with
  | nil => exact ⟨m, rfl, h⟩
  | cons x xs ih =>
    have cons : wordBytes (x :: xs) ++ bs = bytesOf64 x ++ (wordBytes xs ++ bs) := by
      rw [wordBytes, List.flatMap_cons, List.append_assoc]
      rfl
    rw [cons, List.length_append] at room
    obtain ⟨m₁, eq, pushed⟩ := ih (by omega)
    obtain ⟨m', eq', pushed'⟩ := @write _ _ _ n _ (bytesOf64 x) pushed ready room
    have below : top - BitVec.ofNat 64 (wordBytes xs ++ bs).length - 8 =
        top - BitVec.ofNat 64 ((bytesOf64 x).length + (wordBytes xs ++ bs).length) := by
      rw [length_bytesOf64, BitVec.ofNat_add]
      grind
    refine ⟨m', ?_, cons ▸ pushed'⟩
    rw [pushWords, eq]
    simp only [Option.bind_eq_bind, Option.bind_some]
    have size : (bytesOf64 x ++ (wordBytes xs ++ bs)).length =
      (bytesOf64 x).length + (wordBytes xs ++ bs).length := List.length_append
    rw [store64, below, eq', cons, size]
    rfl

/-- The pointers, the zero and the count below the strings. -/
theorem finish (h : Pushed m₀ m top (joined strings)) (room : stackSize strings ≤ n) :
    ∃ m₁ m', pushWords m (top - BitVec.ofNat 64 (joined strings).length)
        (pointersOf top strings ++ [0]) = some (m₁, top - BitVec.ofNat 64 (stackSize strings) + 8) ∧
      store64 m₁ (top - BitVec.ofNat 64 (stackSize strings) + 8 - 8)
        (BitVec.ofNat 64 strings.length) = some m' ∧
      Pushed m₀ m' top (stackImage top strings) := by
  have size := @length_stackImage top strings
  rw [stackImage, List.length_append, length_bytesOf64] at size
  obtain ⟨m₁, eq, pushed⟩ := @words _ _ _ _ (pointersOf top strings ++ [0]) n ready h (by omega)
  obtain ⟨m', eq', pushed'⟩ := @write _ _ _ n _ (bytesOf64 (BitVec.ofNat 64 strings.length))
    pushed ready (by rw [length_bytesOf64]; omega)
  have above : top - BitVec.ofNat 64 (stackSize strings) + 8 =
      top - BitVec.ofNat 64 (wordBytes (pointersOf top strings ++ [0]) ++ joined strings).length := by
    rw [← size, BitVec.ofNat_add]
    grind
  have bottom : top - BitVec.ofNat 64 (stackSize strings) + 8 - 8 =
      top - BitVec.ofNat 64 (stackSize strings) := by grind
  rw [length_bytesOf64, size] at eq'
  exact ⟨m₁, m', above ▸ eq, by rw [bottom, store64]; exact eq', pushed'⟩

end Pushed

/-! ## What the program finds -/

theorem joined_append (l r : List (List U8)) : joined (l ++ r) = joined l ++ joined r :=
  List.flatMap_append

theorem joined_split (hi : i < strings.length) : joined strings =
    joined (strings.take i) ++ (strings[i] ++ [0]) ++ joined (strings.drop (i + 1)) := by
  have split : strings = strings.take i ++ [strings[i]] ++ strings.drop (i + 1) := by simp
  conv => lhs; rw [split]
  rw [joined_append, joined_append]
  simp [joined]

theorem wordBytes_append (xs ys : List U64) : wordBytes (xs ++ ys) = wordBytes xs ++ wordBytes ys :=
  List.flatMap_append

/-- The words behind the first one, by number. -/
theorem BytesAt.word {c x : U64} (h : BytesAt m a (bytesOf64 c ++ (wordBytes xs ++ bs)))
    (found : xs[i]? = some x) : load64 m (a + BitVec.ofNat 64 (8 * (i + 1))) = some x := by
  obtain ⟨hi, rfl⟩ := List.getElem?_eq_some_iff.mp found
  have split : wordBytes xs =
      wordBytes (xs.take i) ++ (bytesOf64 xs[i] ++ wordBytes (xs.drop (i + 1))) := by
    have parts : xs = xs.take i ++ ([xs[i]] ++ xs.drop (i + 1)) := by simp
    conv => lhs; rw [parts]
    rw [wordBytes_append, wordBytes_append]
    simp [wordBytes]
  have before : (bytesOf64 c ++ wordBytes (xs.take i)).length = 8 * (i + 1) := by
    rw [List.length_append, length_bytesOf64, length_wordBytes, List.length_take]
    omega
  rw [← before]
  refine load64_of_bytesAt (@BytesAt.part _ _ _ _ (wordBytes (xs.drop (i + 1)) ++ bs) ?_)
  rw [split] at h
  simpa only [List.append_assoc] using h

theorem offset_succ (hi : i < strings.length) :
    offset strings (i + 1) = offset strings i + (strings[i].length + 1) := by
  rw [offset, offset, List.take_succ_eq_append_getElem hi, joined_append, List.length_append]
  simp [joined]

theorem offset_mono (le : i ≤ j) (hj : j ≤ strings.length) : offset strings i ≤ offset strings j := by
  induction j, le using Nat.le_induction with
  | base => exact Nat.le_refl _
  | succ j le ih =>
    rw [offset_succ hj]
    have := ih (Nat.le_of_lt hj)
    omega

theorem offset_length : 8 * (strings.length + 2) + offset strings strings.length = stackSize strings := by
  rw [offset, List.take_length, length_joined, stackSize]

theorem offset_add_drop (i : Nat) : 8 * (strings.length + 2) + offset strings i +
    (joined (strings.drop i)).length = stackSize strings := by
  have split := joined_append (strings.take i) (strings.drop i)
  rw [List.take_append_drop] at split
  have size := congrArg List.length split
  rw [List.length_append, length_joined strings] at size
  rw [stackSize, offset]
  omega

theorem pointersOf_getElem? (hi : i < strings.length) :
    (pointersOf top strings)[i]? =
      some (stringAddress (top - BitVec.ofNat 64 (stackSize strings)) strings i) := by
  have below : (pointersOf top strings)[i]? =
      some (top - BitVec.ofNat 64 (joined (strings.drop i)).length) := by
    induction strings generalizing i with
    | nil => exact absurd hi (Nat.not_lt_zero i)
    | cons s strings ih =>
      cases i with
      | zero => rfl
      | succ i => exact ih (Nat.lt_of_succ_lt_succ hi)
  rw [below, stringAddress, ← offset_add_drop i, sub_ofNat_add]

namespace BytesAt

variable (h : BytesAt m a (stackImage top strings))
include h

theorem copy (hi : i < strings.length) : BytesAt m (stringAddress a strings i) (strings[i] ++ [0]) := by
  have before : (bytesOf64 (BitVec.ofNat 64 strings.length) ++
      (wordBytes (pointersOf top strings ++ [0]) ++ joined (strings.take i))).length =
        8 * (strings.length + 2) + offset strings i := by
    rw [List.length_append, List.length_append, length_bytesOf64, length_wordBytes,
      List.length_append, length_pointersOf, List.length_singleton, offset]
    omega
  rw [stringAddress, ← before]
  refine @BytesAt.part _ _ _ _ (joined (strings.drop (i + 1))) ?_
  rw [stackImage, joined_split hi] at h
  simpa only [List.append_assoc] using h

theorem laidOut (bottom : a = top - BitVec.ofNat 64 (stackSize strings))
    (ready : Ready m₀ a (stackSize strings)) : LaidOut m a strings where
  count := by
    have part := @BytesAt.part _ _ _ [] _ h
    rw [List.length_nil, BitVec.add_zero] at part
    exact load64_of_bytesAt part
  pointer i hi := by
    refine h.word ?_
    rw [List.getElem?_append_left (by rwa [length_pointersOf]), pointersOf_getElem? hi, bottom]
  sentinel := by
    refine h.word ?_
    rw [List.getElem?_append_right (by rw [length_pointersOf]), length_pointersOf, Nat.sub_self]
    rfl
  copy i hi := h.copy hi
  next i hi := by
    rw [stringAddress, stringAddress, add_ofNat_add, offset_succ hi, Nat.add_assoc]
  disjoint i j hi hj ne x hx y hy eq := by
    have size := @offset_length strings
    have last := offset_succ hi
    have last' := offset_succ hj
    have top_i : offset strings (i + 1) ≤ offset strings strings.length :=
      offset_mono hi (Nat.le_refl _)
    have top_j : offset strings (j + 1) ≤ offset strings strings.length :=
      offset_mono hj (Nat.le_refl _)
    rw [stringAddress, stringAddress, add_ofNat_add, add_ofNat_add] at eq
    have same := ready.apart _ _ (by omega) (by omega) (congrArg (placeOf m₀) eq)
    rcases Nat.lt_or_gt_of_ne ne with lt | gt
    · have above : offset strings (i + 1) ≤ offset strings j := offset_mono lt (Nat.le_of_lt hj)
      omega
    · have above : offset strings (j + 1) ≤ offset strings i := offset_mono gt (Nat.le_of_lt hi)
      omega

end BytesAt

/-! ## The call -/

/-- The state after the call: the memory `m`, and `rsp` in the record of the task. -/
def Kernel.withStack (k : Kernel) (pid : Nat) (m : Memory) (rsp : U64) : Kernel :=
  let k' := { k.enter pid with mem := m }.setRegisters pid
    { (k.taskManager pid).savedRegisters with rsp := rsp }
  { k'.setCr3 k.mem.paging.pml4Physical with curPid := k.curPid }

/-- The strings lie in the address space of the task, the pointers to them from `argv` on, and there
is room below the stack pointer, in places of its own. -/
structure Prepared (k : Kernel) (pid : Nat) (argv : U64) (strings : List (List U8)) (fuel : Nat) :
    Prop where
  ready : Ready (k.enter pid).mem
    ((k.taskManager pid).savedRegisters.rsp - BitVec.ofNat 64 (stackSize strings)) (stackSize strings)
  argument : ∀ i, (hi : i < strings.length) → ArgumentAt (k.enter pid).mem
    (Places (k.enter pid).mem ((k.taskManager pid).savedRegisters.rsp -
      BitVec.ofNat 64 (stackSize strings)) (stackSize strings)) argv i strings[i]
  enough : ∀ s ∈ strings, s.length < fuel

theorem length_joined_le : (joined strings).length ≤ stackSize strings := by
  rw [length_joined, stackSize]
  exact Nat.le_add_left ..

theorem setupTaskStackAt_pushed (h : Prepared k pid argv strings fuel) :
    ∃ m, setupTaskStackAt fuel k pid argv strings.length = some (k.withStack pid m
        ((k.taskManager pid).savedRegisters.rsp - BitVec.ofNat 64 (stackSize strings))) ∧
      Pushed (k.enter pid).mem m (k.taskManager pid).savedRegisters.rsp
        (stackImage (k.taskManager pid).savedRegisters.rsp strings) := by
  obtain ⟨m₁, eq₁, pushed₁⟩ := @Pushed.arguments _ argv _ strings 0 _ fuel h.ready
    (fun i hi => by rw [Nat.zero_add]; exact h.argument i hi) h.enough length_joined_le
  obtain ⟨m₂, m₃, eq₂, eq₃, pushed₃⟩ := Pushed.finish h.ready pushed₁ (Nat.le_refl _)
  refine ⟨m₃, ?_, pushed₃⟩
  simp only [setupTaskStackAt, eq₁, Option.bind_eq_bind, Option.bind_some, eq₂, eq₃]
  rw [BitVec.add_sub_cancel]
  rfl

/-- What is read from memory is what `setupTaskStack` is given. -/
theorem setupTaskStackAt_eq (h : Prepared k pid argv strings fuel) :
    setupTaskStackAt fuel k pid argv strings.length = setupTaskStack k pid strings := by
  obtain ⟨m, eq, pushed⟩ := setupTaskStackAt_pushed h
  obtain ⟨m₁, eq₁, pushed₁⟩ := Pushed.lists h.ready length_joined_le
  obtain ⟨m₂, m₃, eq₂, eq₃, pushed₃⟩ := Pushed.finish h.ready pushed₁ (Nat.le_refl _)
  rw [eq, pushed.unique pushed₃]
  simp only [setupTaskStack, eq₁, Option.bind_eq_bind, Option.bind_some, eq₂, eq₃]
  rw [BitVec.add_sub_cancel]
  rfl

@[simp] theorem enter_withStack {m : Memory} {rsp : U64}
    (paging : m.paging = (k.enter pid).mem.paging) : ((k.withStack pid m rsp).enter pid).mem = m := by
  have base : ((k.withStack pid m rsp).taskManager pid).basePML4 = (k.taskManager pid).basePML4 := by
    simp [Kernel.withStack, Kernel.setRegisters, Kernel.setTask, Kernel.setCr3, Kernel.enter]
  rw [Kernel.enter, base]
  change memSetCr3 (memSetCr3 m _) (k.taskManager pid).basePML4 = m
  rw [memSetCr3, memSetCr3]
  change { m with paging := { m.paging with cr3 := _, pml4Physical := _ } } = m
  have eq : { m.paging with
      cr3 := (k.taskManager pid).basePML4, pml4Physical := (k.taskManager pid).basePML4 } = m.paging := by
    rw [paging]
    rfl
  rw [eq]

/-- A program finds its arguments on the stack, which ends where it ended before. Nothing but the
bytes between its old pointer and its new one was written. -/
theorem setup_task_stack_laid_out (h : Prepared k pid argv strings fuel)
    (shadow : k.mem.paging.cr3 = k.mem.paging.pml4Physical) :
    ∃ k' rsp, setupTaskStackAt fuel k pid argv strings.length = some k' ∧
      k'.taskManager = (k.setRegisters pid
        { (k.taskManager pid).savedRegisters with rsp := rsp }).taskManager ∧
      rsp + BitVec.ofNat 64 (stackSize strings) = (k.taskManager pid).savedRegisters.rsp ∧
      stringAddress rsp strings strings.length = (k.taskManager pid).savedRegisters.rsp ∧
      LaidOut (k'.enter pid).mem rsp strings ∧
      Changed (k.enter pid).mem (k'.enter pid).mem
        (Places (k.enter pid).mem rsp (stackSize strings)) ∧
      k'.curPid = k.curPid ∧ k'.mem.paging = k.mem.paging := by
  obtain ⟨m, eq, pushed⟩ := setupTaskStackAt_pushed h
  have paging := pushed.changed.paging
  have held := pushed.held
  have changed := pushed.changed
  rw [length_stackImage] at held changed
  refine ⟨_, _, eq, rfl, BitVec.sub_add_cancel .., ?_, ?_, ?_, rfl, ?_⟩
  · rw [stringAddress, offset_length, BitVec.sub_add_cancel]
  · rw [enter_withStack paging]
    exact held.laidOut rfl h.ready
  · rw [enter_withStack paging]
    exact changed
  · change { m.paging with
      cr3 := k.mem.paging.pml4Physical, pml4Physical := k.mem.paging.pml4Physical } = k.mem.paging
    rw [paging]
    change { k.mem.paging with cr3 := k.mem.paging.pml4Physical } = k.mem.paging
    rw [← shadow]

/-- Two letters, nothing and three letters. -/
def helloStrings : List (List U8) := [[0x68, 0x69], [], [0x61, 0x62, 0x63]]

/-- On the shell's code page, a vector at 0x400010 with pointers to the strings after it. -/
def helloMemory : Memory :=
  (((shellMemory.setEntry (5, 2) 0x400028).setEntry (5, 3) 0x40002B).setEntry (5, 4) 0x40002C).setEntry
    (5, 5) 0x63626100006968

def helloKernel : Kernel := { idleKernel with mem := helloMemory }

theorem helloMemory_sameSpace : SameSpace shellMemory helloMemory := by
  have data : ¬ IsTable shellMemory {frameOf shellMemory.paging.cr3} 5 := fun ⟨r, hr, p, hp, table⟩ => by
    have root : r = 1 := hr
    have level := shellLevel_tableAt (root ▸ table)
    change 4 = p.length at level
    omega
  have first := setEntry_sameSpace (i := 2) (x := 0x400028) data
  have second := first.trans (setEntry_sameSpace (i := 3) (x := 0x40002B) fun table =>
    data ((first.isTable 5).mp table))
  have third := second.trans (setEntry_sameSpace (i := 4) (x := 0x40002C) fun table =>
    data ((second.isTable 5).mp table))
  exact third.trans (setEntry_sameSpace fun table => data ((third.isTable 5).mp table))

/-- The stack of the shell, 48 bytes of it. -/
theorem hello_mapped : ∀ i : Fin 48, translate shellMemory
    (0x7FFF0FF0 - BitVec.ofNat 64 48 + BitVec.ofNat 64 i.val) = some 8 := by decide +kernel

theorem hello_ready : Ready helloMemory (0x7FFF0FF0 - BitVec.ofNat 64 48) 48 := by
  have offsets : ∀ i : Fin 48, (0x7FFF0FF0 - BitVec.ofNat 64 48 + BitVec.ofNat 64 i.val : U64).toNat %
      0x1000 = 0xFC0 + i.val := by decide +kernel
  have place (i : Nat) (hi : i < 48) : placeOf helloMemory
      (0x7FFF0FF0 - BitVec.ofNat 64 48 + BitVec.ofNat 64 i) = some (8, 0xFC0 + i) := by
    rw [placeOf, helloMemory_sameSpace.translate, hello_mapped ⟨i, hi⟩, ← offsets ⟨i, hi⟩]
    rfl
  refine ⟨fun i hi => ⟨8, ?_, ?_⟩, fun i j hi hj eq => ?_⟩
  · rw [helloMemory_sameSpace.translate]
    exact hello_mapped ⟨i, hi⟩
  · rintro table
    obtain ⟨r, hr, p, hp, table⟩ := (helloMemory_sameSpace.isTable 8).mp table
    have root : r = 1 := hr
    have level := shellLevel_tableAt (root ▸ table)
    change 4 = p.length at level
    omega
  · rw [place i hi, place j hj] at eq
    have := (Prod.mk.inj (Option.some.inj eq)).2
    omega

/-- The code page is not written. -/
theorem hello_untouched {bs : List U8} (held : ∀ i : Fin bs.length,
      loadByte helloMemory (a + BitVec.ofNat 64 i.val) = some bs[i.val] ∧
        translate helloMemory (a + BitVec.ofNat 64 i.val) = some 5) :
    Untouched helloMemory (Places helloMemory (0x7FFF0FF0 - BitVec.ofNat 64 48) 48) a bs where
  held i hi := (held ⟨i, hi⟩).1
  outside i hi x at_x := by
    rintro ⟨j, hj, at_j⟩
    rw [placeOf, (held ⟨i, hi⟩).2] at at_x
    rw [placeOf, helloMemory_sameSpace.translate, hello_mapped ⟨j, hj⟩] at at_j
    rw [← Option.some.inj at_x] at at_j
    cases at_j

theorem hello_argument (i : Nat) (lt : i < 3) : ArgumentAt helloMemory
    (Places helloMemory (0x7FFF0FF0 - BitVec.ofNat 64 48) 48) 0x400010 i (helloStrings.getD i []) :=
  match i, lt with
  | 0, _ => ⟨by decide, 0x400028, hello_untouched (by decide +kernel),
      hello_untouched (by decide +kernel)⟩
  | 1, _ => ⟨by decide, 0x40002B, hello_untouched (by decide +kernel),
      hello_untouched (by decide +kernel)⟩
  | 2, _ => ⟨by decide, 0x40002C, hello_untouched (by decide +kernel),
      hello_untouched (by decide +kernel)⟩

theorem hello_prepared : Prepared helloKernel 1 0x400010 helloStrings 4 where
  ready := hello_ready
  argument i hi := by
    have argument := hello_argument i hi
    rwa [List.getD_eq_getElem _ _ hi] at argument
  enough := by decide

theorem setup_task_stack_hello : ∃ k' rsp,
    setupTaskStackAt 4 helloKernel 1 0x400010 3 = some k' ∧ rsp + 48 = 0x7FFF0FF0 ∧
      LaidOut (k'.enter 1).mem rsp helloStrings := by
  obtain ⟨k', rsp, eq, -, top, -, laid, -⟩ := setup_task_stack_laid_out hello_prepared rfl
  exact ⟨k', rsp, eq, top, laid⟩

end ChudOS
