import ChudOS.Filesys.Strict

/-!
# Lookup of a path

The search of `gemfs.c` for a name among the children of an entry, and the walk along a path that
uses it. A name lies in an array of 128 bytes; one without a zero in it is read past its end.

## Main definitions

* `findIndexByName` — the index of the child with a name, or -1.
* `directoryToIndex` — the index of the entry at a path, or -1.
* `Call` — the calls on a formatted partition that return an index.
-/

namespace ChudOS.GemFS

open Outcome

/-- `calculate_string_length`. -/
def stringLength (text : Fin 128 → U8) : Except Stop Nat :=
  match (List.finRange 128).find? fun i => text i = 0 with
  | some i => .ok i
  | none => .error .overrun

/-- The loop of `GemFS_Names_Equal`, which also ends where both names do. -/
def sameLetters (name₁ name₂ : Fin 128 → U8) : List (Fin 128) → Bool
  | [] => true
  | i :: l =>
    if name₁ i = 0 ∧ name₂ i = 0 then true
    else if name₁ i ≠ name₂ i then false
    else sameLetters name₁ name₂ l

def namesEqual (name₁ name₂ : Fin 128 → U8) (len₁ len₂ : Nat) : Bool :=
  if len₁ ≠ len₂ then false else sameLetters name₁ name₂ ((List.finRange 128).take len₁)

def isNamed (name : Fin 128 → U8) (e : Entry) : Except Stop Bool := do
  let len₁ ← stringLength name
  let len₂ ← stringLength e.name
  return namesEqual name e.name len₁ len₂

variable [SectorAccess] (env : Env)

/-- The loop of `GemFS_Find_Index_By_Name` over the siblings. -/
def namedSiblingFrom (name : Fin 128 → U8) : Nat → Volume → Entry → Except Stop (Volume × Entry)
  | 0, _, _ => .error .outOfFuel
  | n + 1, s, e => do
    let equal ← isNamed name e
    if equal = false ∧ e.siblingIndex ≠ 0 then
      let (s, e) ← readEntry env e.siblingIndex s
      namedSiblingFrom name n s e
    else return (s, e)

/-- An entry that is its own first child has no children, and the root is found in their place. An
entry that starts at 0 has the root as its child. -/
def findIndexByName (name : Fin 128 → U8) (parentIndex : U64) (s : Volume) :
    Except Stop (Volume × U64) := do
  let (s, parent) ← readEntry env parentIndex s
  if parent.start = parent.index then
    return (s, 0)
  else
    let (s, e) ← readEntry env parent.start s
    let (s, e) ← namedSiblingFrom env name env.fuel s e
    let equal ← isNamed name e
    return (s, if e.siblingIndex = 0 ∧ equal = false then -1 else e.index)

/-- The loop of `GemFS_Directory_to_Index`, where `curIndex` is an `int`. The letter after a slash
is taken whatever it is, also when the path ends there. -/
def directoryToIndexFrom (directory : Nat → U8) :
    Nat → Nat → Nat → U32 → (Fin 128 → U8) → Volume → Except Stop (Volume × U64)
  | 0, _, _, _, _, _ => .error .outOfFuel
  | n + 1, i, lastI, curIndex, scan, s =>
    if directory i = 0x2F ∨ directory i = 0 then do
      let (s, index) ← findIndexByName env scan (curIndex.signExtend 64) s
      let curIndex : U32 := index.setWidth 32
      if curIndex = -1 then
        return (s, -1)
      else if directory i = 0 then
        return (s, curIndex.signExtend 64)
      else
        directoryToIndexFrom directory n (i + 2) (i + 1) curIndex
          (fun k => if k = 0 then directory (i + 1) else 0) s
    else if h : i - lastI < 128 then
      directoryToIndexFrom directory n (i + 1) lastI curIndex
        (Function.update scan ⟨i - lastI, h⟩ (directory i)) s
    else .error .overrun

/-- `GemFS_Directory_to_Index`, where `scan` is what its local array holds before it is written. The
memory from the path on is read past its end when it ends in a slash. -/
def directoryToIndex (scan : Fin 128 → U8) (directory : Nat → U8) (s : Volume) :
    Except Stop (Volume × U64) :=
  let i := if directory 0 = 0x2F then 1 else 0
  directoryToIndexFrom env directory env.fuel i i 0 scan s

/-! ## Sequences of calls -/

inductive Call
  | mkdir (args : CreateArgs)
  | createFile (args : CreateArgs) (size : U64)
  | lookup (scan : Fin 128 → U8) (directory : Nat → U8)

def Call.run : Call → Volume → Except Stop (Volume × U64)
  | .mkdir args => GemFS.mkdir env args
  | .createFile args size => GemFS.createFile env args size
  | .lookup scan directory => directoryToIndex env scan directory

/-- The calls one after the other, and what they return. -/
def runCalls : List Call → Volume → Except Stop (Volume × List U64)
  | [], s => .ok (s, [])
  | call :: calls, s => do
    let (s, index) ← call.run env s
    let (s, results) ← runCalls calls s
    return (s, index :: results)

/-! ## Calls with a free block whenever one is taken -/

section Follows

variable {env : Env} (kernel : env.findFreeBlock = findFreeBlock)
include kernel

theorem findIndexByName_follows (name : Fin 128 → U8) (i : U64) (s : Volume) :
    Follows .noBlock (findIndexByName env.strict name i s) (findIndexByName env name i s) := by
  have loop (n : Nat) (s : Volume) (e : Entry) :
      Follows .noBlock (namedSiblingFrom env.strict name n s e) (namedSiblingFrom env name n s e) := by
    induction n generalizing s e with
    | zero => exact .refl _
    | succ n ih =>
      refine .bind (.refl _) fun equal => ?_
      split_ifs
      · exact (readEntry_follows kernel _ _).bind fun r => ih _ _
      · exact .refl _
  refine (readEntry_follows kernel i s).bind fun r => ?_
  dsimp only
  split_ifs
  · exact .refl _
  · exact (readEntry_follows kernel _ _).bind fun r => (loop _ _ _).bind fun r => .refl _

theorem directoryToIndex_follows (scan : Fin 128 → U8) (directory : Nat → U8) (s : Volume) :
    Follows .noBlock (directoryToIndex env.strict scan directory s)
      (directoryToIndex env scan directory s) := by
  have loop (n k lastI : Nat) (curIndex : U32) (scan : Fin 128 → U8) (s : Volume) :
      Follows .noBlock (directoryToIndexFrom env.strict directory n k lastI curIndex scan s)
        (directoryToIndexFrom env directory n k lastI curIndex scan s) := by
    induction n generalizing k lastI curIndex scan s with
    | zero => exact .refl _
    | succ n ih =>
      rw [directoryToIndexFrom, directoryToIndexFrom]
      by_cases ends : directory k = 0x2F ∨ directory k = 0
      · rw [if_pos ends, if_pos ends]
        refine (findIndexByName_follows kernel _ _ _).bind fun r => ?_
        dsimp only
        split_ifs
        · exact .refl _
        · exact .refl _
        · exact ih _ _ _ _ _
      · rw [if_neg ends, if_neg ends]
        split_ifs
        · exact ih _ _ _ _ _
        · exact .refl _
  exact loop _ _ _ _ _ _

theorem run_follows (call : Call) (s : Volume) :
    Follows .noBlock (call.run env.strict s) (call.run env s) := by
  cases call with
  | mkdir args => exact mkdir_follows kernel args s
  | createFile args size => exact createFile_follows kernel args size s
  | lookup scan directory => exact directoryToIndex_follows kernel scan directory s

theorem runCalls_follows (calls : List Call) (s : Volume) :
    Follows .noBlock (runCalls env.strict calls s) (runCalls env calls s) := by
  induction calls generalizing s with
  | nil => exact .refl _
  | cons call calls ih =>
    exact (run_follows kernel call s).bind fun r => (ih r.1).bind fun r => .refl _

end Follows

end ChudOS.GemFS
