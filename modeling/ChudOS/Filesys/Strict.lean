import ChudOS.Filesys.Volume
import ChudOS.Library.Outcome

/-!
# Calls with a free block whenever one is taken

A call whose search does not give up does the same with the kernel's search.
-/

namespace ChudOS.GemFS

open Outcome

variable [SectorAccess]

theorem findBlock_follows (s : Volume) : Follows .noBlock (findBlock s) (findFreeBlock s) := by
  intro found
  rw [findBlock] at found ⊢
  cases result : findFreeBlock s with
  | error e => rfl
  | ok b =>
    rw [result, ok_bind] at found
    rw [ok_bind]
    split_ifs at found ⊢
    · rfl
    · exact absurd rfl found

section Locate

variable {env env' : Env} {locate locate' : U64 → Volume → Except Stop (Volume × U64)}
  (hloc : ∀ i s, Follows .noBlock (locate i s) (locate' i s))

omit [SectorAccess] in
include hloc in
theorem readEntryAt_follows (i : U64) (s : Volume) :
    Follows .noBlock (readEntryAt locate i s) (readEntryAt locate' i s) :=
  (hloc i s).bind fun _ => .refl _

omit [SectorAccess] in
include hloc in
theorem writeEntryAt_follows (env : Env) (i : U64) (e : Entry) (s : Volume) :
    Follows .noBlock (writeEntryAt env locate i e s) (writeEntryAt env locate' i e s) :=
  (hloc i s).bind fun _ => .refl _

omit [SectorAccess] in
theorem enumerate_follows {create create' : U64 → Volume → Except Stop Volume}
    (h : ∀ i s, Follows .noBlock (create i s) (create' i s)) (n : Nat) (i : U64) (s : Volume) (e : Entry)
    (last : U64) : Follows .noBlock (enumerate create n i s e last) (enumerate create' n i s e last) := by
  induction n generalizing i s e last with
  | zero => exact .refl _
  | succ n ih =>
    rw [enumerate, enumerate]
    split_ifs
    · exact (h i s).bind fun t => ih _ _ _ _
    · exact ih _ _ _ _

end Locate

variable {env : Env} (kernel : env.findFreeBlock = findFreeBlock)
include kernel

theorem search_follows (s : Volume) :
    Follows .noBlock (env.strict.findFreeBlock s) (env.findFreeBlock s) := by
  rw [kernel]
  exact findBlock_follows s

theorem getEntryBlockWithin_follows (d : Nat) (i : U64) (s : Volume) :
    Follows .noBlock (getEntryBlockWithin env.strict d i s) (getEntryBlockWithin env d i s) := by
  induction d generalizing i s with
  | zero => exact .refl _
  | succ d ih =>
    rw [getEntryBlockWithin, getEntryBlockWithin]
    split_ifs
    · exact .refl _
    · refine enumerate_follows (fun i s => ?_) _ _ _ _ _
      refine (search_follows kernel s).bind fun b => .bind (.refl _) fun t => ?_
      exact (readEntryAt_follows ih _ _).bind fun r =>
        (writeEntryAt_follows ih env _ _ _).bind fun t => writeEntryAt_follows ih env _ _ _

theorem readEntry_follows (i : U64) (s : Volume) :
    Follows .noBlock (readEntry env.strict i s) (readEntry env i s) :=
  readEntryAt_follows (getEntryBlockWithin_follows kernel _) i s

theorem writeEntry_follows (i : U64) (e : Entry) (s : Volume) :
    Follows .noBlock (writeEntry env.strict i e s) (writeEntry env i e s) :=
  writeEntryAt_follows (getEntryBlockWithin_follows kernel _) env i e s

theorem findFreeEntry_follows (s : Volume) :
    Follows .noBlock (findFreeEntry env.strict s) (findFreeEntry env s) := by
  have loop (n : Nat) (i : U64) (s : Volume) (e : Entry) :
      Follows .noBlock (findFreeEntryFrom env.strict n i s e) (findFreeEntryFrom env n i s e) := by
    induction n generalizing i s e with
    | zero => exact .refl _
    | succ n ih =>
      rw [findFreeEntryFrom, findFreeEntryFrom]
      split_ifs
      · exact (readEntry_follows kernel i s).bind fun r => ih _ _ _
      · exact .refl _
  exact loop _ _ _ _

theorem registerSibling_follows (parent : Entry) (f : U64) (s : Volume) :
    Follows .noBlock (registerSibling env.strict parent f s) (registerSibling env parent f s) := by
  have loop (n : Nat) (s : Volume) (e : Entry) :
      Follows .noBlock (lastSiblingFrom env.strict n s e) (lastSiblingFrom env n s e) := by
    induction n generalizing s e with
    | zero => exact .refl _
    | succ n ih =>
      rw [lastSiblingFrom, lastSiblingFrom]
      split_ifs
      · exact .refl _
      · exact (readEntry_follows kernel _ _).bind fun r => ih _ _
  rw [registerSibling, registerSibling]
  split_ifs
  · exact .refl _
  · exact (readEntry_follows kernel _ _).bind fun r => (loop _ _ _).bind fun r =>
      writeEntry_follows kernel _ _ _

theorem mkdir_follows (args : CreateArgs) (s : Volume) :
    Follows .noBlock (mkdir env.strict args s) (mkdir env args s) :=
  (findFreeEntry_follows kernel s).bind fun _ => (search_follows kernel _).bind fun _ =>
    .bind (.refl _) fun _ => (readEntry_follows kernel _ _).bind fun _ =>
      (readEntry_follows kernel _ _).bind fun _ => (registerSibling_follows kernel _ _ _).bind
        fun _ => .bind (.refl _) fun _ => (writeEntry_follows kernel _ _ _).bind fun _ =>
          (writeEntry_follows kernel _ _ _).bind fun _ => .refl _

theorem createFile_follows (args : CreateArgs) (size : U64) (s : Volume) :
    Follows .noBlock (createFile env.strict args size s) (createFile env args size s) :=
  (search_follows kernel s).bind fun _ => .bind (.refl _) fun _ =>
    (findFreeEntry_follows kernel _).bind fun _ => (mkdir_follows kernel args _).bind fun _ =>
      (readEntry_follows kernel _ _).bind fun _ => (writeEntry_follows kernel _ _ _).bind fun _ =>
        .refl _

theorem createProgram_follows (args : CreateArgs) (lba : U64) (s : Volume) :
    Follows .noBlock (createProgram env.strict args lba s) (createProgram env args lba s) :=
  (createFile_follows kernel args 9 s).bind fun _ => (readEntry_follows kernel _ _).bind fun _ =>
    writeEntry_follows kernel _ _ _

theorem writeFile_follows (buffer : Nat → U8) (i : U64) (s : Volume) :
    Follows .noBlock (writeFile env.strict buffer i s) (writeFile env buffer i s) := by
  refine (readEntry_follows kernel i s).bind fun r => ?_
  dsimp only
  split_ifs
  · exact .refl _
  · exact writeEntry_follows kernel _ _ _

theorem formatPartition_follows (bootMsg : Nat → U8) (s : Volume) :
    Follows .noBlock (formatPartition env.strict bootMsg s) (formatPartition env bootMsg s) :=
  .bind (.refl _) fun _ => (mkdir_follows kernel _ _).bind fun _ =>
    (mkdir_follows kernel _ _).bind fun _ => (mkdir_follows kernel _ _).bind fun _ =>
      (mkdir_follows kernel _ _).bind fun _ => (mkdir_follows kernel _ _).bind fun _ =>
        (createProgram_follows kernel _ _ _).bind fun _ =>
          (createProgram_follows kernel _ _ _).bind fun _ =>
            (createProgram_follows kernel _ _ _).bind fun _ =>
              (createFile_follows kernel _ _ _).bind fun _ => writeFile_follows kernel _ _ _

end ChudOS.GemFS
