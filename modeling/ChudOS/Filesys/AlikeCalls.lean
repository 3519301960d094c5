import ChudOS.Filesys.Alike

/-!
# Calls on volumes with the same entries

Every call of the file system returns the same index on both volumes, or stops on both for the same
reason.
-/

namespace ChudOS.GemFS

open Volume Outcome Coupling

variable [SectorAccess]

/-- What two calls return on volumes that stay alike. -/
structure Returned (env : Env) {α : Type} (x : Shared) (r r' : Volume × α) : Prop where
  alike : Alike env x r.1 r'.1
  same : r'.2 = r.2

variable {env : Env} {x y : Shared} {s t : Volume} {b i f : U64} {n : Nat} {e : Entry}
  {args : CreateArgs}

section Calls

variable (chance : ∀ s t, env.rawEntry s = env.rawEntry t)
include chance

theorem readEntry_coupled (h : Alike env x s t) :
    Coupled x (Read env i) (readEntry env i s) (readEntry env i t) :=
  readEntryAt_coupled (getEntryBlockWithin_coupled chance h)

theorem writeEntry_coupled (h : Alike env x s t) (sound : Sound x e) (rooted : i = 0 → Rooted x e) :
    Coupled x (Alike env) (writeEntry env i e s) (writeEntry env i e t) :=
  writeEntryAt_coupled (getEntryBlockWithin_coupled chance h) sound rooted

omit chance in
theorem mark_coupled (h : Alike env x s t) (b : U64) :
    Coupled x (Alike env) (fbbSetBlock s b) (fbbSetBlock t b) := by
  rw [fbbSetBlock_of_plain h.plain, fbbSetBlock_of_plain h.plain']
  exact .return (h.mark b)

omit chance in
theorem setRange_coupled (h : Alike env x s t) (size first : U64) :
    Coupled x (Alike env) (setRange size first s) (setRange size first t) :=
  Coupled.foldlM (fun _ _ _ _ _ alike => mark_coupled alike _) h

/-- The search for an entry finds the main entry only where no block is free. -/
theorem findFreeEntryFrom_coupled (h : Alike env x s t) (pos : i ≠ 0)
    (short : i.toNat + n < 2 ^ 64) (used : i ≠ 1 ∨ x.full ∨ e.inUse = true) :
    Coupled x (fun y r r' => Returned env y r r' ∧ (y.full ∨ r.2 ≠ 0))
      (findFreeEntryFrom env n i s e) (findFreeEntryFrom env n i t e) := by
  induction n generalizing x s t i e with
  | zero => exact coupled_error
  | succ n ih =>
    rw [findFreeEntryFrom, findFreeEntryFrom]
    split_ifs with inUse
    · refine (readEntry_coupled chance h).bind fun y r r' _ read => ?_
      obtain ⟨s₁, e₁⟩ := r
      obtain ⟨t₁, e'⟩ := r'
      obtain ⟨alike, same, -, -⟩ := read
      obtain rfl : e' = e₁ := same
      have next : (i + 1).toNat = i.toNat + 1 := by
        rw [BitVec.toNat_add_of_lt (by change i.toNat + 1 < _; omega)]
        rfl
      refine ih alike (fun zero => ?_) (by omega) (.inl fun one => pos ?_)
      · rw [zero] at next
        exact absurd next (Nat.succ_ne_zero _).symm
      · rw [one] at next
        exact BitVec.eq_of_toNat_eq (Nat.succ.inj next.symm)
    · refine .return ⟨⟨h, rfl⟩, ?_⟩
      obtain other | full | inUse' := used
      · exact .inr fun zero => other (by grind)
      · exact .inl full
      · exact absurd inUse' inUse

variable (bound : env.fuel + 1 < 2 ^ 64)

include bound in
theorem findFreeEntry_coupled (h : Alike env x s t) :
    Coupled x (fun y r r' => Returned env y r r' ∧ (y.full ∨ r.2 ≠ 0)) (findFreeEntry env s)
      (findFreeEntry env t) := by
  rw [findFreeEntry, findFreeEntry, h.main]
  refine findFreeEntryFrom_coupled chance h (by decide) (by change 1 + env.fuel < _; omega) (.inr ?_)
  exact h.root.live.imp_right And.right

theorem lastSiblingFrom_coupled (h : Alike env x s t) (sound : Sound x e) :
    Coupled x (fun y r r' => Returned env y r r' ∧ Sound y r.2) (lastSiblingFrom env n s e)
      (lastSiblingFrom env n t e) := by
  induction n generalizing x s t e with
  | zero => exact coupled_error
  | succ n ih =>
    rw [lastSiblingFrom, lastSiblingFrom]
    split_ifs
    · exact .return ⟨⟨h, rfl⟩, sound⟩
    · refine (readEntry_coupled chance h).bind fun y r r' _ read => ?_
      obtain ⟨s₁, e₁⟩ := r
      obtain ⟨t₁, e'⟩ := r'
      obtain ⟨alike, same, sound, -⟩ := read
      obtain rfl : e' = e₁ := same
      exact ih alike sound

theorem registerSibling_coupled (h : Alike env x s t) (parent : Entry) :
    Coupled x (Alike env) (registerSibling env parent f s) (registerSibling env parent f t) := by
  rw [registerSibling, registerSibling]
  split_ifs
  · exact .return h
  · refine (readEntry_coupled chance h).bind fun y r r' _ read => ?_
    obtain ⟨s₁, e₁⟩ := r
    obtain ⟨t₁, e'⟩ := r'
    obtain ⟨alike, same, sound, -⟩ := read
    obtain rfl : e' = e₁ := same
    refine (lastSiblingFrom_coupled chance alike sound).bind fun z r r' _ last => ?_
    obtain ⟨s₂, e₂⟩ := r
    obtain ⟨t₂, e'⟩ := r'
    obtain ⟨⟨alike, same⟩, sound⟩ := last
    obtain rfl : e' = e₂ := same
    exact writeEntry_coupled chance alike ⟨sound.links, sound.live⟩ fun zero =>
      ⟨sound.links, (sound.rooted zero).live⟩

include bound

theorem mkdir_coupled (h : Alike env x s t) :
    Coupled x (Returned env) (mkdir env args s) (mkdir env args t) := by
  refine (findFreeEntry_coupled chance bound h).bind fun x r r' _ found => ?_
  obtain ⟨s, free⟩ := r
  obtain ⟨t, f⟩ := r'
  obtain ⟨⟨h, same⟩, live⟩ := found
  obtain rfl : f = free := same
  dsimp only
  rw [h.search_eq]
  refine .same _ fun b => (mark_coupled h b).bind fun y s t le h => ?_
  have live := live.imp_left le.2
  refine (readEntry_coupled chance h).bind fun z r r' le read => ?_
  obtain ⟨s, _⟩ := r
  obtain ⟨t, _⟩ := r'
  obtain ⟨h, -, -, -⟩ := read
  have live := live.imp_left le.2
  refine (readEntry_coupled chance h).bind fun z r r' le read => ?_
  obtain ⟨s, parent⟩ := r
  obtain ⟨t, parent'⟩ := r'
  obtain ⟨h, same, sound, rooted⟩ := read
  obtain rfl : parent' = parent := same
  have live := live.imp_left le.2
  refine (registerSibling_coupled chance h parent').bind fun z s t le h => ?_
  have live := live.imp_left le.2
  have sound := sound.mono le
  have rooted (zero : args.parentIndex = 0) := (rooted zero).mono le
  by_cases fits : args.nameLen.toNat ≤ 128
  · rw [copyName, if_pos fits, ok_bind, ok_bind]
    refine (writeEntry_coupled chance h ⟨.inl rfl, live.imp_right fun nz zero => absurd zero nz⟩
      fun zero => ⟨.inl rfl, .inl (live.resolve_right (absurd zero))⟩).bind fun z s t le h => ?_
    have sound := sound.mono le
    have rooted (zero : args.parentIndex = 0) := (rooted zero).mono le
    dsimp only
    refine (writeEntry_coupled chance h ?_ fun zero => ?_).bind fun z s t _ h => .return ⟨h, rfl⟩
    · split_ifs
      · exact ⟨sound.links, sound.live⟩
      · exact sound
    · split_ifs
      · exact ⟨(rooted zero).links, (rooted zero).live⟩
      · exact rooted zero
  · rw [copyName, if_neg fits]
    exact coupled_error

theorem createFile_coupled (h : Alike env x s t) (size : U64) :
    Coupled x (fun y r r' => Returned env y r r' ∧ (y.full ∨ r.2 ≠ 0)) (createFile env args size s)
      (createFile env args size t) := by
  rw [createFile, createFile, h.search_eq]
  refine .same _ fun first => (setRange_coupled h size first).bind fun x s t _ h => ?_
  refine (findFreeEntry_coupled chance bound h).bind fun x r r' _ found => ?_
  obtain ⟨s, free⟩ := r
  obtain ⟨t, f⟩ := r'
  obtain ⟨⟨h, same⟩, live⟩ := found
  obtain rfl : f = free := same
  refine (mkdir_coupled chance bound h).bind fun y r r' le made => ?_
  obtain ⟨s, _⟩ := r
  obtain ⟨t, _⟩ := r'
  obtain ⟨h, -⟩ := made
  have live := live.imp_left le.2
  refine (readEntry_coupled chance h).bind fun z r r' le read => ?_
  obtain ⟨s, e⟩ := r
  obtain ⟨t, e'⟩ := r'
  obtain ⟨h, same, sound, rooted⟩ := read
  obtain rfl : e' = e := same
  have live := live.imp_left le.2
  have sound : Sound z { e' with start := first, size := size } := ⟨sound.links, sound.live⟩
  refine (writeEntry_coupled chance h sound fun zero =>
    ⟨sound.links, (rooted zero).live⟩).bind fun w s t le h => ?_
  exact .return ⟨⟨h, rfl⟩, live.imp_left le.2⟩

theorem createProgram_coupled (h : Alike env x s t) (lba : U64) :
    Coupled x (Alike env) (createProgram env args lba s) (createProgram env args lba t) := by
  refine (createFile_coupled chance bound h 9).bind fun y r r' _ made => ?_
  obtain ⟨s, index⟩ := r
  obtain ⟨t, index'⟩ := r'
  obtain ⟨⟨h, same⟩, -⟩ := made
  obtain rfl : index' = index := same
  refine (readEntry_coupled chance h).bind fun z r r' _ read => ?_
  obtain ⟨s, e⟩ := r
  obtain ⟨t, e'⟩ := r'
  obtain ⟨h, same, sound, rooted⟩ := read
  obtain rfl : e' = e := same
  have block : lbaToBlock t lba = lbaToBlock s lba := by
    rw [lbaToBlock, lbaToBlock, blockSize_of_plain h.plain, blockSize_of_plain h.plain', h.lbaStart]
  dsimp only
  rw [block]
  exact writeEntry_coupled chance h ⟨sound.links, sound.live⟩ fun zero =>
    ⟨(rooted zero).links, (rooted zero).live⟩

/-! ## Lookup -/

omit bound in
theorem namedSiblingFrom_coupled (h : Alike env x s t) (name : Fin 128 → U8) :
    Coupled x (Returned env) (namedSiblingFrom env name n s e) (namedSiblingFrom env name n t e) := by
  induction n generalizing x s t e with
  | zero => exact coupled_error
  | succ n ih =>
    rw [namedSiblingFrom, namedSiblingFrom]
    refine .same _ fun equal => ?_
    split_ifs
    · refine (readEntry_coupled chance h).bind fun y r r' _ read => ?_
      obtain ⟨s₁, e₁⟩ := r
      obtain ⟨t₁, e'⟩ := r'
      obtain ⟨alike, same, -, -⟩ := read
      obtain rfl : e' = e₁ := same
      exact ih alike
    · exact .return ⟨h, rfl⟩

omit bound in
theorem findIndexByName_coupled (h : Alike env x s t) (name : Fin 128 → U8) :
    Coupled x (Returned env) (findIndexByName env name i s) (findIndexByName env name i t) := by
  refine (readEntry_coupled chance h).bind fun y r r' _ read => ?_
  obtain ⟨s, parent⟩ := r
  obtain ⟨t, parent'⟩ := r'
  obtain ⟨h, same, -, -⟩ := read
  obtain rfl : parent' = parent := same
  dsimp only
  split_ifs
  · exact .return ⟨h, rfl⟩
  · refine (readEntry_coupled chance h).bind fun y r r' _ read => ?_
    obtain ⟨s, e⟩ := r
    obtain ⟨t, e'⟩ := r'
    obtain ⟨h, same, -, -⟩ := read
    obtain rfl : e' = e := same
    refine (namedSiblingFrom_coupled chance h name).bind fun z r r' _ last => ?_
    obtain ⟨s, e⟩ := r
    obtain ⟨t, e'⟩ := r'
    obtain ⟨h, same⟩ := last
    obtain rfl : e' = e := same
    exact .same _ fun equal => .return ⟨h, rfl⟩

omit bound in
theorem directoryToIndex_coupled (h : Alike env x s t) (scan : Fin 128 → U8)
    (directory : Nat → U8) :
    Coupled x (Returned env) (directoryToIndex env scan directory s)
      (directoryToIndex env scan directory t) := by
  have loop (n k lastI : Nat) (curIndex : U32) (scan : Fin 128 → U8) {x : Shared} {s t : Volume}
      (h : Alike env x s t) :
      Coupled x (Returned env) (directoryToIndexFrom env directory n k lastI curIndex scan s)
        (directoryToIndexFrom env directory n k lastI curIndex scan t) := by
    induction n generalizing x s t k lastI curIndex scan with
    | zero => exact coupled_error
    | succ n ih =>
      rw [directoryToIndexFrom, directoryToIndexFrom]
      by_cases ends : directory k = 0x2F ∨ directory k = 0
      · rw [if_pos ends, if_pos ends]
        refine (findIndexByName_coupled chance h scan).bind fun y r r' _ found => ?_
        obtain ⟨s, index⟩ := r
        obtain ⟨t, index'⟩ := r'
        obtain ⟨h, same⟩ := found
        obtain rfl : index' = index := same
        dsimp only
        split_ifs
        · exact .return ⟨h, rfl⟩
        · exact .return ⟨h, rfl⟩
        · exact ih _ _ _ _ h
      · rw [if_neg ends, if_neg ends]
        split_ifs
        · exact ih _ _ _ _ h
        · exact coupled_error
  exact loop _ _ _ _ _ h

/-! ## Sequences of calls -/

theorem run_coupled (h : Alike env x s t) (call : Call) :
    Coupled x (Returned env) (call.run env s) (call.run env t) := by
  cases call with
  | mkdir args => exact mkdir_coupled chance bound h
  | createFile args size =>
    exact (createFile_coupled chance bound h size).imp fun _ _ _ _ made => made.1
  | lookup scan directory => exact directoryToIndex_coupled chance h scan directory

theorem runCalls_coupled (h : Alike env x s t) (calls : List Call) :
    Coupled x (Returned env) (runCalls env calls s) (runCalls env calls t) := by
  induction calls generalizing x s t with
  | nil => exact .return ⟨h, rfl⟩
  | cons call calls ih =>
    refine (run_coupled chance bound h call).bind fun y r r' _ done => ?_
    obtain ⟨s, index⟩ := r
    obtain ⟨t, index'⟩ := r'
    obtain ⟨h, same⟩ := done
    obtain rfl : index' = index := same
    refine (ih h).bind fun z r r' _ done => ?_
    obtain ⟨s, results⟩ := r
    obtain ⟨t, results'⟩ := r'
    obtain ⟨h, same⟩ := done
    obtain rfl : results' = results := same
    exact .return ⟨h, rfl⟩

end Calls

end ChudOS.GemFS
