import AlopexOS.Abtrfs.FailedWrites

/-!
# `Abtrfs.WriteBounds` — sums and indices of `writeFile`

`write_file` adds an offset and a size from its caller, a length from a header on the disk, and one block
less a byte, all in 64-bit words and all unchecked. From the sums it takes the size of an array that three
loops then index. This is about any disk, so about any header the walk may come to.

## Contents
- **The sums** as natural numbers.
- **The indices** of the copy loops.
- **When nothing wraps** and no index is outside.
-/

namespace AlopexOS

open Packed ByteString Prog

variable {c : Conditions} {fs : AbtrFS} {path : Path} {data : List UInt8} {off : UInt64} {m : Machine}
  {found : Option AbtrFSDiskHeader}

/-! ## The sums -/

/-- The length that a header stands for: whole blocks but the last. -/
def storedLength : Option AbtrFSDiskHeader → Nat
  | none => 0
  | some h => if h.sectionCount = 0 then 0 else (h.sectionCount.toNat - 1) * 4096 + h.size.toNat

/-- The length as the source computes it. -/
theorem foundLength_eq (found : Option AbtrFSDiskHeader) :
    foundLength found = storedLength found % 2 ^ 64 := by
  cases found with
  | none => rfl
  | some h =>
      simp only [foundLength, storedLength, AbtrFSDiskHeader.totalSize]
      by_cases h0 : h.sectionCount = 0
      · rw [if_pos h0, h0]
        rfl
      · have hpos : 0 < h.sectionCount.toNat := Word.ne_zero_iff.mp h0
        have hlt : (0 : UInt64) < h.sectionCount := by
          rw [UInt64.lt_iff_toNat_lt]
          exact hpos
        have hone : (h.sectionCount - 1).toNat = h.sectionCount.toNat - 1 :=
          Word.toNat_sub_of_le (show 1 ≤ h.sectionCount.toNat from hpos)
        rw [if_pos hlt, if_neg h0, UInt64.toNat_add, UInt64.toNat_mul, hone, UInt16.toNat_toUInt64]
        show ((h.sectionCount.toNat - 1) * 4096 % 2 ^ 64 + h.size.toNat) % 2 ^ 64 = _
        rw [Nat.mod_add_mod]

/-- `final_size` as the source computes it. -/
theorem toNat_finalSize_mod (found : Option AbtrFSDiskHeader) (data : List UInt8) (off : UInt64) :
    (finalSize found data off).toNat
      = max (storedLength found % 2 ^ 64) ((off.toNat + data.length) % 2 ^ 64) := by
  have hend : (off + UInt64.ofNat data.length).toNat = (off.toNat + data.length) % 2 ^ 64 := by
    rw [UInt64.toNat_add]
    show (off.toNat + data.length % 2 ^ 64) % 2 ^ 64 = _
    rw [Nat.add_mod_mod]
  have hlen := foundLength_eq found
  cases found with
  | none =>
      have hzero : (0 : UInt64).toNat = 0 := rfl
      have hnone : storedLength none = 0 := rfl
      simp only [finalSize, UInt64.lt_iff_toNat_lt, hend, hzero, hnone]
      split <;> omega
  | some h =>
      simp only [foundLength] at hlen
      simp only [finalSize, UInt64.lt_iff_toNat_lt, hend, hlen]
      split <;> omega

/-- None of the three sums reaches 2^64. -/
structure SumsFit (found : Option AbtrFSDiskHeader) (data : List UInt8) (off : UInt64) : Prop where
  targetEnd : off.toNat + data.length < 2 ^ 64
  total : storedLength found < 2 ^ 64
  blocks : (finalSize found data off).toNat + 4095 < 2 ^ 64

/-! ## The indices -/

/-- Where the old bytes go in `expanded_data`. -/
def oldIndices (final : UInt64) (old : List UInt8) : List Nat :=
  (List.range old.length).takeWhile (· < final.toNat)

/-- Where the new ones go. -/
def dataIndices (data : List UInt8) (off : UInt64) : List Nat :=
  (List.range data.length).map fun i => (off + UInt64.ofNat i).toNat

/-- Where the blocks are filled from. -/
def blockIndices (final : UInt64) : List Nat :=
  (List.range (requiredBlocks final).toNat).flatMap fun b =>
    ((List.range 4096).map fun k => (UInt64.ofNat b * 4096 + UInt64.ofNat k).toNat).takeWhile
      (· < final.toNat)

/-- Every index that the copy loops use is inside the array, whatever the old bytes are. -/
def IndicesInside (found : Option AbtrFSDiskHeader) (data : List UInt8) (off : UInt64) : Prop :=
  ∀ old : List UInt8, ∀ i ∈ oldIndices (finalSize found data off) old ++ dataIndices data off
    ++ blockIndices (finalSize found data off), i < (finalSize found data off).toNat

/-- The first and the third loop check every index. -/
theorem lt_of_mem_oldIndices {final : UInt64} {old : List UInt8} {i : Nat} (h : i ∈ oldIndices final old) :
    i < final.toNat := by
  have := List.all_eq_true.mp List.all_takeWhile i h
  simpa using this

theorem lt_of_mem_blockIndices {final : UInt64} {i : Nat} (h : i ∈ blockIndices final) : i < final.toNat := by
  obtain ⟨b, _, hb⟩ := List.mem_flatMap.mp h
  have := List.all_eq_true.mp List.all_takeWhile i hb
  simpa using this

/-- **The second loop stays inside exactly when `expandedData` is there.** -/
theorem expandedData_isSome_iff {final : UInt64} {old : List UInt8} :
    (expandedData final old data off).isSome = true ↔ ∀ i ∈ dataIndices data off, i < final.toNat := by
  have hput : ∀ (data : List UInt8) (k : Nat) (buf : List UInt8), (putBytes off k data buf).isSome = true ↔
      ∀ i < data.length, (off + UInt64.ofNat (k + i)).toNat < buf.length := by
    intro data
    induction data with
    | nil => simp [putBytes]
    | cons x data ih =>
        intro k buf
        rw [putBytes]
        by_cases hlt : (off + UInt64.ofNat k).toNat < buf.length
        · rw [if_pos hlt, ih, List.length_set, List.length_cons]
          constructor
          · intro h i hi
            cases i with
            | zero => exact hlt
            | succ i =>
                have := h i (Nat.lt_of_succ_lt_succ hi)
                rwa [show k + 1 + i = k + (i + 1) by omega] at this
          · intro h i hi
            have := h (i + 1) (Nat.succ_lt_succ hi)
            rwa [show k + (i + 1) = k + 1 + i by omega] at this
        · rw [if_neg hlt]
          exact iff_of_false (by simp) fun h => hlt (h 0 (by simp))
  unfold expandedData dataIndices
  rw [hput, Dynarr.length_resized]
  simp

/-! ## When nothing wraps -/

/-- The call has nothing to write, as far as its sums can tell. -/
def NothingToWrite (found : Option AbtrFSDiskHeader) (data : List UInt8) (off : UInt64) : Prop :=
  storedLength found % 2 ^ 64 = 0 ∧ (off.toNat + data.length) % 2 ^ 64 = 0

/-- The end of the write and the length of the file stay a block below 2^64. -/
def Bounded (found : Option AbtrFSDiskHeader) (data : List UInt8) (off : UInt64) : Prop :=
  off.toNat + data.length + 4096 ≤ 2 ^ 64 ∧ storedLength found + 4096 ≤ 2 ^ 64

theorem finalSize_eq_zero_iff :
    finalSize found data off = 0 ↔ NothingToWrite found data off := by
  have hfinal := toNat_finalSize_mod found data off
  unfold NothingToWrite
  rw [← UInt64.toNat_inj, hfinal, UInt64.toNat_zero]
  omega

theorem Bounded.sumsFit (h : Bounded found data off) : SumsFit found data off := by
  obtain ⟨hend, htotal⟩ := h
  have hfinal := toNat_finalSize_mod found data off
  rw [Nat.mod_eq_of_lt (show storedLength found < 2 ^ 64 by omega),
    Nat.mod_eq_of_lt (show off.toNat + data.length < 2 ^ 64 by omega)] at hfinal
  exact ⟨by omega, by omega, by omega⟩

theorem SumsFit.bounded (h : SumsFit found data off) : Bounded found data off := by
  have hfinal := toNat_finalSize_mod found data off
  rw [Nat.mod_eq_of_lt h.total, Nat.mod_eq_of_lt h.targetEnd] at hfinal
  have hblocks := h.blocks
  unfold Bounded
  omega

theorem SumsFit.indicesInside (h : SumsFit found data off) : IndicesInside found data off := by
  intro old i hi
  rcases List.mem_append.mp hi with hi | hi
  · rcases List.mem_append.mp hi with hi | hi
    · exact lt_of_mem_oldIndices hi
    · have hsome : (expandedData (finalSize found data off) old data off).isSome = true :=
        Option.isSome_iff_ne_none.mpr (expandedData_ne_none h.targetEnd old)
      exact expandedData_isSome_iff.mp hsome i hi
  · exact lt_of_mem_blockIndices hi

/-- **When a call keeps its sums and its indices in bounds**, whatever header the walk came to. -/
theorem writeFile_inBounds_iff {r : Nat} (hm : fs.isMounted = true) (hpath : chopPath path ≠ [])
    (hfound : lookUp c.readOk fs m.disk path c.walkBound m.reads = some (found, r)) :
    ((finalSize found data off ≠ 0 → SumsFit found data off ∧ IndicesInside found data off)
      ∧ ∀ m', (writeFile (honest c) fs path data off).run m ≠ (.error .wild, m'))
    ↔ NothingToWrite found data off ∨ Bounded found data off := by
  constructor
  · rintro ⟨hsafe, _⟩
    by_cases h0 : finalSize found data off = 0
    · exact Or.inl (finalSize_eq_zero_iff.mp h0)
    · exact Or.inr (hsafe h0).1.bounded
  · intro hcond
    refine ⟨fun h0 => ?_, fun m' hrun => ?_⟩
    · have hbounded := hcond.resolve_left fun hr => h0 (finalSize_eq_zero_iff.mpr hr)
      exact ⟨hbounded.sumsFit, hbounded.sumsFit.indicesInside⟩
    · -- a call that leaves its array has a write whose end wraps
      obtain ⟨found', r', hfound', hout⟩ := (runs_writeFile_any (c := c) hm hpath).caught_stopped hrun
      rw [hfound] at hfound'
      obtain ⟨rfl, rfl⟩ := Prod.mk.inj (Option.some.inj hfound')
      cases hout with
      | wild h0 hlen =>
          have hbounded := hcond.resolve_left fun hr => h0 (finalSize_eq_zero_iff.mpr hr)
          have := hbounded.1
          omega

/-- What the walk answers for a path that no file carries. -/
theorem lookUp_absent {files : List File} (hvol : Volume fs m.disk files)
    (hno : ∀ f ∈ files, ¬ f.Named path) (hread : ∀ k, c.readOk k = true) (hbound : files.length < c.walkBound) :
    lookUp c.readOk fs m.disk path c.walkBound m.reads = some (none, m.reads + files.length) := by
  have hends := scan_laid c.readOk path 1 m.reads hvol.laid rfl (Nat.le_refl _) (Or.inl rfl) hbound
  rw [lookUp, if_neg hvol.handle]
  generalize scan c.readOk m.disk path fs.partitionHeader.used c.walkBound 1 m.reads = res at hends
  cases hends with
  | absent _ _ => rfl
  | found pre post f hf _ hnamed _ => exact absurd hnamed (hno f (by rw [hf]; simp))
  | failed _ _ _ _ _ _ hbad =>
      rw [hread] at hbad
      cases hbad

/-- It is about calls there are: a write of one byte under a new path. -/
theorem writeFile_inBounds_a :
    (finalSize none [1] 0 ≠ 0 → SumsFit none [1] 0 ∧ IndicesInside none [1] 0)
    ∧ ∀ m', (writeFile (honest workingMachine) (layFs [(pathB, [7])]) pathA [1] 0).run
        (Machine.start (layDisk [(pathB, [7])])) ≠ (.error .wild, m') := by
  have hno : ∀ f ∈ layFiles [(pathB, [7])], ¬ f.Named pathA := by
    intro f hf hm
    have := hm.1
    rw [name_b f hf, str_pathA] at this
    revert this
    decide
  have hfound := lookUp_absent (c := workingMachine) (m := Machine.start (layDisk [(pathB, [7])]))
    wellLaidOut_b.toVolume hno (fun _ => rfl) (by decide)
  have hbounded : Bounded none [1] 0 := ⟨by decide, by decide⟩
  exact (writeFile_inBounds_iff wellLaidOut_b.mounted (chopPath_ne_nil (by rw [str_pathA]; decide))
    hfound).mpr (Or.inr hbounded)

/-- **The end of a write may wrap.** Two bytes at the last offset of all, over a file of one byte: the sum
    of offset and size is 1, the array gets one byte, and the first byte of the data goes far outside. -/
theorem writeFile_outOfBounds :
    WellLaidOut (layFs [(pathB, [7])]) (layDisk [(pathB, [7])]) (layFiles [(pathB, [7])])
    ∧ ((writeFile (honest workingMachine) (layFs [(pathB, [7])]) pathB [1, 2] 0xFFFFFFFFFFFFFFFF).run
        (Machine.start (layDisk [(pathB, [7])]))).1 = .error .wild
    ∧ ∀ found, ¬ SumsFit found [1, 2] 0xFFFFFFFFFFFFFFFF := by
  refine ⟨wellLaidOut_b, eq_error_of_stopped (by decide +kernel), fun found h => ?_⟩
  have := h.targetEnd
  revert this
  decide

end AlopexOS
