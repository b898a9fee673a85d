import AlopexOS.Abtrfs.Create

/-!
# `Abtrfs.Volumes` — volumes from their contents

The disk that holds given files one after the other, and the file system object mounted on it. The disk
`format` leaves is the one without files.
-/

namespace AlopexOS

open Packed ByteString CString Prog

variable {path : Path} {files : List File}

/-! ## Contents -/

/-- The path that spells `s`. -/
def Path.ofBytes (s : List UInt8) : Path := chunk 2048 s 0

/-- A name as a path. -/
theorem str_ofBytes {s : List UInt8} (hs : 0 ∉ s) (hlen : s.length < 2048) : (Path.ofBytes s).str = s := by
  apply cstr_of_spelled hs hlen
  · intro k hk
    rw [Nat.zero_add, Bytes.get_of_lt (by omega)]
    show s.getD (0 * 2048 + k) 0 = _
    rw [Nat.zero_mul, Nat.zero_add, List.getD_eq_getElem _ _ hk]
  · rw [Nat.zero_add, Bytes.get_of_lt hlen]
    show s.getD (0 * 2048 + s.length) 0 = 0
    rw [Nat.zero_mul, Nat.zero_add, List.getD_eq_default _ _ (Nat.le_refl _)]

/-- The blocks of a file with content `x` when its header is at `a`. -/
def fileBlocks (a : Nat) (path : Path) (x : List UInt8) : List Block :=
  (fillHeader path none (UInt64.ofNat a) (UInt64.ofNat (blocksFor 4096 x.length))
    (UInt64.ofNat x.length)).bytes :: (created path x).payload

/-- The blocks of files with given contents, from `a` on. -/
def layBlocks : Nat → List (Path × List UInt8) → List Block
  | _, [] => []
  | a, (path, x) :: ps => fileBlocks a path x ++ layBlocks (a + (created path x).span) ps

/-- The files with given contents. -/
def layFiles (ps : List (Path × List UInt8)) : List File := ps.map fun p => created p.1 p.2

/-- `formatHeader` with so many blocks used. -/
def usedHeader (used : Nat) : PartitionHeader := formatHeader.setFree (UInt64.ofNat (204800 - used))

/-- The partition header of a volume with given contents. -/
def layHeader (ps : List (Path × List UInt8)) : PartitionHeader := usedHeader (1 + spanAll (layFiles ps))

/-- The disk with given contents. -/
def layDisk (ps : List (Path × List UInt8)) : Nat → Block :=
  fun b => ((layHeader ps).bytes :: layBlocks 1 ps).getD b Bytes.zero

/-- The object mounted on it. -/
def layFs (ps : List (Path × List UInt8)) : AbtrFS :=
  { attach AbtrFS.init 0 0 0 with partitionHeader := layHeader ps, isMounted := true }

/-! ## They are in order -/

@[simp] theorem totalBlocks_usedHeader (used : Nat) : (usedHeader used).totalBlocks = 204800 := by
  simp only [usedHeader, PartitionHeader.totalBlocks_setFree]
  simp [PartitionHeader.totalBlocks, formatHeader, PartitionHeader.get_set, partitionLayout]

@[simp] theorem magic_usedHeader (used : Nat) : (usedHeader used).magic = volumeMagic := by
  simp only [usedHeader, PartitionHeader.magic_setFree]
  simp [PartitionHeader.magic, formatHeader, PartitionHeader.get_set, partitionLayout, volumeMagic]

@[simp] theorem freeBlocksCount_usedHeader (used : Nat) :
    (usedHeader used).freeBlocksCount = UInt64.ofNat (204800 - used) := by
  simp only [usedHeader, PartitionHeader.freeBlocksCount_setFree]

theorem toNat_used_usedHeader {used : Nat} (h : used ≤ 204800) : (usedHeader used).used.toNat = used := by
  have hfree : (UInt64.ofNat (204800 - used)).toNat = 204800 - used := Word.toNat_ofNat (by omega)
  have htotal : (204800 : UInt64).toNat = 204800 := rfl
  rw [PartitionHeader.toNat_used] <;>
    rw [totalBlocks_usedHeader, freeBlocksCount_usedHeader, hfree, htotal] <;> omega

theorem Holds.append_iff {disk : Nat → Block} {a : Nat} {bs bs' : List Block} :
    Holds disk a (bs ++ bs') ↔ Holds disk a bs ∧ Holds disk (a + bs.length) bs' := by
  induction bs generalizing a with
  | nil => simp [Holds]
  | cons b bs ih =>
      simp only [List.cons_append, Holds, ih, List.length_cons, and_assoc]
      rw [show a + 1 + bs.length = a + (bs.length + 1) by omega]

@[simp] theorem length_fileBlocks (a : Nat) (path : Path) (x : List UInt8) :
    (fileBlocks a path x).length = (created path x).span := by
  simp only [fileBlocks, List.length_cons, File.span]
  omega

/-- A disk that holds the blocks of files is laid out as these files. -/
theorem laid_of_holds {disk : Nat → Block} {a : Nat} (ps : List (Path × List UInt8))
    (hlt : a + spanAll (layFiles ps) < 2 ^ 52)
    (h : Holds disk a (layBlocks a ps)) : Laid disk a (layFiles ps) (a + spanAll (layFiles ps)) := by
  induction ps generalizing a with
  | nil => rfl
  | cons p ps ih =>
      obtain ⟨path, x⟩ := p
      simp only [layFiles, List.map_cons, spanAll_cons] at hlt ⊢
      simp only [layBlocks, Holds.append_iff, length_fileBlocks] at h
      have hspan : (created path x).span = 1 + blocksFor 4096 x.length := by
        rw [File.span, length_payload_created]
      have hlen := le_blocksFor_mul (show 0 < 4096 by decide) x.length
      have hxn : (UInt64.ofNat x.length).toNat = x.length := Word.toNat_ofNat (by omega)
      have han : (UInt64.ofNat a).toNat = a := Word.toNat_ofNat (by omega)
      have hbn : (UInt64.ofNat (blocksFor 4096 x.length)).toNat = blocksFor 4096 x.length :=
        Word.toNat_ofNat (by omega)
      refine ⟨?_, h.1.2, ?_⟩
      · have hh : IsHeader _ (created path x) (UInt64.ofNat a).toNat :=
          isHeader_fillHeader path hxn.symm (by rw [hbn, hxn]) (by rw [han]; omega)
        rw [han] at hh
        rw [h.1.1]
        exact hh
      · rw [← Nat.add_assoc] at hlt ⊢
        exact ih hlt h.2

/-- **The volume with given contents is in order**, when it is small enough for the header `format`
    writes. -/
theorem volume_layDisk {ps : List (Path × List UInt8)} (hfit : 1 + spanAll (layFiles ps) ≤ 204800) :
    Volume (layFs ps) (layDisk ps) (layFiles ps) := by
  have hfree : (UInt64.ofNat (204800 - (1 + spanAll (layFiles ps)))).toNat
      = 204800 - (1 + spanAll (layFiles ps)) := Word.toNat_ofNat (by omega)
  have htotal : (204800 : UInt64).toNat = 204800 := rfl
  refine ⟨rfl, show (0 : UInt64) ≠ invalidHandle by decide, ?_, ?_⟩
  · show (layHeader ps).freeBlocksCount.toNat ≤ (layHeader ps).totalBlocks.toNat
    rw [layHeader, totalBlocks_usedHeader, freeBlocksCount_usedHeader, hfree, htotal]
    omega
  · show Laid _ 1 _ (layHeader ps).used.toNat
    rw [layHeader, toNat_used_usedHeader hfit]
    apply laid_of_holds ps (by omega)
    rw [holds_iff]
    intro i hi
    show ((layHeader ps).bytes :: layBlocks 1 ps).getD (1 + i) Bytes.zero = _
    rw [Nat.add_comm 1 i, List.getD_cons_succ, List.getD_eq_getElem _ _ hi]

theorem wellLaidOut_layDisk {ps : List (Path × List UInt8)} (hpos : ∀ p ∈ ps, 0 < p.2.length)
    (hfit : 1 + spanAll (layFiles ps) ≤ 204800)
    (hdist : (layFiles ps).Pairwise fun f g => f.name ≠ g.name) :
    WellLaidOut (layFs ps) (layDisk ps) (layFiles ps) := by
  refine ⟨volume_layDisk hfit, ?_, hdist⟩
  intro f hf
  obtain ⟨p, hp, rfl⟩ := List.mem_map.mp hf
  exact created_ok p.1 (hpos p hp)

end AlopexOS
