import AlopexOS.Abtrfs.Walk
import AlopexOS.Abtrfs.Windows
import AlopexOS.Abtrfs.WriteBounds

/-!
# `Abtrfs.Provenance` — where the bytes of a read come from

How long a file is and where its payload lies is written in its header, and `read_file` takes it from
there as it stands. The array it returns is sized from `section_count` and `size`, the copying loop is
stopped by `section_count` alone. When the two disagree, the end of the array was never read from
anywhere. And `payload_offset` may be so large that the address of a block in sectors wraps.

## Contents
- **The device**, addressed in sectors.
- **The copying loop** on a disk with anything on it: which bytes it copies and from which blocks.
- **The call**: what it returns, and the reads it made after the walk.
- **When every byte came from the payload.**
-/

namespace AlopexOS

open Packed ByteString Prog

variable {disk : Nat → Block} {bound : Nat} {fs : AbtrFS} {path : Path} {trace : List UInt64}

/-! ## The device -/

/-- `req.lba`: where a block begins in sectors of 512 bytes. -/
def sectorOf (blockAddress : UInt64) : UInt64 := blockAddress * 8

/-- A device that answers every read with the eight sectors at the address it is sent; `disk` has its sectors by
    eights. The state lists the addresses. -/
def onSectors (disk : Nat → Block) (bound : Nat) : Platform (List UInt64) where
  operatorNew _ := pure ()
  submitRead _ b := ⟨fun trace => (.ok (true, disk ((sectorOf b).toNat / 8)), trace ++ [sectorOf b])⟩
  submitWrite _ _ _ := pure true
  walkBound := bound

/-- A block whose address in sectors does not wrap. -/
theorem toNat_sectorOf {b : UInt64} (h : b.toNat < 2 ^ 61) : (sectorOf b).toNat = 8 * b.toNat := by
  have h8 : (8 : UInt64).toNat = 8 := rfl
  rw [sectorOf, UInt64.toNat_mul, h8]
  omega

/-- What the address in sectors keeps of a block address. -/
theorem mod_of_sectorOf {b : UInt64} {n : Nat} (h : (sectorOf b).toNat = 8 * n) : b.toNat % 2 ^ 61 = n := by
  have hb := b.toNat_lt
  have h8 : (8 : UInt64).toNat = 8 := rfl
  rw [sectorOf, UInt64.toNat_mul, h8] at h
  omega

/-! ## The copying loop -/

/-- What the loop copies from block `b` on of a payload at `po`, and the sectors it reads. -/
structure Copied (disk : Nat → Block) (po count b : UInt64) (shift remaining : Nat) (bytes : List UInt8)
    (reads : List UInt64) : Prop where
  length : bytes.length = min remaining ((count.toNat - b.toNat) * 4096 - shift)
  byte : ∀ (i : Nat) (hi : i < bytes.length),
    sectorOf (po + b + UInt64.ofNat ((shift + i) / 4096)) ∈ reads
      ∧ bytes[i] = (disk ((sectorOf (po + b + UInt64.ofNat ((shift + i) / 4096))).toNat / 8)).get
          ((shift + i) % 4096)
  block : ∀ r ∈ reads, ∃ j, b.toNat + j < count.toNat ∧ r = sectorOf (po + b + UInt64.ofNat j)

theorem copied_nil {po count b : UInt64} {shift remaining : Nat} (h : ¬ (b < count ∧ 0 < remaining)) :
    Copied disk po count b shift remaining [] [] := by
  refine ⟨?_, fun i hi => absurd hi (by simp), by simp⟩
  rw [UInt64.lt_iff_toNat_lt, not_and_or] at h
  rw [List.length_nil]
  rcases h with h | h
  · rw [show count.toNat - b.toNat = 0 by omega]
    omega
  · omega

/-- One block more in front. -/
theorem Copied.cons {po count b : UInt64} {shift remaining : Nat} {bytes : List UInt8} {reads : List UInt64}
    (hlt : b < count) (hshift : shift < 4096) (hpos : 0 < remaining)
    (h : Copied disk po count (b + 1) 0
      (remaining - min remaining (4096 - shift)) bytes reads) :
    Copied disk po count b shift remaining
      (((disk ((sectorOf (po + b)).toNat / 8)).toList.drop shift).take remaining ++ bytes)
      (sectorOf (po + b) :: reads) := by
  have hb := Word.toNat_succ_of_lt hlt
  rw [UInt64.lt_iff_toNat_lt] at hlt
  have hfirst : (((disk ((sectorOf (po + b)).toNat / 8)).toList.drop shift).take remaining).length
      = min remaining (4096 - shift) := by
    rw [List.length_take, List.length_drop, Bytes.length_toList]
  have hlen := h.length
  rw [hb] at hlen
  -- the blocks behind the first, counted from it
  have hnext : ∀ j, po + (b + 1) + UInt64.ofNat j = po + b + UInt64.ofNat (j + 1) := by
    intro j
    rw [UInt64.ofNat_add, UInt64.add_assoc, UInt64.add_assoc, UInt64.add_assoc,
      UInt64.add_comm (UInt64.ofNat j)]
    rfl
  refine ⟨?_, ?_, ?_⟩
  · rw [List.length_append, hfirst, hlen]
    omega
  · intro i hi
    by_cases hin : i < min remaining (4096 - shift)
    · have hdiv : (shift + i) / 4096 = 0 := Nat.div_eq_of_lt (by omega)
      have hmod : (shift + i) % 4096 = shift + i := Nat.mod_eq_of_lt (by omega)
      have hzero : po + b + UInt64.ofNat 0 = po + b := UInt64.add_zero _
      rw [hdiv, hmod, hzero]
      refine ⟨List.mem_cons_self, ?_⟩
      rw [List.getElem_append_left (by rw [hfirst]; exact hin), List.getElem_take, List.getElem_drop,
        Bytes.getElem_toList, Bytes.get_of_lt (by omega)]
    · rw [List.length_append, hfirst] at hi
      have hi' : i - min remaining (4096 - shift) < bytes.length := by omega
      obtain ⟨hmem, hbyte⟩ := h.byte _ hi'
      -- the first block was copied to its end
      have hfull : shift + i = 4096 + (0 + (i - min remaining (4096 - shift))) := by omega
      have hdiv : (shift + i) / 4096 = (0 + (i - min remaining (4096 - shift))) / 4096 + 1 := by
        rw [hfull, Nat.add_div_left _ (by decide)]
      have hmod : (shift + i) % 4096 = (0 + (i - min remaining (4096 - shift))) % 4096 := by
        rw [hfull, Nat.add_mod_left]
      rw [hnext] at hmem hbyte
      rw [hdiv, hmod]
      refine ⟨List.mem_cons_of_mem _ hmem, ?_⟩
      rw [List.getElem_append_right (by rw [hfirst]; omega), ← hbyte]
      congr 1
      rw [hfirst]
  · intro r hr
    rcases List.mem_cons.mp hr with rfl | hr
    · exact ⟨0, by omega, congrArg sectorOf (UInt64.add_zero _).symm⟩
    · obtain ⟨j, hj, rfl⟩ := h.block r hr
      exact ⟨j + 1, by omega, congrArg sectorOf (hnext j)⟩

/-- **The copying loop on any disk.** -/
theorem run_readBlocks_onSectors (disk : Nat → Block) (bound : Nat)
    (hv : fs.deviceHandle ≠ invalidHandle) (po count : UInt64) (n : Nat) (b : UInt64)
    (shift remaining : Nat) (hshift : shift < 4096) (hn : remaining ≤ n) (buffer : Block)
    (trace : List UInt64) :
    ∃ bytes reads, (readBlocks (onSectors disk bound) fs po count n b shift remaining buffer).run trace
        = (.ok (true, bytes), trace ++ reads)
      ∧ Copied disk po count b shift remaining bytes reads := by
  induction n generalizing b shift remaining buffer trace with
  | zero =>
      refine ⟨[], [], by rw [List.append_nil]; rfl, copied_nil ?_⟩
      rintro ⟨_, hpos⟩
      omega
  | succ n ih =>
      by_cases hgo : b < count ∧ 0 < remaining
      · have hread : (readBlock (onSectors disk bound) fs (po + b) buffer).run trace
            = (.ok (true, disk ((sectorOf (po + b)).toNat / 8)), trace ++ [sectorOf (po + b)]) := by
          simp only [readBlock, hv, if_false, onSectors]
        have hlen : (((disk ((sectorOf (po + b)).toNat / 8)).toList.drop shift).take remaining).length
            = min remaining (4096 - shift) := by
          rw [List.length_take, List.length_drop, Bytes.length_toList]
        obtain ⟨bytes, reads, hrun, hcopied⟩ := ih (b + 1) 0 (remaining - min remaining (4096 - shift))
          (by decide) (by omega) (disk ((sectorOf (po + b)).toNat / 8)) (trace ++ [sectorOf (po + b)])
        refine ⟨_, sectorOf (po + b) :: reads, ?_, hcopied.cons hgo.1 hshift hgo.2⟩
        simp only [readBlocks, hgo, and_self, if_true, run_bind, hread, andThen_ok, hlen, hrun, run_pure,
          List.append_assoc, List.singleton_append]
      · refine ⟨[], [], ?_, copied_nil hgo⟩
        rw [readBlocks, if_neg hgo, List.append_nil]
        rfl

/-! ## The call -/

/-- Without a device nothing is found. -/
theorem gives_findFileHeader_invalid {σ : Type} {P : Platform σ} (hv : fs.deviceHandle = invalidHandle) :
    Gives (fun o => o = none) (findFileHeader P fs path) := by
  refine Gives.bind fun _ => ?_
  cases P.walkBound with
  | zero => exact Gives.fail .hang
  | succ n =>
      simp only [walk, readBlock, hv, if_true, pure_bind, Bool.false_eq_true, if_false]
      exact Gives.ite (Gives.pure rfl) (Gives.pure rfl)

theorem run_resize_onSectors (disk : Nat → Block) (bound : Nat) (trace : List UInt64) (d : Dynarr) (n : Nat) :
    ∃ d', (d.resize (onSectors disk bound) n).run trace = (.ok d', trace)
      ∧ d'.elems = Dynarr.resized d.elems n := by
  unfold Dynarr.resize
  split
  · exact ⟨_, rfl, rfl⟩
  · exact ⟨_, rfl, rfl⟩

/-- **What a call that returns bytes has done**: its walk came to a header, and behind the walk it read the
    blocks that the copying loop asked for. -/
theorem readFile_inv {data d' : Option Dynarr} {off max : UInt64} {w : List UInt8} {trace' : List UInt64}
    (hrun : (readFile (onSectors disk bound) fs path data off max).run trace = (.ok (.ok w, d'), trace')) :
    ∃ h trace₁ reads,
      (findFileHeader (onSectors disk bound) fs path).run trace = (.ok (some h), trace₁)
      ∧ trace' = trace₁ ++ reads
      ∧ (h.totalSize ≤ off ∧ w = []
        ∨ off < h.totalSize ∧ w.length = windowLength h.totalSize.toNat off.toNat max.toNat
          ∧ ∃ bytes rest, w = bytes ++ rest
            ∧ Copied disk h.payloadOffset h.sectionCount (off / 4096) (off % 4096).toNat w.length bytes
                reads) := by
  unfold readFile at hrun
  split at hrun
  · cases hrun
  split at hrun
  · cases hrun
  obtain ⟨_, _, hnew, hrun⟩ := bind_eq_ok hrun
  cases hnew
  obtain ⟨found, trace₁, hfind, hrun⟩ := bind_eq_ok hrun
  cases found with
  | none => cases hrun
  | some h =>
      have hv : fs.deviceHandle ≠ invalidHandle := by
        intro hv
        cases gives_findFileHeader_invalid hv _ _ _ hfind
      dsimp only at hrun
      by_cases h0 : h.totalSize ≤ off
      · rw [if_pos h0] at hrun
        cases hrun
        exact ⟨h, trace', [], hfind, (List.append_nil _).symm, Or.inl ⟨h0, rfl⟩⟩
      · rw [if_neg h0] at hrun
        have hlt : off < h.totalSize := by
          rw [UInt64.lt_iff_toNat_lt]
          rw [UInt64.le_iff_toNat_le] at h0
          omega
        have hcount := toNat_windowLength h.totalSize off max
          (Nat.le_of_lt (UInt64.lt_iff_toNat_lt.mp hlt))
        rw [hcount] at hrun
        obtain ⟨target, htarget, helems⟩ := run_resize_onSectors disk bound trace₁
          (data.getD Dynarr.empty) (windowLength h.totalSize.toNat off.toNat max.toNat)
        have hmod : (off % 4096).toNat < 4096 := by
          rw [UInt64.toNat_mod]
          exact Nat.mod_lt _ (by decide)
        obtain ⟨bytes, reads, hloop, hcopied⟩ := run_readBlocks_onSectors disk bound hv
          h.payloadOffset h.sectionCount (windowLength h.totalSize.toNat off.toNat max.toNat) (off / 4096)
          (off % 4096).toNat (windowLength h.totalSize.toNat off.toNat max.toNat) hmod (Nat.le_refl _)
          Bytes.zero trace₁
        obtain ⟨_, _, hresize, hrun⟩ := bind_eq_ok hrun
        rw [htarget] at hresize
        cases hresize
        obtain ⟨_, _, hbuffer, hrun⟩ := bind_eq_ok hrun
        cases hbuffer
        obtain ⟨_, _, hcopy, hrun⟩ := bind_eq_ok hrun
        rw [hloop] at hcopy
        cases hcopy
        rw [if_pos rfl] at hrun
        obtain ⟨_, _, hresult, hrun⟩ := bind_eq_ok hrun
        cases hresult
        cases hrun
        have hlen : target.elems.length = windowLength h.totalSize.toNat off.toNat max.toNat := by
          rw [helems, Dynarr.length_resized]
        have hle : bytes.length ≤ target.elems.length := by
          rw [hlen, hcopied.length]
          exact Nat.min_le_left _ _
        have hw : (target.assign bytes).elems = bytes ++ target.elems.drop bytes.length := by
          show bytes.take target.elems.length ++ target.elems.drop bytes.length = _
          rw [List.take_of_length_le hle]
        have hwlen : (target.assign bytes).elems.length
            = windowLength h.totalSize.toNat off.toNat max.toNat := by
          rw [hw, List.length_append, List.length_drop, hlen]
          omega
        refine ⟨h, trace₁, reads, hfind, rfl, Or.inr ⟨hlt, hwlen, bytes, _, hw, ?_⟩⟩
        rw [hwlen]
        exact hcopied

/-! ## When every byte came from the payload -/

/-- The block of the payload of `h` that has byte `i` of the file. -/
def payloadBlock (h : AbtrFSDiskHeader) (i : Nat) : Nat := h.payloadOffset.toNat + i / 4096

/-- The length of the file does not wrap, and every byte `w[i]` was read from its place in the payload of
    the header `h`: `reads` are the sectors that were read for it, from a volume of `total` blocks. -/
structure FromPayload (disk : Nat → Block) (total : Nat) (h : AbtrFSDiskHeader) (off : Nat)
    (w : List UInt8) (reads : List UInt64) : Prop where
  length : storedLength (some h) < 2 ^ 64
  byte : ∀ (i : Nat) (hi : i < w.length),
    (∃ lba ∈ reads, lba.toNat = 8 * payloadBlock h (off + i))
      ∧ 1 ≤ payloadBlock h (off + i) ∧ payloadBlock h (off + i) < total
      ∧ w[i] = (disk (payloadBlock h (off + i))).get ((off + i) % 4096)

/-- The header and the window fit each other and the volume: the length does not wrap, and what is asked
    for lies inside the blocks that the header counts, and these inside the volume and below `2 ^ 61`, so that they
    have addresses in sectors. -/
def Consistent (total : Nat) (h : AbtrFSDiskHeader) (off max : Nat) : Prop :=
  storedLength (some h) < 2 ^ 64 ∧
    (storedLength (some h) ≤ off ∨
      off + windowLength (storedLength (some h)) off max ≤ h.sectionCount.toNat * 4096
        ∧ 1 ≤ payloadBlock h off
        ∧ payloadBlock h (off + windowLength (storedLength (some h)) off max - 1) < min total (2 ^ 61))

/-- The copied bytes come from the payload when the header is consistent. -/
theorem Copied.fromPayload {total : Nat} {h : AbtrFSDiskHeader} {off : UInt64} {w bytes rest : List UInt8}
    {reads : List UInt64} (hc : Copied disk h.payloadOffset h.sectionCount (off / 4096) (off % 4096).toNat
      w.length bytes reads) (hw : w = bytes ++ rest) (hlen : storedLength (some h) < 2 ^ 64)
    (hin : off.toNat + w.length ≤ h.sectionCount.toNat * 4096)
    (hfirst : 1 ≤ payloadBlock h off.toNat)
    (hlast : payloadBlock h (off.toNat + w.length - 1) < min total (2 ^ 61)) :
    FromPayload disk total h off.toNat w reads := by
  have hdiv : (off / 4096).toNat = off.toNat / 4096 := UInt64.toNat_div _ _
  have hmod : (off % 4096).toNat = off.toNat % 4096 := UInt64.toNat_mod _ _
  have hall := hc.length
  rw [hdiv, hmod, Nat.min_eq_left (by omega)] at hall
  unfold payloadBlock at hfirst hlast
  refine ⟨hlen, fun i hi => ?_⟩
  have hi' : i < bytes.length := by rw [hall]; exact hi
  obtain ⟨hmem, hbyte⟩ := hc.byte i hi'
  rw [hmod] at hmem hbyte
  have hblock : off.toNat / 4096 + (off.toNat % 4096 + i) / 4096 = (off.toNat + i) / 4096 := by omega
  have hle : (off.toNat + i) / 4096 ≤ (off.toNat + w.length - 1) / 4096 :=
    Nat.div_le_div_right (by omega)
  have hge : off.toNat / 4096 ≤ (off.toNat + i) / 4096 := Nat.div_le_div_right (Nat.le_add_right _ _)
  -- the block number does not wrap, nor does its address in sectors
  have hnat : (h.payloadOffset + off / 4096 + UInt64.ofNat ((off.toNat % 4096 + i) / 4096)).toNat
      = payloadBlock h (off.toNat + i) := by
    have hj : (UInt64.ofNat ((off.toNat % 4096 + i) / 4096)).toNat = (off.toNat % 4096 + i) / 4096 :=
      Word.toNat_ofNat (by omega)
    have hfront : (h.payloadOffset + off / 4096).toNat = h.payloadOffset.toNat + off.toNat / 4096 := by
      rw [Word.toNat_add_of_lt (by rw [hdiv]; omega), hdiv]
    rw [Word.toNat_add_of_lt (by rw [hfront, hj]; omega), hfront, hj, payloadBlock]
    omega
  have hsmall : payloadBlock h (off.toNat + i) < min total (2 ^ 61) := by
    unfold payloadBlock
    omega
  have hlba := toNat_sectorOf (hnat.trans_lt (Nat.lt_of_lt_of_le hsmall (Nat.min_le_right _ _)))
  rw [hnat] at hlba
  refine ⟨⟨_, hmem, hlba⟩, ?_, Nat.lt_of_lt_of_le hsmall (Nat.min_le_left _ _), ?_⟩
  · unfold payloadBlock
    omega
  · have hget : w[i] = bytes[i] := by
      simp only [hw]
      exact List.getElem_append_left hi'
    rw [hget, hbyte, hlba, Nat.mul_div_cancel_left _ (by decide)]
    congr 1
    omega

/-- Bytes that come from the payload are among the blocks that the header counts. -/
theorem FromPayload.consistent {total : Nat} {h : AbtrFSDiskHeader} {off : UInt64} {w bytes : List UInt8}
    {reads : List UInt64} (hp : FromPayload disk total h off.toNat w reads)
    (hc : Copied disk h.payloadOffset h.sectionCount (off / 4096) (off % 4096).toNat w.length bytes reads)
    (hpos : 0 < w.length) :
    off.toNat + w.length ≤ h.sectionCount.toNat * 4096
      ∧ 1 ≤ payloadBlock h off.toNat
      ∧ payloadBlock h (off.toNat + w.length - 1) < min total (2 ^ 61) := by
  have hdiv : (off / 4096).toNat = off.toNat / 4096 := UInt64.toNat_div _ _
  obtain ⟨_, hone, _, _⟩ := hp.byte 0 hpos
  obtain ⟨⟨lba, hmem, hlba⟩, _, hlt, _⟩ := hp.byte (w.length - 1) (Nat.sub_lt hpos (by decide))
  rw [Nat.add_zero] at hone
  rw [show off.toNat + (w.length - 1) = off.toNat + w.length - 1 by omega] at hlba hlt
  -- the last byte is in a block that the loop read, and the address of that block in sectors does not wrap
  obtain ⟨j, hj, rfl⟩ := hc.block lba hmem
  have hsmall : payloadBlock h (off.toNat + w.length - 1) < 2 ^ 61 := by
    have hsector := (sectorOf (h.payloadOffset + off / 4096 + UInt64.ofNat j)).toNat_lt
    omega
  refine ⟨?_, hone, Nat.lt_min.mpr ⟨hlt, hsmall⟩⟩
  have hcount : h.sectionCount.toNat ≤ 2 ^ 52 := by
    have hlen := hp.length
    simp only [storedLength] at hlen
    split at hlen
    · rename_i h0
      rw [h0]
      exact Nat.zero_le _
    · omega
  have hmod := mod_of_sectorOf hlba
  have hjn : (UInt64.ofNat j).toNat = j := Word.toNat_ofNat (by omega)
  rw [hdiv] at hj
  rw [UInt64.toNat_add, UInt64.toNat_add, hdiv, hjn] at hmod
  unfold payloadBlock at hmod hsmall
  have hblock : (off.toNat + w.length - 1) / 4096 = off.toNat / 4096 + j := by omega
  omega

/-- **When a read returns disk data only.** -/
theorem readFile_fromPayload_iff {data d' : Option Dynarr} {off max : UInt64} {w : List UInt8}
    {trace' : List UInt64}
    (hrun : (readFile (onSectors disk bound) fs path data off max).run trace = (.ok (.ok w, d'), trace')) :
    ∃ h trace₁ reads,
      (findFileHeader (onSectors disk bound) fs path).run trace = (.ok (some h), trace₁)
      ∧ trace' = trace₁ ++ reads
      ∧ (FromPayload disk fs.partitionHeader.totalBlocks.toNat h off.toNat w reads
        ↔ Consistent fs.partitionHeader.totalBlocks.toNat h off.toNat max.toNat) := by
  obtain ⟨h, trace₁, reads, hfind, htrace, hcases⟩ := readFile_inv hrun
  refine ⟨h, trace₁, reads, hfind, htrace, ?_⟩
  have hsize : h.totalSize.toNat = storedLength (some h) % 2 ^ 64 := foundLength_eq (some h)
  by_cases hlen : storedLength (some h) < 2 ^ 64
  · rw [Nat.mod_eq_of_lt hlen] at hsize
    rcases hcases with ⟨hle, rfl⟩ | ⟨hlt, hwlen, bytes, rest, hw, hcopied⟩
    · rw [UInt64.le_iff_toNat_le, hsize] at hle
      exact iff_of_true ⟨hlen, fun i hi => absurd hi (by simp)⟩ ⟨hlen, Or.inl hle⟩
    · rw [UInt64.lt_iff_toNat_lt, hsize] at hlt
      rw [hsize] at hwlen
      have hpos : 0 < w.length := by
        rw [hwlen]
        unfold windowLength
        split <;> omega
      constructor
      · intro hp
        have hcons := hp.consistent hcopied hpos
        rw [hwlen] at hcons
        exact ⟨hlen, Or.inr hcons⟩
      · rintro ⟨_, hle | hcons⟩
        · omega
        · rw [← hwlen] at hcons
          exact hcopied.fromPayload hw hlen hcons.1 hcons.2.1 hcons.2.2
  · exact iff_of_false (fun hp => hlen hp.length) (fun hc => hlen hc.1)

/-- It is about calls there are: a read of the file `b`. -/
theorem readFile_fromPayload_b : ∃ w h trace₁ reads,
    (findFileHeader (onSectors (layDisk [(pathB, [7])]) 5) (layFs [(pathB, [7])]) pathB).run []
      = (.ok (some h), trace₁)
    ∧ (FromPayload (layDisk [(pathB, [7])]) (layFs [(pathB, [7])]).partitionHeader.totalBlocks.toNat h 0 w reads
      ↔ Consistent (layFs [(pathB, [7])]).partitionHeader.totalBlocks.toNat h 0 0) := by
  have hvalue : (((readFile (onSectors (layDisk [(pathB, [7])]) 5) (layFs [(pathB, [7])]) pathB none 0 0).run
      []).1.map Prod.fst) = .ok (.ok [7]) := by decide +kernel
  rcases hrun : (readFile (onSectors (layDisk [(pathB, [7])]) 5) (layFs [(pathB, [7])]) pathB none 0 0).run []
    with ⟨r, trace'⟩
  rw [hrun] at hvalue
  obtain ⟨⟨v, d'⟩, rfl, rfl⟩ := map_eq_ok hvalue
  obtain ⟨h, trace₁, reads, hfind, _, hiff⟩ := readFile_fromPayload_iff hrun
  exact ⟨_, h, trace₁, reads, hfind, hiff⟩

/-- A disk with one file, `a`, of one block, whose header claims that the block holds 5000 bytes. -/
def oversizedDisk : Nat → Block
  | 0 => (usedHeader 3).bytes
  | 1 => ((fillHeader pathA none 1 1 1).set .size 5000).bytes
  | _ => Bytes.zero

/-- The array of a caller, with one byte in it. -/
def staleArray : Dynarr := ⟨[9], 1, Nat.le_refl 1⟩

/-- **A read may return what was in the caller's array.** One byte behind the only block: it counts as
    part of the file, no block of the payload is read, and the byte comes back as it was. -/
theorem oversized_returns_stale :
    PartitionHeader.magic ⟨oversizedDisk 0⟩ = volumeMagic
    ∧ ((findFileHeader (onSectors oversizedDisk 5) (mountedOn AbtrFS.init 0 0 0 oversizedDisk) pathA).run []).2
        = [8]
    ∧ (((readFile (onSectors oversizedDisk 5) (mountedOn AbtrFS.init 0 0 0 oversizedDisk) pathA
        (some staleArray) 4096 1).run []).1.map Prod.fst) = .ok (.ok [9])
    ∧ ((readFile (onSectors oversizedDisk 5) (mountedOn AbtrFS.init 0 0 0 oversizedDisk) pathA
        (some staleArray) 4096 1).run []).2 = [8] ++ []
    ∧ ∀ total h, ¬ FromPayload oversizedDisk total h 4096 [9] [] := by
  refine ⟨magic_usedHeader 3, by decide +kernel, by decide +kernel, by decide +kernel, ?_⟩
  intro total h hp
  obtain ⟨⟨lba, hmem, _⟩, _⟩ := hp.byte 0 (by decide)
  exact absurd hmem (by simp)

end AlopexOS
