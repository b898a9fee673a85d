import AlopexOS.Abtrfs.Writing

/-!
# `Abtrfs.Create` — files that were not there

A new file is written behind the used blocks, and the partition header that makes it visible is written
last. Whatever number of the writes reach the disk, the old files are where they were.

## Contents
- **The writes.** `newWrites` and where they go.
- **`Creation`**: what is known when a call has written some of them.
- **The volume afterwards.**
-/

namespace AlopexOS

open Packed ByteString CString Prog

variable {c : Conditions} {fs : AbtrFS} {path : Path} {files : List File} {data : List UInt8}
  {off : UInt64}

/-! ## The writes -/

/-- The block writes for a payload `x` of `n` blocks from `a` on, and for the partition header. -/
def payloadWrites (a n : Nat) (x : List UInt8) (super : Block) : List (Nat × Block) :=
  (List.range n).map (fun b => (a + b, chunk 4096 x b)) ++ [(0, super)]

/-- The block writes for a new file at `a` whose content `x` fills `n` blocks. -/
def newWrites (a n : Nat) (header : Block) (x : List UInt8) (super : Block) : List (Nat × Block) :=
  (a, header) :: payloadWrites (a + 1) n x super

variable {a b n k : Nat} {header super : Block} {x : List UInt8} {disk disk' : Nat → Block}

@[simp] theorem length_payloadWrites : (payloadWrites a n x super).length = n + 1 := by
  simp [payloadWrites]

@[simp] theorem length_newWrites : (newWrites a n header x super).length = n + 2 := by
  simp [newWrites]

/-- **A block after the first writes of a payload.** -/
theorem applyWrites_payload (hb : b ≠ 0) :
    applyWrites ((payloadWrites a n x super).take k) disk b
      = if a ≤ b ∧ b < a + min k n then chunk 4096 x (b - a) else disk b := by
  unfold payloadWrites
  rw [List.take_append, applyWrites_append, applyWrites_outside, ← List.map_take, List.take_range]
  · exact applyWrites_range a (chunk 4096 x) (min k n) disk b
  · intro w hw
    have hw' := List.mem_singleton.mp (List.mem_of_mem_take hw)
    rw [hw']
    exact hb.symm

/-- The partition header is the last of them. -/
theorem applyWrites_payload_zero (ha : 0 < a) (hk : k ≤ n + 1) :
    applyWrites ((payloadWrites a n x super).take k) disk 0 = if k = n + 1 then super else disk 0 := by
  have hrange : ∀ j, applyWrites ((List.range j).map (fun b => (a + b, chunk 4096 x b))) disk 0 = disk 0 := by
    intro j
    rw [applyWrites_range, if_neg (by omega)]
  unfold payloadWrites
  by_cases h : k = n + 1
  · rw [if_pos h, List.take_of_length_le (by simp [h]), applyWrites_append]
    rfl
  · rw [if_neg h, List.take_append_of_le_length (by simp; omega), ← List.map_take, List.take_range]
    exact hrange _

/-- **A block after the first writes of a new file.** -/
theorem applyWrites_new (hb : b ≠ 0) :
    applyWrites ((newWrites a n header x super).take k) disk b
      = if a + 1 ≤ b ∧ b < a + 1 + min (k - 1) n then chunk 4096 x (b - (a + 1))
        else if b = a ∧ 0 < k then header else disk b := by
  cases k with
  | zero => rw [if_neg (by omega), if_neg (by omega)]; rfl
  | succ k =>
      show applyWrites ((payloadWrites (a + 1) n x super).take k) (setBlock disk (a, header)) b = _
      rw [applyWrites_payload hb]
      simp only [setBlock, Nat.add_sub_cancel, Nat.succ_pos, and_true]

theorem applyWrites_new_zero (ha : 0 < a) (hk : k ≤ n + 2) :
    applyWrites ((newWrites a n header x super).take k) disk 0
      = if k = n + 2 then super else disk 0 := by
  cases k with
  | zero => rfl
  | succ k =>
      show applyWrites ((payloadWrites (a + 1) n x super).take k) (setBlock disk (a, header)) 0 = _
      have hne : ¬ 0 = a := by omega
      rw [applyWrites_payload_zero (Nat.succ_pos a) (by omega)]
      simp only [setBlock, hne, if_false, Nat.add_right_cancel_iff]

/-! ## A creation -/

/-- The disk `disk'` is `disk` with the first `k` writes of a new file with content `x`, all of whose
    blocks are counted as used in the partition header `h`. -/
structure Creation (fs : AbtrFS) (path : Path) (x : List UInt8) (k : Nat) (h : PartitionHeader)
    (header : Block) (disk disk' : Nat → Block) : Prop where
  isHeader : IsHeader header (created path x) fs.partitionHeader.used.toNat
  claimed : h = fs.partitionHeader.setFree h.freeBlocksCount
  free_le : h.freeBlocksCount.toNat ≤ h.totalBlocks.toNat
  used : h.used.toNat = fs.partitionHeader.used.toNat + (1 + blocksFor 4096 x.length)
  le : k ≤ blocksFor 4096 x.length + 2
  disk : disk' = applyWrites ((newWrites fs.partitionHeader.used.toNat (blocksFor 4096 x.length)
    header x h.bytes).take k) disk

/-- What a call writes when there was nothing before: zeros up to the offset, then the data. -/
def newContent (off : UInt64) (data : List UInt8) : List UInt8 :=
  List.replicate off.toNat 0 ++ data

@[simp] theorem length_newContent : (newContent off data).length = off.toNat + data.length := by
  simp [newContent]

/-- The header block of a new file. -/
def newHeader (fs : AbtrFS) (path : Path) (data : List UInt8) (off : UInt64) : Block :=
  (fillHeader path none fs.partitionHeader.used (requiredBlocks (finalSize none data off))
    (finalSize none data off)).bytes

/-- The partition header that counts a new file. -/
def newSuper (fs : AbtrFS) (data : List UInt8) (off : UInt64) : PartitionHeader :=
  fs.partitionHeader.setFree
    (fs.partitionHeader.freeBlocksCount - (1 + requiredBlocks (finalSize none data off)))

theorem toNat_finalSize_new (hoff : off.toNat + data.length + 4096 ≤ 2 ^ 64) :
    (finalSize none data off).toNat = off.toNat + data.length := by
  rw [toNat_finalSize none (by omega)]
  exact Nat.zero_max _

theorem toNat_requiredBlocks_new (hoff : off.toNat + data.length + 4096 ≤ 2 ^ 64) :
    (requiredBlocks (finalSize none data off)).toNat = blocksFor 4096 (off.toNat + data.length) := by
  have hfinal := toNat_finalSize_new hoff
  rw [toNat_requiredBlocks (by omega), hfinal]

theorem isHeader_newHeader (fs : AbtrFS) (path : Path) (hoff : off.toNat + data.length + 4096 ≤ 2 ^ 64)
    (hfit : fs.partitionHeader.used.toNat + 1 < 2 ^ 64) :
    IsHeader (newHeader fs path data off) (created path (newContent off data))
      fs.partitionHeader.used.toNat := by
  apply isHeader_fillHeader path _ _ hfit
  · rw [length_newContent, toNat_finalSize_new hoff]
  · rw [toNat_requiredBlocks_new hoff, toNat_finalSize_new hoff]

/-- The planned writes of a creation are `newWrites`. -/
theorem onDisk_callWrites_new (fs : AbtrFS) (path : Path) (hoff : off.toNat + data.length + 4096 ≤ 2 ^ 64)
    (h : PartitionHeader)
    (hfit : fs.partitionHeader.used.toNat + 1 + blocksFor 4096 (off.toNat + data.length) < 2 ^ 64)
    (x : List UInt8) :
    onDisk (callWrites fs path data off none x h)
      = newWrites fs.partitionHeader.used.toNat (blocksFor 4096 (off.toNat + data.length))
          (newHeader fs path data off) x h.bytes := by
  have hreq := toNat_requiredBlocks_new hoff
  have hpo : (AbtrFSDiskHeader.payloadOffset (fillHeader path none fs.partitionHeader.used
      (requiredBlocks (finalSize none data off)) (finalSize none data off))).toNat
        = fs.partitionHeader.used.toNat + 1 :=
    (isHeader_newHeader fs path hoff (by omega)).payloadOffset
  have hpayload : ∀ b ∈ List.range (blocksFor 4096 (off.toNat + data.length)),
      ((AbtrFSDiskHeader.payloadOffset (fillHeader path none fs.partitionHeader.used
        (requiredBlocks (finalSize none data off)) (finalSize none data off)) + UInt64.ofNat b).toNat,
          chunk 4096 x b) = (fs.partitionHeader.used.toNat + 1 + b, chunk 4096 x b) := by
    intro b hb
    have hb' := List.mem_range.mp hb
    have hbn : (UInt64.ofNat b).toNat = b := Word.toNat_ofNat (by omega)
    rw [Word.toNat_add_of_lt (by rw [hpo, hbn]; omega), hpo, hbn]
  simp only [callWrites, plannedWrites, Option.isNone_none, if_true, onDisk, List.map_append,
    List.map_map, List.map_cons, List.map_nil, newWrites, payloadWrites, hreq, Function.comp_def,
    List.map_congr_left hpayload, List.cons_append, List.nil_append]
  rfl

/-- The writes of a call that creates a file. -/
def fileWrites (fs : AbtrFS) (path : Path) (data : List UInt8) (off : UInt64) : List (Nat × Block) :=
  newWrites fs.partitionHeader.used.toNat (blocksFor 4096 (off.toNat + data.length))
    (newHeader fs path data off) (newContent off data) (newSuper fs data off).bytes

/-- **The disk with the first writes of a creation** that has room. -/
theorem creation_newContent (fs : AbtrFS) (path : Path)
    (hfree : fs.partitionHeader.freeBlocksCount.toNat ≤ fs.partitionHeader.totalBlocks.toNat)
    (hoff : off.toNat + data.length + 4096 ≤ 2 ^ 64)
    (hfit : 1 + blocksFor 4096 (off.toNat + data.length) ≤ fs.partitionHeader.freeBlocksCount.toNat)
    (hk : k ≤ blocksFor 4096 (off.toNat + data.length) + 2) (disk : Nat → Block) :
    Creation fs path (newContent off data) k (newSuper fs data off) (newHeader fs path data off) disk
      (applyWrites ((fileWrites fs path data off).take k) disk) := by
  have hreq := toNat_requiredBlocks_new hoff
  have hreqle := requiredBlocks_le (finalSize none data off)
  have hclaim : claimBlocks fs.partitionHeader none (requiredBlocks (finalSize none data off))
      = some (newSuper fs data off) := by
    cases hc : claimBlocks fs.partitionHeader none (requiredBlocks (finalSize none data off)) with
    | none =>
        rw [claimBlocks_new_eq_none hfree hreqle, hreq] at hc
        omega
    | some h => rw [(claimBlocks_new_eq_some hfree hreqle hc).1, newSuper]
  obtain ⟨_, hle, _, hused⟩ := claimBlocks_new_eq_some hfree hreqle hclaim
  rw [hreq] at hused
  have hlt := fs.partitionHeader.totalBlocks.toNat_lt
  have hus := PartitionHeader.toNat_used hfree
  refine ⟨isHeader_newHeader fs path hoff (by omega), ?_, hle, ?_, ?_, ?_⟩
  · rw [newSuper, PartitionHeader.freeBlocksCount_setFree]
  · rw [length_newContent]
    exact hused
  · rw [length_newContent]
    exact hk
  · rw [length_newContent]
    rfl

/-- A creation ran out of nothing: the ways it can end. -/
inductive CreateEnds (c : Conditions) (fs : AbtrFS) (path : Path) (data : List UInt8) (off : UInt64)
    (m : Machine) : ErrorCode × AbtrFS → Machine → Prop
  | empty {m' : Machine} (h0 : off.toNat + data.length = 0) (hq : Quiet m m') :
      CreateEnds c fs path data off m (.invalidParameters, fs) m'
  | full {m' : Machine} (hpos : 0 < off.toNat + data.length)
      (hfull : fs.partitionHeader.freeBlocksCount.toNat < 1 + blocksFor 4096 (off.toNat + data.length))
      (hq : Quiet m m') : CreateEnds c fs path data off m (.noSpaceLeft, fs) m'
  | wrote {m' : Machine} (hpos : 0 < off.toNat + data.length)
      (hfit : 1 + blocksFor 4096 (off.toNat + data.length) ≤ fs.partitionHeader.freeBlocksCount.toNat)
      (k : Nat)
      (hc : Creation fs path (newContent off data) k (newSuper fs data off)
        (newHeader fs path data off) m.disk m'.disk)
      (hok : ∀ i < k, c.writeOk (m.writes + i) = true)
      (hstop : k < blocksFor 4096 (off.toNat + data.length) + 2 → c.writeOk (m.writes + k) = false)
      (hlog : m'.log = m.log ++ (fileWrites fs path data off).take k) :
      CreateEnds c fs path data off m
        (if k = blocksFor 4096 (off.toNat + data.length) + 2 then .success else .writeFailed,
          { fs with partitionHeader := newSuper fs data off }) m'

/-- **How a call ends for a file that was not found.** -/
theorem WriteEnds.new {m m' : Machine} {res : ErrorCode × AbtrFS}
    (hfree : fs.partitionHeader.freeBlocksCount.toNat ≤ fs.partitionHeader.totalBlocks.toNat)
    (hoff : off.toNat + data.length + 4096 ≤ 2 ^ 64)
    {R : List UInt8 → Nat → Prop} (hR : ∀ old r, R old r → old = [])
    (hends : WriteEnds c fs path data off none R m (some res) m') :
    CreateEnds c fs path data off m res m' := by
  have hfinal := toNat_finalSize_new hoff
  have hreq := toNat_requiredBlocks_new hoff
  have hreqle := requiredBlocks_le (finalSize none data off)
  have hpos : finalSize none data off ≠ 0 → 0 < off.toNat + data.length := by
    rw [Word.ne_zero_iff, hfinal]
    exact id
  cases hends with
  | empty h0 hq =>
      rw [h0] at hfinal
      exact .empty hfinal.symm hq
  | full h0 _ _ _ hc hq =>
      rw [claimBlocks_new_eq_none hfree hreqle, hreq] at hc
      exact .full (hpos h0) hc hq
  | wrote h0 h old expanded k hc hold hx hw =>
      obtain ⟨hh, _, hfit, _⟩ := claimBlocks_new_eq_some hfree hreqle hc
      obtain rfl : h = newSuper fs data off := hh
      rw [hreq] at hfit
      have hlt := fs.partitionHeader.totalBlocks.toNat_lt
      have hus := PartitionHeader.toNat_used hfree
      have hxeq : expanded = newContent off data := by
        have hover : expandedData (finalSize none data off) [] data off
            = some (overlay [] data off.toNat) :=
          expandedData_eq_overlay [] (by rw [hfinal]; simp)
        rw [hR _ _ hold, hover, overlay_nil] at hx
        exact (Option.some.inj hx).symm
      subst hxeq
      have hws := onDisk_callWrites_new fs path hoff (newSuper fs data off) (by omega)
        (newContent off data)
      have hlen : (callWrites fs path data off none (newContent off data) (newSuper fs data off)).length
          = blocksFor 4096 (off.toNat + data.length) + 2 := by
        have := congrArg List.length hws
        rw [length_newWrites] at this
        simpa [onDisk] using this
      have hk : k ≤ blocksFor 4096 (off.toNat + data.length) + 2 := by
        rw [← hlen]
        exact hw.le
      have hcreation := creation_newContent fs path hfree hoff hfit hk m.disk
      have hdisk : m'.disk = applyWrites ((fileWrites fs path data off).take k) m.disk := by
        rw [fileWrites, ← hws]
        exact hw.disk
      have hlog : m'.log = m.log ++ (fileWrites fs path data off).take k := by
        rw [fileWrites, ← hws]
        exact hw.log
      show CreateEnds c fs path data off m (if k = (callWrites fs path data off none
        (newContent off data) (newSuper fs data off)).length then _ else _, _) m'
      rw [hlen]
      refine .wrote (hpos h0) hfit k ?_ hw.ok (fun hlt => hw.stopped (by rw [hlen]; exact hlt)) hlog
      rw [hdisk]
      exact hcreation

/-! ## The volume afterwards -/

namespace Creation

variable {h : PartitionHeader}

/-- **The old files stay where they are**, however many writes reached the disk. -/
theorem kept (hc : Creation fs path x k h header disk disk')
    (hl : Laid disk 1 files fs.partitionHeader.used.toNat) :
    Laid disk' 1 files fs.partitionHeader.used.toNat := by
  apply hl.congr
  intro i hi hlt
  rw [hc.disk, applyWrites_new (by omega), if_neg (by omega), if_neg (by omega)]

/-- **The partition header is written last.** -/
theorem superblock (hc : Creation fs path x k h header disk disk')
    (hpos : 0 < fs.partitionHeader.used.toNat) :
    disk' 0 = if k = blocksFor 4096 x.length + 2 then h.bytes else disk 0 := by
  rw [hc.disk]
  exact applyWrites_new_zero hpos hc.le

/-- The header, as soon as a block was written. -/
theorem headerBlock (hc : Creation fs path x k h header disk disk')
    (hpos : 0 < fs.partitionHeader.used.toNat) (hk : 0 < k) :
    disk' fs.partitionHeader.used.toNat = header := by
  rw [hc.disk, applyWrites_new (by omega), if_neg (by omega), if_pos ⟨rfl, hk⟩]

/-- The payload, once all of it was written. -/
theorem payloadBlocks (hc : Creation fs path x k h header disk disk')
    (hk : blocksFor 4096 x.length < k) :
    Holds disk' (fs.partitionHeader.used.toNat + 1) (created path x).payload := by
  rw [holds_iff]
  intro i hi
  rw [length_payload_created] at hi
  rw [hc.disk, applyWrites_new (by omega), if_pos (by omega), Nat.add_sub_cancel_left]
  simp [created]

/-- A file that has the header, and its own payload behind it, is one more of the volume. -/
theorem laid_append (hc : Creation fs path x k h header disk disk')
    (hl : Laid disk 1 files fs.partitionHeader.used.toNat) (hk : 0 < k) {f : File}
    (hheader : IsHeader header f fs.partitionHeader.used.toNat)
    (hpayload : Holds disk' (fs.partitionHeader.used.toNat + 1) f.payload)
    (hlen : f.payload.length = (created path x).payload.length) :
    Laid disk' 1 (files ++ [f]) h.used.toNat := by
  have hend := hl.end_eq
  have hpos : 0 < fs.partitionHeader.used.toNat := by omega
  have hkept := hc.kept hl
  rw [hend] at hkept
  rw [Laid.append_iff, ← hend]
  refine ⟨hend ▸ hkept, ?_, hpayload, ?_⟩
  · rwa [hc.headerBlock hpos hk]
  · show _ + (1 + f.payload.length) = _
    rw [hlen, length_payload_created, hc.used]

/-- **All of a new file on the disk** is one more file of the volume. -/
theorem laid_new (hc : Creation fs path x k h header disk disk')
    (hl : Laid disk 1 files fs.partitionHeader.used.toNat) (hk : blocksFor 4096 x.length < k) :
    Laid disk' 1 (files ++ [created path x]) h.used.toNat :=
  hc.laid_append hl (Nat.lt_of_le_of_lt (Nat.zero_le _) hk) hc.isHeader (hc.payloadBlocks hk) rfl

end Creation

end AlopexOS
