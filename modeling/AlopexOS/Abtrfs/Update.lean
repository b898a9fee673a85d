import AlopexOS.Abtrfs.NewFile

/-!
# `Abtrfs.Update` — writing a file that is there

The new content of a file that is found goes over its payload from the first block on. The header stays
as it is. When the content needs more blocks than the header counts, the missing ones come off the free
count, and the content still goes to the blocks behind the payload.

## Contents
- **Sizes and space** for a file that is found.
- **The call.** `UpdateEnds`.
- **The volume afterwards**: the blocks up to the end of the file, and those behind it.
-/

namespace AlopexOS

open Packed ByteString CString Prog

variable {c : Conditions} {fs : AbtrFS} {path : Path} {files pre post : List File} {data : List UInt8}
  {off : UInt64} {f : File} {a k r : Nat} {x : List UInt8} {disk disk' : Nat → Block}

/-! ## Sizes and space -/

/-- How long a file is after a write. -/
def newLength (f : File) (data : List UInt8) (off : UInt64) : Nat :=
  max f.length (off.toNat + data.length)

/-- The blocks a write takes the file to need; near the end of the 64-bit range the count wraps. -/
def newBlocks (f : File) (data : List UInt8) (off : UInt64) : Nat :=
  if newLength f data off + 4096 ≤ 2 ^ 64 then blocksFor 4096 (newLength f data off) else 0

theorem toNat_finalSize_found {blk : Block} (hh : IsHeader blk f a)
    (hoff : off.toNat + data.length < 2 ^ 64) :
    (finalSize (some ⟨blk⟩) data off).toNat = newLength f data off := by
  rw [toNat_finalSize _ hoff]
  show max (AbtrFSDiskHeader.totalSize ⟨blk⟩).toNat _ = _
  rw [hh.totalSize_eq, newLength]

/-- The count of blocks wraps to nothing. -/
theorem toNat_requiredBlocks_wrap {n : UInt64} (h : ¬ n.toNat + 4096 ≤ 2 ^ 64) :
    (requiredBlocks n).toNat = 0 := by
  have hn := n.toNat_lt
  have hsub : n + 4096 - 1 = n + 4095 := by
    rw [UInt64.sub_eq_add_neg, UInt64.add_assoc]
    rfl
  have hadd : (n + 4095).toNat = (n.toNat + 4095) % 2 ^ 64 := UInt64.toNat_add n 4095
  unfold requiredBlocks
  rw [UInt64.toNat_div, hsub, hadd, show (4096 : UInt64).toNat = 4096 from rfl]
  omega

theorem toNat_requiredBlocks_found {blk : Block} (hh : IsHeader blk f a)
    (hoff : off.toNat + data.length < 2 ^ 64) :
    (requiredBlocks (finalSize (some ⟨blk⟩) data off)).toNat = newBlocks f data off := by
  have hfinal := toNat_finalSize_found hh hoff
  unfold newBlocks
  rw [← hfinal]
  split
  · exact toNat_requiredBlocks ‹_›
  · exact toNat_requiredBlocks_wrap ‹_›

/-- **A file that grows is refused exactly when the blocks it lacks are not free.** -/
theorem claimBlocks_found_eq_none {h : PartitionHeader} {header : AbtrFSDiskHeader} {required : UInt64} :
    claimBlocks h (some header) required = none ↔
      h.freeBlocksCount.toNat < required.toNat - header.sectionCount.toNat := by
  simp only [claimBlocks, UInt64.lt_iff_toNat_lt]
  by_cases hlt : header.sectionCount.toNat < required.toNat
  · rw [if_pos hlt, Word.toNat_sub_of_le (Nat.le_of_lt hlt)]
    by_cases hf : h.freeBlocksCount.toNat < required.toNat - header.sectionCount.toNat <;> simp [hf]
  · rw [if_neg hlt, Nat.sub_eq_zero_of_le (Nat.le_of_not_lt hlt)]
    simp

/-- The blocks it lacks come off the free count. -/
theorem claimBlocks_found_eq_some {h h' : PartitionHeader} {header : AbtrFSDiskHeader}
    {required : UInt64} (hfree : h.freeBlocksCount.toNat ≤ h.totalBlocks.toNat)
    (hc : claimBlocks h (some header) required = some h') :
    h'.freeBlocksCount.toNat ≤ h'.totalBlocks.toNat
      ∧ required.toNat - header.sectionCount.toNat ≤ h.freeBlocksCount.toNat
      ∧ h'.used.toNat = h.used.toNat + (required.toNat - header.sectionCount.toNat) := by
  have hge : ¬ h.freeBlocksCount.toNat < required.toNat - header.sectionCount.toNat := fun hlt => by
    rw [claimBlocks_found_eq_none.mpr hlt] at hc
    cases hc
  simp only [claimBlocks, UInt64.lt_iff_toNat_lt] at hc
  by_cases hlt : header.sectionCount.toNat < required.toNat
  · have hdiff := Word.toNat_sub_of_le (Nat.le_of_lt hlt)
    rw [if_pos hlt, hdiff, if_neg hge] at hc
    obtain rfl := Option.some.inj hc
    have hfree' : (h.freeBlocksCount - (required - header.sectionCount)).toNat
        = h.freeBlocksCount.toNat - (required.toNat - header.sectionCount.toNat) := by
      rw [Word.toNat_sub_of_le (by rw [hdiff]; omega), hdiff]
    have hle : (h.setFree (h.freeBlocksCount - (required - header.sectionCount))).freeBlocksCount.toNat
        ≤ (h.setFree (h.freeBlocksCount - (required - header.sectionCount))).totalBlocks.toNat := by
      rw [PartitionHeader.freeBlocksCount_setFree, PartitionHeader.totalBlocks_setFree, hfree']
      omega
    refine ⟨hle, by omega, ?_⟩
    rw [PartitionHeader.toNat_used hle, PartitionHeader.toNat_used hfree,
      PartitionHeader.freeBlocksCount_setFree, PartitionHeader.totalBlocks_setFree, hfree']
    omega
  · rw [if_neg hlt] at hc
    obtain rfl := Option.some.inj hc
    exact ⟨hfree, by omega, by omega⟩

/-! ## The call -/

/-- The disk `disk'` is `disk` with the first `k` writes of a content `x` in `r` blocks over the file `f`,
    whose header is at `a`; `h` is the partition header of these writes. -/
structure Update (fs : AbtrFS) (f : File) (a r : Nat) (x : List UInt8) (k : Nat) (h : PartitionHeader)
    (disk disk' : Nat → Block) : Prop where
  free_le : h.freeBlocksCount.toNat ≤ h.totalBlocks.toNat
  used : h.used.toNat = fs.partitionHeader.used.toNat + (r - f.payload.length)
  le : k ≤ r + 1
  disk : disk' = applyWrites ((payloadWrites (a + 1) r x h.bytes).take k) disk

/-- How a call ends that finds `f` with its header at `a` and reads the old content with `R`. -/
inductive UpdateEnds (c : Conditions) (fs : AbtrFS) (data : List UInt8) (off : UInt64) (f : File)
    (a : Nat) (R : List UInt8 → Prop) (m : Machine) : ErrorCode × AbtrFS → Machine → Prop
  | empty {m' : Machine} (h0 : newLength f data off = 0) (hq : Quiet m m') :
      UpdateEnds c fs data off f a R m (.invalidParameters, fs) m'
  | full {m' : Machine} (hpos : 0 < newLength f data off)
      (hfull : fs.partitionHeader.freeBlocksCount.toNat < newBlocks f data off - f.payload.length)
      (hq : Quiet m m') : UpdateEnds c fs data off f a R m (.noSpaceLeft, fs) m'
  | wrote {m' : Machine} (hpos : 0 < newLength f data off)
      (hfit : newBlocks f data off - f.payload.length ≤ fs.partitionHeader.freeBlocksCount.toNat)
      (h : PartitionHeader) (final : UInt64) (old x : List UInt8) (k : Nat) (hR : R old)
      (hfinal : final.toNat = newLength f data off) (hx : expandedData final old data off = some x)
      (hu : Update fs f a (newBlocks f data off) x k h m.disk m'.disk)
      (hok : ∀ i < k, c.writeOk (m.writes + i) = true)
      (hstop : k < newBlocks f data off + 1 → c.writeOk (m.writes + k) = false) :
      UpdateEnds c fs data off f a R m
        (if k = newBlocks f data off + 1 then .success else .writeFailed,
          { fs with partitionHeader := h }) m'

/-- The header keeps its payload where it was. -/
theorem payloadOffset_fillHeader (path : Path) (header : AbtrFSDiskHeader)
    (assigned required final : UInt64) :
    (fillHeader path (some header) assigned required final).payloadOffset = header.payloadOffset := by
  unfold AbtrFSDiskHeader.payloadOffset
  simp only [fillHeader, get_copyPath, AbtrFSDiskHeader.get_set, reduceCtorEq, if_false]

/-- The planned writes of a call that found a file. -/
theorem onDisk_callWrites_found {blk : Block} (hh : IsHeader blk f a) (path : Path)
    (h : PartitionHeader) (x : List UInt8) (hoff : off.toNat + data.length < 2 ^ 64)
    (hfit : a + 1 + newBlocks f data off < 2 ^ 64) :
    onDisk (callWrites fs path data off (some ⟨blk⟩) x h)
      = payloadWrites (a + 1) (newBlocks f data off) x h.bytes := by
  have hpo := hh.payloadOffset
  have hpayload : ∀ b ∈ List.range (newBlocks f data off),
      ((AbtrFSDiskHeader.payloadOffset ⟨blk⟩ + UInt64.ofNat b).toNat, chunk 4096 x b)
        = (a + 1 + b, chunk 4096 x b) := by
    intro b hb
    have hb' := List.mem_range.mp hb
    have hbn : (UInt64.ofNat b).toNat = b := Word.toNat_ofNat (by omega)
    rw [Word.toNat_add_of_lt (by rw [hpo, hbn]; omega), hpo, hbn]
  simp only [callWrites, plannedWrites, Option.isNone_some, Bool.false_eq_true, if_false, onDisk,
    List.map_append, List.map_map, List.map_cons, List.map_nil, List.nil_append, payloadWrites,
    payloadOffset_fillHeader, toNat_requiredBlocks_found hh hoff, Function.comp_def,
    List.map_congr_left hpayload]
  rfl

/-- **How a call ends for a file that was found.** -/
theorem WriteEnds.found {m m' : Machine} {res : ErrorCode × AbtrFS} {blk : Block}
    {R : List UInt8 → Nat → Prop} {R' : List UInt8 → Prop} (hR' : ∀ old r, R old r → R' old)
    (hh : IsHeader blk f a)
    (hin : a + f.span ≤ fs.partitionHeader.used.toNat)
    (hfree : fs.partitionHeader.freeBlocksCount.toNat ≤ fs.partitionHeader.totalBlocks.toNat)
    (hoff : off.toNat + data.length < 2 ^ 64)
    (hends : WriteEnds c fs path data off (some ⟨blk⟩) R m (some res) m') :
    UpdateEnds c fs data off f a R' m res m' := by
  have hfinal := toNat_finalSize_found hh hoff
  have hreq := toNat_requiredBlocks_found hh hoff
  have hcount := hh.sectionCount
  have hpos : finalSize (some ⟨blk⟩) data off ≠ 0 → 0 < newLength f data off := by
    rw [Word.ne_zero_iff, hfinal]
    exact id
  cases hends with
  | empty h0 hq =>
      rw [h0] at hfinal
      exact .empty hfinal.symm hq
  | full h0 _ _ _ hc hq =>
      rw [claimBlocks_found_eq_none, hreq, hcount] at hc
      exact .full (hpos h0) hc hq
  | wrote h0 h old x k hc hR hx hw =>
      obtain ⟨hle, hfit, hused⟩ := claimBlocks_found_eq_some hfree hc
      rw [hreq, hcount] at hfit hused
      have hus := PartitionHeader.toNat_used hfree
      have hlt := fs.partitionHeader.totalBlocks.toNat_lt
      unfold File.span at hin
      have hws : onDisk (callWrites fs path data off (some ⟨blk⟩) x h)
          = payloadWrites (a + 1) (newBlocks f data off) x h.bytes :=
        onDisk_callWrites_found hh path h x hoff (by omega)
      have hlen : (callWrites fs path data off (some ⟨blk⟩) x h).length = newBlocks f data off + 1 := by
        have := congrArg List.length hws
        rw [length_payloadWrites] at this
        simpa [onDisk] using this
      have hu : Update fs f a (newBlocks f data off) x k h m.disk m'.disk := by
        refine ⟨hle, hused, ?_, ?_⟩
        · rw [← hlen]
          exact hw.le
        · rw [← hws]
          exact hw.disk
      rw [hlen]
      exact .wrote (hpos h0) hfit h _ old x k (hR' _ _ hR) hfinal hx hu hw.ok
        (fun hk => hw.stopped (by rw [hlen]; exact hk))

/-- **`writeFile` with a path that names a file**, on a device whose reads do not fail. What is behind the
    file need not be in order. -/
theorem runs_writeFile_front {m : Machine} (hvol : Front fs m.disk (pre ++ f :: post) path)
    (hfree : fs.partitionHeader.freeBlocksCount.toNat ≤ fs.partitionHeader.totalBlocks.toNat)
    (hseg : chopPath path ≠ []) (hpre : ∀ g ∈ pre, ¬ g.Named path) (hm : f.Named path)
    (hoff : off.toNat + data.length < 2 ^ 64) (hread : ∀ i, c.readOk i = true) :
    Runs c.Generous (writeFile (honest c) fs path data off) m
      (UpdateEnds c (fs.withName path) data off f (1 + spanAll pre) (fun old => old = f.content) m) := by
  refine (runs_writeFile_of_lt hvol hseg hoff).imp ?_
  rintro res m' ⟨o, r, hs, hends⟩
  obtain ⟨b, hlaid, hb, _⟩ := hvol.laid
  obtain ⟨hh, hp, hrest⟩ := hlaid.file
  have hend := hrest.end_eq
  obtain rfl := hs.eq_some hpre hm hread
  refine hends.found ?_ hh (show _ ≤ fs.partitionHeader.used.toNat by omega) hfree hoff
  -- the nested read gives the content
  rintro old r' ⟨m₁, res₁, _, _, hread₁, hres⟩
  cases hread₁ with
  | missing hs => cases hs.eq_some hpre hm hread
  | read pre₂ post₂ f₂ d' hf₂ hpre₂ hm₂ _ _ =>
      obtain ⟨rfl, rfl, rfl⟩ := first_unique hf₂ hpre hm hpre₂ hm₂
      rcases hres with hok | ⟨⟨e, he⟩, _⟩
      · have := Except.ok.inj hok
        rw [← this]
        show f.read (readLength f.length 0) [] = _
        rw [readLength_zero, File.read_content]
      · cases he
  | failed _ _ _ _ _ _ _ _ _ _ hbad =>
      rw [hread] at hbad
      cases hbad

theorem runs_writeFile_present {m : Machine} (hvol : Volume fs m.disk (pre ++ f :: post))
    (hseg : chopPath path ≠ []) (hpre : ∀ g ∈ pre, ¬ g.Named path) (hm : f.Named path)
    (hoff : off.toNat + data.length < 2 ^ 64) (hread : ∀ i, c.readOk i = true) :
    Runs c.Generous (writeFile (honest c) fs path data off) m
      (UpdateEnds c (fs.withName path) data off f (1 + spanAll pre) (fun old => old = f.content) m) :=
  runs_writeFile_front (hvol.front path) hvol.free_le hseg hpre hm hoff hread

/-! ## The volume afterwards -/

/-- The file with its first `j` blocks replaced by those of `x`. -/
def File.overwritten (f : File) (x : List UInt8) (j : Nat) : File :=
  { f with payload := ((List.range j).map (chunk 4096 x)).take f.payload.length ++ f.payload.drop j }

@[simp] theorem length_payload_overwritten (f : File) (x : List UInt8) (j : Nat) :
    (f.overwritten x j).payload.length = f.payload.length := by
  simp only [File.overwritten, List.length_append, List.length_take, List.length_map, List.length_range,
    List.length_drop]
  omega

@[simp] theorem span_overwritten (f : File) (x : List UInt8) (j : Nat) :
    (f.overwritten x j).span = f.span := by
  rw [File.span, length_payload_overwritten, File.span]

@[simp] theorem length_overwritten (f : File) (x : List UInt8) (j : Nat) :
    (f.overwritten x j).length = f.length := by
  rw [File.length, length_payload_overwritten, File.length]
  rfl

theorem getElem_overwritten {j i : Nat} (hi : i < (f.overwritten x j).payload.length)
    (hi' : i < f.payload.length) :
    (f.overwritten x j).payload[i] = if i < j then chunk 4096 x i else f.payload[i] := by
  simp only [File.overwritten, ← List.map_take, List.take_range]
  by_cases h : i < j
  · rw [List.getElem_append_left (by simp; omega), if_pos h]
    simp
  · rw [List.getElem_append_right (by simp; omega), if_neg h, List.getElem_drop]
    congr 1
    simp only [List.length_map, List.length_range]
    omega

/-- A header describes the file whatever its payload holds. -/
theorem IsHeader.overwritten {blk : Block} (hh : IsHeader blk f a) (x : List UInt8) (j : Nat) :
    IsHeader blk (f.overwritten x j) a :=
  ⟨hh.isFile, by rw [length_payload_overwritten]; exact hh.sectionCount, hh.size, hh.payloadOffset, hh.str⟩

namespace Update

variable {h : PartitionHeader} {b : Nat}

/-- What is in front of the payload is kept. -/
theorem kept (hu : Update fs f a r x k h disk disk') (hb : b ≠ 0) (hlt : b ≤ a) : disk' b = disk b := by
  rw [hu.disk, applyWrites_payload hb, if_neg (by omega)]

/-- What is behind the blocks that were written is kept. -/
theorem kept_behind (hu : Update fs f a r x k h disk disk') (hge : a + 1 + min k r ≤ b) :
    disk' b = disk b := by
  rw [hu.disk, applyWrites_payload (by omega), if_neg (by omega)]

/-- **The blocks up to the end of the file** are the files up to it, its payload overwritten. -/
theorem laid_front (hu : Update fs f a r x k h disk disk') (hl : Laid disk 1 (pre ++ f :: post) b)
    (ha : a = 1 + spanAll pre) :
    Laid disk' 1 (pre ++ [f.overwritten x (min k r)]) (a + f.span) := by
  obtain ⟨hh, hp, _⟩ := hl.file
  have hpre := (Laid.append_iff.mp hl).1
  rw [← ha] at hh hp hpre
  rw [Laid.append_iff, ← ha]
  refine ⟨hpre.congr fun i hi hlt => hu.kept (by omega) (by omega), ?_, ?_, ?_⟩
  · rw [hu.kept (by omega) (Nat.le_refl a)]
    exact hh.overwritten x _
  · rw [holds_iff]
    intro i hi
    have hi' : i < f.payload.length := by
      rw [length_payload_overwritten] at hi
      exact hi
    rw [getElem_overwritten hi hi', hu.disk, applyWrites_payload (by omega), Nat.add_sub_cancel_left]
    by_cases hin : i < min k r
    · rw [if_pos (by omega), if_pos hin]
    · rw [if_neg (by omega), if_neg hin]
      exact hp.getElem hi'
  · show a + (f.overwritten x (min k r)).span = _
    rw [span_overwritten]

/-- **A write that stays in the file** leaves the files behind it as well. -/
theorem laid_whole (hu : Update fs f a r x k h disk disk') (hl : Laid disk 1 (pre ++ f :: post) b)
    (ha : a = 1 + spanAll pre) (hin : min k r ≤ f.payload.length) :
    Laid disk' 1 (pre ++ f.overwritten x (min k r) :: post) b := by
  have hfront := Laid.append_iff.mp (hu.laid_front hl ha)
  obtain ⟨_, _, hpost⟩ := hl.file
  rw [Laid.append_iff]
  refine ⟨hfront.1, hfront.2.1, hfront.2.2.1, ?_⟩
  rw [span_overwritten]
  apply hpost.congr
  intro i hi _
  unfold File.span at hi
  exact hu.kept_behind (by omega)

end Update

end AlopexOS
