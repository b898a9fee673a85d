import AlopexOS.Abtrfs.Reading
import AlopexOS.Abtrfs.Tree

/-!
# `Abtrfs.Writing` — `writeFile` on a volume

`writeFile` computes a size, a content, a count of blocks and a header, and then issues a list of block
writes. This module says what each of these is in terms of natural numbers and byte strings, and what
`writeFile` as a whole can end with.

## Contents
- **Sizes and contents.** `finalSize`, `requiredBlocks`, `expandedData`.
- **Space.** `claimBlocks` for a new file.
- **The file that is written.** `created`, its header and its content.
- **The call.** `WriteEnds`: every way `writeFile` can come back.
-/

namespace AlopexOS

open Packed ByteString CString Prog

variable {c : Conditions} {fs : AbtrFS} {path : Path} {files : List File} {data : List UInt8}
  {off : UInt64} {found : Option AbtrFSDiskHeader}

/-! ## Sizes and contents -/

/-- The length of what the walk found. -/
def foundLength (found : Option AbtrFSDiskHeader) : Nat :=
  match found with
  | none => 0
  | some header => header.totalSize.toNat

theorem toNat_finalSize (found : Option AbtrFSDiskHeader) (h : off.toNat + data.length < 2 ^ 64) :
    (finalSize found data off).toNat = max (foundLength found) (off.toNat + data.length) := by
  have hlen : (UInt64.ofNat data.length).toNat = data.length := Word.toNat_ofNat (by omega)
  have hend : (off + UInt64.ofNat data.length).toNat = off.toNat + data.length := by
    rw [Word.toNat_add_of_lt (by rw [hlen]; exact h), hlen]
  have hzero : (0 : UInt64).toNat = 0 := rfl
  cases found with
  | none =>
      simp only [finalSize, foundLength, UInt64.lt_iff_toNat_lt, hend]
      split <;> omega
  | some header =>
      simp only [finalSize, foundLength, UInt64.lt_iff_toNat_lt, hend]
      split <;> omega

theorem toNat_requiredBlocks {n : UInt64} (h : n.toNat + 4096 ≤ 2 ^ 64) :
    (requiredBlocks n).toNat = blocksFor 4096 n.toNat := by
  have hsub : n + 4096 - 1 = n + 4095 := by
    rw [UInt64.sub_eq_add_neg, UInt64.add_assoc]
    rfl
  have hadd : (n + 4095).toNat = n.toNat + 4095 :=
    Word.toNat_add_of_lt (show n.toNat + 4095 < 2 ^ 64 by omega)
  unfold requiredBlocks blocksFor
  rw [UInt64.toNat_div, hsub, hadd]
  rfl

/-- However large the size, the count of blocks is small. -/
theorem requiredBlocks_le (n : UInt64) : (requiredBlocks n).toNat < 2 ^ 53 := by
  have := (n + 4096 - 1).toNat_lt
  unfold requiredBlocks
  rw [UInt64.toNat_div, show (4096 : UInt64).toNat = 4096 from rfl]
  omega

/-- Bytes put one by one into an array that has room for them. -/
theorem putBytes_eq (off : UInt64) (i : Nat) (data buf : List UInt8) (h : off.toNat + i + data.length ≤ buf.length)
    (hb : buf.length < 2 ^ 64) :
    ∃ x, putBytes off i data buf = some x ∧ x.length = buf.length
      ∧ ∀ k, x.getD k 0 =
          if off.toNat + i ≤ k ∧ k < off.toNat + i + data.length then data.getD (k - (off.toNat + i)) 0
          else buf.getD k 0 := by
  induction data generalizing i buf with
  | nil =>
      refine ⟨buf, rfl, rfl, fun k => ?_⟩
      rw [if_neg (by simp only [List.length_nil]; omega)]
  | cons y data ih =>
      simp only [List.length_cons] at h
      have hj : (off + UInt64.ofNat i).toNat = off.toNat + i := by
        have hi : (UInt64.ofNat i).toNat = i := Word.toNat_ofNat (by omega)
        rw [Word.toNat_add_of_lt (by rw [hi]; omega), hi]
      obtain ⟨x, hx, hlen, hget⟩ := ih (i + 1) (buf.set (off.toNat + i) y)
        (by rw [List.length_set]; omega) (by rw [List.length_set]; exact hb)
      refine ⟨x, ?_, by rw [hlen, List.length_set], fun k => ?_⟩
      · simp only [putBytes, hj]
        rw [if_pos (by omega)]
        exact hx
      · rw [hget k]
        by_cases hk : k = off.toNat + i
        · subst hk
          rw [if_neg (by omega), if_pos (by simp only [List.length_cons]; omega), Nat.sub_self,
            List.getD_eq_getElem _ _ (by rw [List.length_set]; omega), List.getElem_set_self]
          rfl
        · have hset : (buf.set (off.toNat + i) y).getD k 0 = buf.getD k 0 := by
            simp only [List.getD_eq_getElem?_getD, List.getElem?_set, Ne.symm hk, if_false]
          rw [hset]
          by_cases hin : off.toNat + (i + 1) ≤ k ∧ k < off.toNat + (i + 1) + data.length
          · rw [if_pos hin, if_pos (by simp only [List.length_cons]; omega),
              show k - (off.toNat + i) = k - (off.toNat + (i + 1)) + 1 by omega]
            rfl
          · rw [if_neg hin, if_neg (by simp only [List.length_cons]; omega)]

theorem getD_resized (xs : List UInt8) {n k : Nat} (h : xs.length ≤ n) :
    (Dynarr.resized xs n).getD k 0 = xs.getD k 0 := by
  unfold Dynarr.resized
  rw [List.take_of_length_le h]
  by_cases hk : k < xs.length
  · simp only [List.getD_eq_getElem?_getD, List.getElem?_append_left hk]
  · simp only [List.getD_eq_getElem?_getD, List.getElem?_append_right (Nat.le_of_not_lt hk),
      List.getElem?_eq_none (Nat.le_of_not_lt hk), List.getElem?_replicate]
    split <;> rfl

/-- **`expandedData`** is the data over the old bytes over zeros. -/
theorem expandedData_eq {final : UInt64} {old : List UInt8} (hold : old.length ≤ final.toNat)
    (hdata : off.toNat + data.length ≤ final.toNat) :
    ∃ x, expandedData final old data off = some x ∧ x.length = final.toNat
      ∧ ∀ k, x.getD k 0 = if off.toNat ≤ k ∧ k < off.toNat + data.length
          then data.getD (k - off.toNat) 0 else old.getD k 0 := by
  have hlen := Dynarr.length_resized old final.toNat
  obtain ⟨x, hx, hxlen, hget⟩ := putBytes_eq off 0 data (Dynarr.resized old final.toNat)
    (by rw [hlen]; exact hdata) (by rw [hlen]; exact final.toNat_lt)
  refine ⟨x, hx, hxlen.trans hlen, fun k => ?_⟩
  rw [hget k, getD_resized old hold]
  rfl

/-- When the array is no longer than it has to be, that is the overlay. -/
theorem expandedData_eq_overlay {final : UInt64} (old : List UInt8)
    (hfinal : final.toNat = max old.length (off.toNat + data.length)) :
    expandedData final old data off = some (overlay old data off.toNat) := by
  obtain ⟨x, hx, hlen, hget⟩ := expandedData_eq
    (show old.length ≤ final.toNat by omega) (show off.toNat + data.length ≤ final.toNat by omega)
  rw [hx]
  congr 1
  apply List.ext_getElem
  · rw [hlen, length_overlay, hfinal]
  · intro k h1 h2
    rw [getElem_overlay, ← hget k, List.getD_eq_getElem _ _ h1]

/-! ## Space -/

/-- **A new file is refused exactly when its blocks and its header do not fit.** -/
theorem claimBlocks_new_eq_none {h : PartitionHeader} {required : UInt64}
    (hfree : h.freeBlocksCount.toNat ≤ h.totalBlocks.toNat) (hr : required.toNat < 2 ^ 53) :
    claimBlocks h none required = none ↔ h.freeBlocksCount.toNat < 1 + required.toNat := by
  have hone : (1 + required).toNat = 1 + required.toNat := Word.toNat_add_of_lt
    (show 1 + required.toNat < 2 ^ 64 by omega)
  have hused := PartitionHeader.toNat_used hfree
  have hlt := h.totalBlocks.toNat_lt
  simp only [claimBlocks, UInt64.lt_iff_toNat_lt, hone]
  by_cases hf : h.freeBlocksCount.toNat < 1 + required.toNat
  · simp [hf]
  · have hsum : (h.used + 1 + required).toNat = h.used.toNat + 1 + required.toNat := by
      have h1 : (h.used + 1).toNat = h.used.toNat + 1 :=
        Word.toNat_add_of_lt (show h.used.toNat + 1 < 2 ^ 64 by omega)
      rw [Word.toNat_add_of_lt (by rw [h1]; omega), h1]
    rw [hsum, if_neg (by omega)]
    simp [hf]

/-- What a new file claims comes off the free count and goes onto the used blocks. -/
theorem claimBlocks_new_eq_some {h h' : PartitionHeader} {required : UInt64}
    (hfree : h.freeBlocksCount.toNat ≤ h.totalBlocks.toNat) (hr : required.toNat < 2 ^ 53)
    (hc : claimBlocks h none required = some h') :
    h' = h.setFree (h.freeBlocksCount - (1 + required))
      ∧ h'.freeBlocksCount.toNat ≤ h'.totalBlocks.toNat
      ∧ 1 + required.toNat ≤ h.freeBlocksCount.toNat
      ∧ h'.used.toNat = h.used.toNat + (1 + required.toNat) := by
  have hge : ¬ h.freeBlocksCount.toNat < 1 + required.toNat := fun hlt => by
    rw [(claimBlocks_new_eq_none hfree hr).mpr hlt] at hc
    cases hc
  have hone : (1 + required).toNat = 1 + required.toNat := Word.toNat_add_of_lt
    (show 1 + required.toNat < 2 ^ 64 by omega)
  have hh : h' = h.setFree (h.freeBlocksCount - (1 + required)) := by
    simp only [claimBlocks] at hc
    split at hc
    · cases hc
    · exact (Option.some.inj hc).symm
  have hfree' : h'.freeBlocksCount.toNat = h.freeBlocksCount.toNat - (1 + required.toNat) := by
    rw [hh, PartitionHeader.freeBlocksCount_setFree, Word.toNat_sub_of_le (by omega), hone]
  have htot : h'.totalBlocks = h.totalBlocks := by
    rw [hh, PartitionHeader.totalBlocks_setFree]
  have hle : h'.freeBlocksCount.toNat ≤ h'.totalBlocks.toNat := by
    rw [htot]
    omega
  refine ⟨hh, hle, by omega, ?_⟩
  rw [PartitionHeader.toNat_used hle, PartitionHeader.toNat_used hfree, htot]
  omega

/-! ## The file that is written -/

/-- The file a call creates, with content `x` in `n` blocks. -/
def created (path : Path) (x : List UInt8) : File where
  name := cstr path.get 0 255
  payload := (List.range (blocksFor 4096 x.length)).map (chunk 4096 x)
  size := lastLen 4096 x.length

theorem created_ok (path : Path) {x : List UInt8} (hx : 0 < x.length) : (created path x).Ok where
  payload_pos := by
    show 0 < ((List.range _).map _).length
    rw [List.length_map, List.length_range]
    exact blocksFor_pos (by decide) hx
  size_pos := lastLen_pos (by decide) _
  size_le := lastLen_le (by decide) _
  name_le := length_cstr_le _ _ _

@[simp] theorem length_payload_created (path : Path) (x : List UInt8) :
    (created path x).payload.length = blocksFor 4096 x.length := by
  simp [created]

/-- **The content of a created file is what was written.** -/
theorem content_created (path : Path) {x : List UInt8} (hx : 0 < x.length)
    (hlt : x.length < 2 ^ 64) : (created path x).content = x := by
  have hlen : (created path x).length = x.length := by
    unfold File.length
    have hpos := (created_ok path hx).payload_pos
    rw [if_neg (by omega), length_payload_created]
    show ((blocksFor 4096 x.length - 1) * 4096 + lastLen 4096 x.length) % 2 ^ 64 = _
    rw [length_of_blocks (by decide) hx]
    exact Nat.mod_eq_of_lt hlt
  rw [(created_ok path hx).content_eq, hlen]
  exact joinBlocks_chunk (by decide) (le_blocksFor_mul (by decide) _)

/-- `size` as the source computes it. -/
theorem toNat_lastSize (n : UInt64) :
    (if n % 4096 = 0 then 4096 else n % 4096).toNat = lastLen 4096 n.toNat := by
  have hmod : (n % 4096).toNat = n.toNat % 4096 := UInt64.toNat_mod _ _
  have hiff : n % 4096 = 0 ↔ n.toNat % 4096 = 0 := by
    rw [← UInt64.toNat_inj, hmod]
    rfl
  unfold lastLen
  by_cases h : n % 4096 = 0
  · rw [if_pos h, if_pos (hiff.mp h)]
    rfl
  · rw [if_neg h, if_neg (fun h' => h (hiff.mpr h')), hmod]

/-- The members of the header of a new file. -/
theorem get_fillHeader_new (path : Path) (assigned required final : UInt64) (m : HeaderMember) :
    (fillHeader path none assigned required final).get m =
      match m with
      | .magic => 0xABF5
      | .flags => 8
      | .sectionCount => required.toNat
      | .size => lastLen 4096 final.toNat
      | .blockSize => 4096
      | .payloadOffset => (assigned + 1).toNat := by
  have hlast := lastLen_le (show 0 < 4096 by decide) final.toNat
  have hlast' : lastLen 4096 final.toNat % 256 ^ 2 = lastLen 4096 final.toNat :=
    Nat.mod_eq_of_lt (by omega)
  have hreq : required.toNat % 256 ^ 8 = required.toNat := Nat.mod_eq_of_lt required.toNat_lt
  have hpo : (assigned + 1).toNat % 256 ^ 8 = (assigned + 1).toNat :=
    Nat.mod_eq_of_lt (assigned + 1).toNat_lt
  have hflag : isFileFlag.toNat % 256 ^ 4 = 8 := rfl
  cases m <;>
    simp only [fillHeader, get_copyPath, AbtrFSDiskHeader.get_set, reduceCtorEq, if_false, if_true,
      headerLayout, toNat_lastSize, hlast', hreq, hpo, hflag, AbtrFSDiskHeader.magic_fits,
      AbtrFSDiskHeader.blockSize_fits]

/-- The header of a new file describes it, whatever its payload holds. -/
theorem isHeader_fillHeader_of {f : File} (path : Path) {assigned required final : UInt64}
    (hname : f.name = cstr path.get 0 255) (hreq : required.toNat = f.payload.length)
    (hsize : f.size = lastLen 4096 final.toNat) (ha : assigned.toNat + 1 < 2 ^ 64) :
    IsHeader (fillHeader path none assigned required final).bytes f assigned.toNat := by
  have hget := get_fillHeader_new path assigned required final
  have hone : (assigned + 1).toNat = assigned.toNat + 1 := Word.toNat_add_of_lt ha
  refine ⟨?_, ?_, ?_, ?_, ?_⟩
  · show AbtrFSDiskHeader.isFile (fillHeader path none assigned required final) = true
    unfold AbtrFSDiskHeader.isFile AbtrFSDiskHeader.magic AbtrFSDiskHeader.flags
    rw [hget .magic, hget .flags]
    show decide (UInt16.ofNat 0xABF5 = 0xABF5 ∧ UInt32.ofNat 8 &&& isFileFlag ≠ 0) = true
    decide
  · show (UInt64.ofNat ((fillHeader path none assigned required final).get .sectionCount)).toNat = _
    rw [hget .sectionCount, UInt64.ofNat_toNat, hreq]
  · show (UInt16.ofNat ((fillHeader path none assigned required final).get .size)).toNat = _
    have hlast := lastLen_le (show 0 < 4096 by decide) final.toNat
    rw [hget .size, hsize]
    show lastLen 4096 final.toNat % 2 ^ 16 = _
    exact Nat.mod_eq_of_lt (by omega)
  · show (UInt64.ofNat ((fillHeader path none assigned required final).get .payloadOffset)).toNat = _
    rw [hget .payloadOffset, UInt64.ofNat_toNat, hone]
  · rw [hname]
    exact str_copyPath _ _

/-- **The header of a created file** describes it. -/
theorem isHeader_fillHeader (path : Path) {assigned required final : UInt64} {x : List UInt8}
    (hx : x.length = final.toNat) (hreq : required.toNat = blocksFor 4096 final.toNat)
    (ha : assigned.toNat + 1 < 2 ^ 64) :
    IsHeader (fillHeader path none assigned required final).bytes (created path x) assigned.toNat :=
  isHeader_fillHeader_of path rfl (by rw [length_payload_created, hreq, hx])
    (show lastLen 4096 x.length = _ by rw [hx]) ha

/-! ## The call -/

/-- The planned writes of a call. -/
def callWrites (fs : AbtrFS) (path : Path) (data : List UInt8) (off : UInt64)
    (found : Option AbtrFSDiskHeader) (expanded : List UInt8) (h : PartitionHeader) :
    List (UInt64 × Block) :=
  let final := finalSize found data off
  let required := requiredBlocks final
  plannedWrites found (fillHeader path found fs.partitionHeader.used required final)
    fs.partitionHeader.used required expanded h

/-- How a call ends once the walk has answered: with nothing to write, without room, after some of its
    writes, or out of its array. `R` is what is known of the old content and of the reads made by then. -/
inductive WriteEnds (c : Conditions) (fs : AbtrFS) (path : Path) (data : List UInt8) (off : UInt64)
    (found : Option AbtrFSDiskHeader) (R : List UInt8 → Nat → Prop) (m : Machine) :
    Option (ErrorCode × AbtrFS) → Machine → Prop
  | empty {m' : Machine} (h0 : finalSize found data off = 0) (hq : Quiet m m') :
      WriteEnds c fs path data off found R m (some (.invalidParameters, fs)) m'
  | wild {m' : Machine} (h0 : finalSize found data off ≠ 0) (old : List UInt8) (hR : R old m'.reads)
      (hx : expandedData (finalSize found data off) old data off = none) (hq : Quiet m m') :
      WriteEnds c fs path data off found R m none m'
  | full {m' : Machine} (h0 : finalSize found data off ≠ 0) (old expanded : List UInt8)
      (hx : expandedData (finalSize found data off) old data off = some expanded)
      (hc : claimBlocks fs.partitionHeader found (requiredBlocks (finalSize found data off)) = none)
      (hq : Quiet m m') : WriteEnds c fs path data off found R m (some (.noSpaceLeft, fs)) m'
  | wrote {m' : Machine} (h0 : finalSize found data off ≠ 0) (h : PartitionHeader)
      (old expanded : List UInt8) (k : Nat)
      (hc : claimBlocks fs.partitionHeader found (requiredBlocks (finalSize found data off)) = some h)
      (hR : R old m'.reads) (hx : expandedData (finalSize found data off) old data off = some expanded)
      (hw : Wrote c (callWrites fs path data off found expanded h) k m m') :
      WriteEnds c fs path data off found R m
        (some (if k = (callWrites fs path data off found expanded h).length then .success
            else .writeFailed, { fs with partitionHeader := h })) m'

/-- The old content as a call knows it after `r'` reads: none for a new file, else what the nested read
    gave when it started after `r` reads, and nothing when that read failed. -/
def OldKnown (c : Conditions) (files : List File) (path : Path) (m : Machine) (r : Nat)
    (found : Option AbtrFSDiskHeader) (old : List UInt8) (r' : Nat) : Prop :=
  match found with
  | none => old = [] ∧ r' = r
  | some _ => ∃ m₁ res, Quiet m m₁ ∧ m₁.reads = r ∧ ReadEnds c files path none 0 m₁ res r'
      ∧ (res.1 = .ok old ∨ (∃ e, res.1 = .error e) ∧ old = [])

theorem Quiet.wrote {m m₁ m' : Machine} {ws : List (UInt64 × Block)} {k : Nat} (hq : Quiet m m₁)
    (hw : Wrote c ws k m₁ m') : Wrote c ws k m m' := by
  obtain ⟨hle, hok, hstop, hdisk, hlog⟩ := hw
  rw [hq.writes] at hok hstop
  rw [hq.disk] at hdisk
  rw [hq.log] at hlog
  exact ⟨hle, hok, hstop, hdisk, hlog⟩

/-- A call may be seen from an earlier machine, and with more or less known of the old content. -/
theorem WriteEnds.imp {R R' : List UInt8 → Nat → Prop} {m₀ m m' : Machine}
    {res : Option (ErrorCode × AbtrFS)} (hends : WriteEnds c fs path data off found R m res m')
    (hq₀ : Quiet m₀ m) (h : ∀ old r, R old r → R' old r) :
    WriteEnds c fs path data off found R' m₀ res m' := by
  cases hends with
  | empty h0 hq => exact .empty h0 (hq₀.trans hq)
  | wild h0 old hR hx hq => exact .wild h0 old (h _ _ hR) hx (hq₀.trans hq)
  | full h0 old expanded hx hc hq => exact .full h0 old expanded hx hc (hq₀.trans hq)
  | wrote h0 p old expanded k hc hR hx hw =>
      exact .wrote h0 p old expanded k hc (h _ _ hR) hx (hq₀.wrote hw)

/-- **The rest of a call**, when the old content is read with `R`. -/
theorem runs_writeFound {R : List UInt8 → Nat → Prop} {m : Machine}
    (hv : fs.deviceHandle ≠ invalidHandle)
    (hold : ∀ m₁, Still m m₁ → Runs c.Generous (oldContent (honest c) fs path found) m₁
      (fun old m₂ => Quiet m₁ m₂ ∧ R old m₂.reads)) :
    Runs c.Generous (writeFound (honest c) fs path data off found).caught m
      (WriteEnds c fs path data off found R m) := by
  unfold writeFound
  refine Runs.caught_ite (fun h0 => ?_) (fun h0 => ?_)
  · exact Runs.caught_pure (.empty h0 (Quiet.refl m))
  · refine (runs_operatorNew _ m).caught_bind ?_
    rintro _ m₁ hs
    refine (hold m₁ hs).caught_bind ?_
    rintro old m₂ ⟨hq, hR⟩
    have hq' := hs.1.trans hq
    cases hexp : expandedData (finalSize found data off) old data off with
    | none => exact Runs.caught_wild (.wild h0 old hR hexp hq')
    | some expanded =>
        simp only
        cases hc : claimBlocks fs.partitionHeader found (requiredBlocks (finalSize found data off)) with
        | none => exact Runs.caught_pure (.full h0 old expanded hexp hc hq')
        | some h =>
            simp only
            have hwrite : Runs c.Generous (writeAll (honest c) { fs with partitionHeader := h }
                (callWrites fs path data off found expanded h)) m₂
                (fun ok m' => ∃ k, ok = decide (k = (callWrites fs path data off found expanded h).length)
                  ∧ Wrote c (callWrites fs path data off found expanded h) k m₂ m'
                  ∧ m'.reads = m₂.reads) := by
              obtain ⟨k, m', hrun, hw, hr⟩ := run_writeAll (c := c)
                (show ({ fs with partitionHeader := h } : AbtrFS).deviceHandle ≠ invalidHandle from hv)
                (callWrites fs path data off found expanded h) m₂
              exact Runs.of_ok hrun ⟨k, rfl, hw, hr⟩
            refine hwrite.caught_bind ?_
            rintro ok m' ⟨k, hok, hw, hr⟩
            rw [← hr] at hR
            have hends := WriteEnds.wrote (R := R) h0 h old expanded k hc hR hexp (hq'.wrote hw)
            by_cases hk : k = (callWrites fs path data off found expanded h).length
            · rw [if_pos (by rw [hok]; exact decide_eq_true hk)]
              rw [if_pos hk] at hends
              exact Runs.caught_pure hends
            · rw [if_neg (by rw [hok]; simpa using hk)]
              rw [if_neg hk] at hends
              exact Runs.caught_pure hends

theorem runs_oldContent {m : Machine} (hvol : Front fs m.disk files path) (hpath : chopPath path ≠ [])
    (found : Option AbtrFSDiskHeader) :
    Runs c.Generous (oldContent (honest c) fs path found) m
      (fun old m' => Quiet m m' ∧ OldKnown c files path m m.reads found old m'.reads) := by
  cases found with
  | none => exact Runs.pure ⟨Quiet.refl m, rfl, rfl⟩
  | some header =>
      refine (runs_readFile hvol hpath none 0).bind ?_
      rintro res m' ⟨hq, hends⟩
      cases hres : res.1 with
      | ok bytes => exact Runs.pure ⟨hq, m, res, Quiet.refl m, rfl, hends, Or.inl hres⟩
      | error e => exact Runs.pure ⟨hq, m, res, Quiet.refl m, rfl, hends, Or.inr ⟨⟨e, hres⟩, rfl⟩⟩

/-- The array always has room for the data when the end of the write does not wrap. -/
theorem expandedData_ne_none (h : off.toNat + data.length < 2 ^ 64) (old : List UInt8) :
    expandedData (finalSize found data off) old data off ≠ none := by
  have hlen := Dynarr.length_resized old (finalSize found data off).toNat
  have hfinal := toNat_finalSize found h
  obtain ⟨x, hx, _⟩ := putBytes_eq off 0 data (Dynarr.resized old (finalSize found data off).toNat)
    (by omega) (by rw [hlen]; exact UInt64.toNat_lt _)
  unfold expandedData
  rw [hx]
  exact Option.some_ne_none x

/-- Bytes put one by one went to indices inside the array. -/
theorem lt_of_putBytes {off : UInt64} {i : Nat} {data buf x : List UInt8}
    (h : putBytes off i data buf = some x) :
    ∀ k < data.length, (off + UInt64.ofNat (i + k)).toNat < buf.length := by
  induction data generalizing i buf with
  | nil => simp
  | cons y data ih =>
      simp only [putBytes] at h
      split at h
      · rename_i hlt
        intro k hk
        cases k with
        | zero => exact hlt
        | succ k =>
            have := ih h k (by simpa using hk)
            rwa [List.length_set, show i + 1 + k = i + (k + 1) by omega] at this
      · cases h

/-- **A write whose end wraps leaves the array.** -/
theorem lt_of_expandedData {final : UInt64} {old x : List UInt8} (h : expandedData final old data off = some x) :
    off.toNat + data.length < 2 ^ 64 := by
  by_contra hge
  -- the byte that would go to the last index of all
  have hoff := off.toNat_lt
  have hlt := lt_of_putBytes h (2 ^ 64 - 1 - off.toNat) (by omega)
  rw [Nat.zero_add, Dynarr.length_resized] at hlt
  have hk : (UInt64.ofNat (2 ^ 64 - 1 - off.toNat)).toNat = 2 ^ 64 - 1 - off.toNat :=
    Word.toNat_ofNat (by omega)
  rw [Word.toNat_add_of_lt (by rw [hk]; omega), hk] at hlt
  have := final.toNat_lt
  omega

/-- The file system object once the name is in the tree. -/
def AbtrFS.withName (fs : AbtrFS) (path : Path) : AbtrFS :=
  { fs with rootNode := fs.rootNode.insert (chopPath path) }

theorem Volume.withName {disk : Nat → Block} (hvol : Volume fs disk files) (path : Path) :
    Volume (fs.withName path) disk files :=
  ⟨hvol.mounted, hvol.handle, hvol.free_le, hvol.laid⟩

theorem Front.withName {disk : Nat → Block} (hvol : Front fs disk files path) :
    Front (fs.withName path) disk files path := ⟨hvol.mounted, hvol.handle, hvol.laid⟩

/-- **`writeFile` on a volume.** -/
theorem runs_writeFile {m : Machine} (hvol : Front fs m.disk files path) (hpath : chopPath path ≠ []) :
    Runs c.Generous (writeFile (honest c) fs path data off).caught m
      (fun res m' => ∃ o r, ScanEnds c.readOk m.disk path files 1 m.reads (some (o, r))
        ∧ WriteEnds c (fs.withName path) path data off o (OldKnown c files path m r o) m res m') := by
  unfold writeFile
  rw [if_neg (by simp [hvol.mounted]), if_neg hpath]
  refine (runs_findOrCreateNode (chopPath path) fs.rootNode m).caught_bind ?_
  rintro root m₁ ⟨⟨hq₁, hr₁⟩, rfl⟩
  have hvol' := hvol.withName
  show Runs _ (Prog.caught (findFileHeader (honest c) (fs.withName path) path >>= _)) m₁ _
  refine (runs_findFileHeader (m := m₁) (by rw [hq₁.disk]; exact hvol')).caught_bind ?_
  rintro o m₂ ⟨hq₂, hs⟩
  rw [hq₁.disk, hr₁] at hs
  have hq := hq₁.trans hq₂
  refine (runs_writeFound (R := OldKnown c files path m m₂.reads o) hvol'.handle ?_).imp ?_
  · rintro m₃ ⟨hq₃, hr₃⟩
    have hvol₃ : Front (fs.withName path) m₃.disk files path := by
      rw [(hq.trans hq₃).disk]
      exact hvol'
    refine (runs_oldContent hvol₃ hpath o).imp ?_
    rintro old m₄ ⟨hq₄, hold⟩
    refine ⟨hq₄, ?_⟩
    rw [hr₃] at hold
    cases o with
    | none => exact hold
    | some header =>
        obtain ⟨m₅, res, hq₅, hr₅, hends, hres⟩ := hold
        exact ⟨m₅, res, (hq.trans hq₃).trans hq₅, hr₅, hends, hres⟩
  · exact fun res m' hends => ⟨o, m₂.reads, hs, hends.imp hq fun _ _ h => h⟩

/-- A call whose end does not wrap never leaves its array. -/
theorem runs_writeFile_of_lt {m : Machine} (hvol : Front fs m.disk files path) (hpath : chopPath path ≠ [])
    (hoff : off.toNat + data.length < 2 ^ 64) :
    Runs c.Generous (writeFile (honest c) fs path data off) m
      (fun res m' => ∃ o r, ScanEnds c.readOk m.disk path files 1 m.reads (some (o, r))
        ∧ WriteEnds c (fs.withName path) path data off o (OldKnown c files path m r o) m
            (some res) m') := by
  apply (runs_writeFile hvol hpath).of_caught
  rintro m' ⟨o, r, _, hends⟩
  cases hends with
  | wild _ old _ hx _ => exact expandedData_ne_none hoff old hx

end AlopexOS
