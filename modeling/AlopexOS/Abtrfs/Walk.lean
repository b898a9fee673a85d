import AlopexOS.Abtrfs.Volumes

/-!
# `Abtrfs.Walk` — the header walk on a disk with anything on it

`findFileHeader` follows counts that it finds on the disk, up to a bound that is the difference of two
numbers from the disk. Here the disk is arbitrary and the device answers every read, so that the only
question is which blocks the walk asks for, and whether it ever stops asking.

## Contents
- **The device** that answers and keeps a list of the blocks it was asked for.
- **`Reached`**: where headers lead when block numbers do not wrap.
- **The walk is orderly** exactly when no reached count is too large, nor a reached block too high.
-/

namespace AlopexOS

open Packed Prog

/-! ## The device -/

/-- A device that answers every read with its disk. The state lists the blocks that were read. -/
def answering (disk : Nat → Block) (bound : Nat) : Platform (List UInt64) where
  operatorNew _ := pure ()
  submitRead _ b := ⟨fun trace => (.ok (true, disk b.toNat), trace ++ [b])⟩
  submitWrite _ _ _ := pure true
  walkBound := bound

/-- The reads of a walk over `total` blocks go up and stay inside. -/
structure OrderlyReads (total : Nat) (trace : List UInt64) : Prop where
  increasing : trace.Pairwise (· < ·)
  inside : ∀ b ∈ trace, 1 ≤ b.toNat ∧ b.toNat < total
  few : trace.length ≤ total - 1

/-- The walk comes to an end, after reads in order, for every object that `mount` made from the disk. -/
def WalkEnds (disk : Nat → Block) (path : Path) : Prop :=
  ∀ (fs₀ fs : AbtrFS) (base hhdm : UInt64) (handle : Handle) (k : Nat) (trace₀ trace₁ : List UInt64),
    (mount (answering disk k) fs₀ base hhdm handle).run trace₀ = (.ok (true, fs), trace₁) →
      ∃ bound o trace, (findFileHeader (answering disk bound) fs path).run [] = (.ok o, trace)
        ∧ OrderlyReads fs.partitionHeader.totalBlocks.toNat trace

/-! ## Where headers lead -/

/-- The walk stops at this block. -/
def IsSought (disk : Nat → Block) (path : Path) (b : Nat) : Prop :=
  AbtrFSDiskHeader.isFile ⟨disk b⟩ = true
    ∧ isPathEqual path (AbtrFSDiskHeader.pathByte ⟨disk b⟩) = true

instance (disk : Nat → Block) (path : Path) (b : Nat) : Decidable (IsSought disk path b) :=
  inferInstanceAs (Decidable (_ ∧ _))

/-- How far a block sends the walk, as a number without bounds. -/
def stride (blk : Block) : Nat :=
  if AbtrFSDiskHeader.magic ⟨blk⟩ = 0xABF5 then 1 + (AbtrFSDiskHeader.sectionCount ⟨blk⟩).toNat else 1

/-- Block `b` is reached from block `a`, over blocks that are not the one sought. -/
inductive Reached (disk : Nat → Block) (path : Path) (b : Nat) : Nat → Prop
  | here : Reached disk path b b
  | on {a : Nat} (hno : ¬ IsSought disk path a) (h : Reached disk path b (a + stride (disk a))) :
      Reached disk path b a

/-- Every block that is reached below the end of the walk is one of the volume, and it is the one sought
    or its count leads to a block number that fits in 64 bits. -/
def Walkable (disk : Nat → Block) (path : Path) (h : PartitionHeader) : Prop :=
  ∀ b, Reached disk path b 1 → b < h.used.toNat →
    b < h.totalBlocks.toNat ∧ (IsSought disk path b ∨ b + stride (disk b) < 2 ^ 64)

variable {disk : Nat → Block} {path : Path} {used curr : UInt64} {a b : Nat}

theorem stride_pos (blk : Block) : 0 < stride blk := by
  unfold stride
  split <;> omega

theorem Reached.le (h : Reached disk path b a) : a ≤ b := by
  induction h with
  | here => exact Nat.le_refl b
  | on hno h ih => exact Nat.le_trans (Nat.le_add_right _ _) ih

/-- The walk steps as far as `stride` says, and then wraps. -/
theorem toNat_add_skip (curr : UInt64) (blk : Block) :
    (curr + AbtrFSDiskHeader.skip ⟨blk⟩).toNat = (curr.toNat + stride blk) % 2 ^ 64 := by
  have hskip : (AbtrFSDiskHeader.skip ⟨blk⟩).toNat = stride blk % 2 ^ 64 := by
    unfold AbtrFSDiskHeader.skip stride
    by_cases hm : AbtrFSDiskHeader.magic ⟨blk⟩ = 0xABF5
    · by_cases hc : 0 < AbtrFSDiskHeader.sectionCount ⟨blk⟩
      · rw [if_pos ⟨hm, hc⟩, if_pos hm, UInt64.toNat_add]
        rfl
      · rw [if_neg fun h => hc h.2, if_pos hm]
        rw [UInt64.lt_iff_toNat_lt] at hc
        rw [Nat.eq_zero_of_not_pos hc]
        rfl
    · rw [if_neg fun h => hm h.1, if_neg hm]
      rfl
  rw [UInt64.toNat_add, hskip, Nat.add_mod_mod]

/-! ## The walk -/

variable {fs : AbtrFS} {bound : Nat}

/-- One round: the block at `curr` is read, and the walk stops there or goes on behind it. -/
theorem run_walk_succ (hv : fs.deviceHandle ≠ invalidHandle) (n : Nat) (hlt : curr < used)
    (buffer : Block) (trace : List UInt64) :
    (walk (answering disk bound) fs path used (n + 1) curr buffer).run trace =
      if IsSought disk path curr.toNat then (.ok (some ⟨disk curr.toNat⟩), trace ++ [curr])
      else (walk (answering disk bound) fs path used n
        (curr + AbtrFSDiskHeader.skip ⟨disk curr.toNat⟩) (disk curr.toNat)).run (trace ++ [curr]) := by
  have hread : (readBlock (answering disk bound) fs curr buffer).run trace
      = (.ok (true, disk curr.toNat), trace ++ [curr]) := by
    simp only [readBlock, hv, if_false, answering]
  simp only [walk, hlt, if_true, run_bind, hread, andThen_ok]
  by_cases h : IsSought disk path curr.toNat
  · rw [if_pos h, if_pos (show _ ∧ _ from h)]
    rfl
  · rw [if_neg h, if_neg (show ¬ (_ ∧ _) from h)]

theorem run_walk_end (n : Nat) (hge : ¬ curr < used) (buffer : Block) (trace : List UInt64) :
    (walk (answering disk bound) fs path used (n + 1) curr buffer).run trace = (.ok none, trace) := by
  simp only [walk, hge, if_false, run_pure]

/-- **A walk over small counts** ends and reads upwards. -/
theorem run_walk_orderly (hv : fs.deviceHandle ≠ invalidHandle) {total : Nat} (n : Nat)
    (curr : UInt64) (buffer : Block) (trace : List UInt64) (hn : used.toNat - curr.toNat < n)
    (hgood : ∀ b, Reached disk path b curr.toNat → b < used.toNat →
      b < total ∧ (IsSought disk path b ∨ b + stride (disk b) < 2 ^ 64)) :
    ∃ o new, (walk (answering disk bound) fs path used n curr buffer).run trace = (.ok o, trace ++ new)
      ∧ new.Pairwise (· < ·) ∧ ∀ b ∈ new, curr.toNat ≤ b.toNat ∧ b.toNat < total := by
  induction n generalizing curr buffer trace with
  | zero => omega
  | succ n ih =>
      by_cases hlt : curr < used
      · rw [run_walk_succ hv n hlt]
        have hlt' := UInt64.lt_iff_toNat_lt.mp hlt
        obtain ⟨htotal, hnext⟩ := hgood curr.toNat .here hlt'
        by_cases hs : IsSought disk path curr.toNat
        · rw [if_pos hs]
          refine ⟨_, [curr], rfl, List.pairwise_singleton _ _, ?_⟩
          intro b hb
          rw [List.mem_singleton.mp hb]
          exact ⟨Nat.le_refl _, htotal⟩
        · rw [if_neg hs]
          -- the count does not wrap, so the next block is the one it leads to
          have hfits := hnext.resolve_left hs
          have hcurr' := toNat_add_skip curr (disk curr.toNat)
          rw [Nat.mod_eq_of_lt hfits] at hcurr'
          have hpos := stride_pos (disk curr.toNat)
          obtain ⟨o, new, hrun, hup, hin⟩ := ih (curr + AbtrFSDiskHeader.skip ⟨disk curr.toNat⟩)
            (disk curr.toNat) (trace ++ [curr]) (by omega) (by
              rw [hcurr']
              exact fun b hb => hgood b (.on hs hb))
          refine ⟨o, curr :: new, by rw [hrun, List.append_assoc]; rfl, ?_, ?_⟩
          · refine List.pairwise_cons.mpr ⟨fun b hb => ?_, hup⟩
            have := (hin b hb).1
            rw [UInt64.lt_iff_toNat_lt]
            omega
          · refine List.forall_mem_cons.mpr ⟨⟨Nat.le_refl _, htotal⟩, fun b hb => ?_⟩
            have := hin b hb
            constructor
            · omega
            · exact this.2
      · rw [run_walk_end n hlt]
        exact ⟨none, [], by rw [List.append_nil], .nil, by simp⟩

/-- A walk adds to the trace, first its own block when it is not over. -/
theorem trace_run_walk (hv : fs.deviceHandle ≠ invalidHandle) {n : Nat} {curr : UInt64}
    {buffer : Block} {trace trace' : List UInt64} {o : Option AbtrFSDiskHeader}
    (hrun : (walk (answering disk bound) fs path used n curr buffer).run trace = (.ok o, trace')) :
    ∃ new, trace' = trace ++ new ∧ (curr < used → ∃ rest, new = curr :: rest) := by
  induction n generalizing curr buffer trace with
  | zero => exact absurd hrun (by simp [walk])
  | succ n ih =>
      by_cases hlt : curr < used
      · rw [run_walk_succ hv n hlt] at hrun
        by_cases hs : IsSought disk path curr.toNat
        · rw [if_pos hs] at hrun
          obtain ⟨_, rfl⟩ := Prod.mk.inj hrun
          exact ⟨[curr], rfl, fun _ => ⟨[], rfl⟩⟩
        · rw [if_neg hs] at hrun
          obtain ⟨new, rfl, _⟩ := ih hrun
          exact ⟨curr :: new, by rw [List.append_assoc]; rfl, fun _ => ⟨new, rfl⟩⟩
      · rw [run_walk_end n hlt] at hrun
        obtain ⟨_, rfl⟩ := Prod.mk.inj hrun
        exact ⟨[], (List.append_nil _).symm, fun h => absurd h hlt⟩

/-- **A walk that ended in order** met small counts only. -/
theorem good_of_run_walk (hv : fs.deviceHandle ≠ invalidHandle) {total n : Nat} {curr : UInt64}
    {buffer : Block} {trace new : List UInt64} {o : Option AbtrFSDiskHeader}
    (hrun : (walk (answering disk bound) fs path used n curr buffer).run trace = (.ok o, trace ++ new))
    (hup : new.Pairwise (· < ·)) (hin : ∀ b ∈ new, b.toNat < total)
    (hb : Reached disk path b curr.toNat) (hused : b < used.toNat) :
    b < total ∧ (IsSought disk path b ∨ b + stride (disk b) < 2 ^ 64) := by
  induction n generalizing curr buffer trace new with
  | zero => exact absurd hrun (by simp [walk])
  | succ n ih =>
      have hlt' : curr.toNat < used.toNat := Nat.lt_of_le_of_lt hb.le hused
      have hlt : curr < used := UInt64.lt_iff_toNat_lt.mpr hlt'
      rw [run_walk_succ hv n hlt] at hrun
      by_cases hs : IsSought disk path curr.toNat
      · rw [if_pos hs] at hrun
        obtain rfl : new = [curr] := (List.append_cancel_left (Prod.mk.inj hrun).2).symm
        -- nothing lies behind the block sought
        cases hb with
        | here => exact ⟨hin _ (by simp), Or.inl hs⟩
        | on hno _ => exact absurd hs hno
      · rw [if_neg hs] at hrun
        obtain ⟨new', hnew, hhead⟩ := trace_run_walk hv hrun
        obtain rfl : new = curr :: new' := by
          rw [List.append_assoc] at hnew
          exact List.append_cancel_left hnew
        obtain ⟨hfirst, hup'⟩ := List.pairwise_cons.mp hup
        have hnext := toNat_add_skip curr (disk curr.toNat)
        -- had the count wrapped, the walk would go on at or before this block
        have hfits : curr.toNat + stride (disk curr.toNat) < 2 ^ 64 := by
          by_contra hge
          have hle : stride (disk curr.toNat) ≤ 2 ^ 64 := by
            unfold stride
            have := (AbtrFSDiskHeader.sectionCount ⟨disk curr.toNat⟩).toNat_lt
            split <;> omega
          have hback : (curr + AbtrFSDiskHeader.skip ⟨disk curr.toNat⟩).toNat ≤ curr.toNat := by
            have := curr.toNat_lt
            omega
          obtain ⟨rest, rfl⟩ := hhead (UInt64.lt_iff_toNat_lt.mpr (by omega))
          have := UInt64.lt_iff_toNat_lt.mp (hfirst _ List.mem_cons_self)
          omega
        rw [Nat.mod_eq_of_lt hfits] at hnext
        cases hb with
        | here => exact ⟨hin _ (by simp), Or.inr hfits⟩
        | on hno hrest =>
            rw [← hnext] at hrest
            rw [hnew] at hrun
            exact ih hrun hup' (fun b hb => hin b (by simp [hb])) hrest

/-! ## The whole search -/

/-- Reads that go up inside a volume are few. -/
theorem length_le_of_increasing {total : Nat} {trace : List UInt64} (hup : trace.Pairwise (· < ·))
    (hin : ∀ b ∈ trace, a ≤ b.toNat ∧ b.toNat < total) : trace.length ≤ total - a := by
  induction trace generalizing a with
  | nil => exact Nat.zero_le _
  | cons w trace ih =>
      obtain ⟨hfirst, hup⟩ := List.pairwise_cons.mp hup
      obtain ⟨hw, hin⟩ := List.forall_mem_cons.mp hin
      have hle : trace.length ≤ total - (w.toNat + 1) :=
        ih hup fun b hb => ⟨UInt64.lt_iff_toNat_lt.mp (hfirst b hb), (hin b hb).2⟩
      rw [List.length_cons]
      omega

/-- The search asks for a buffer and walks from block 1. -/
theorem run_findFileHeader_answering (trace : List UInt64) :
    (findFileHeader (answering disk bound) fs path).run trace
      = (walk (answering disk bound) fs path fs.partitionHeader.used bound 1
          AbtrFSDiskHeader.init.bytes).run trace := rfl

/-- A disk with the right magic number is mounted as it is. -/
theorem run_mount_answering {fs₀ : AbtrFS} {base hhdm : UInt64} {handle : Handle}
    (hv : handle ≠ invalidHandle) (hmagic : PartitionHeader.magic ⟨disk 0⟩ = volumeMagic)
    (trace : List UInt64) :
    (mount (answering disk bound) fs₀ base hhdm handle).run trace
      = (.ok (true, { attach fs₀ base hhdm handle with partitionHeader := ⟨disk 0⟩, isMounted := true }),
          trace ++ [0]) := by
  have hread : (readBlock (answering disk bound) (attach fs₀ base hhdm handle) 0
      (attach fs₀ base hhdm handle).partitionHeader.bytes).run trace
        = (.ok (true, disk 0), trace ++ [0]) := by
    have hv' : (attach fs₀ base hhdm handle).deviceHandle ≠ invalidHandle := hv
    simp only [readBlock, hv', if_false, answering]
    rfl
  simp only [mount, run_bind, hread, andThen_ok, hmagic, and_self, if_true, run_pure]

/-- What a successful mount leaves. -/
theorem mount_answering_inv {fs₀ : AbtrFS} {base hhdm : UInt64} {handle : Handle}
    {trace trace' : List UInt64}
    (h : (mount (answering disk bound) fs₀ base hhdm handle).run trace = (.ok (true, fs), trace')) :
    fs.deviceHandle ≠ invalidHandle ∧ fs.partitionHeader = ⟨disk 0⟩ := by
  obtain ⟨r, trace₁, hread, hrest⟩ := bind_eq_ok h
  by_cases hv : handle = invalidHandle
  · have hv' : (attach fs₀ base hhdm handle).deviceHandle = invalidHandle := hv
    simp only [readBlock, hv', if_true, run_pure, Prod.mk.injEq, Except.ok.injEq] at hread
    obtain ⟨rfl, _⟩ := hread
    simp at hrest
  · have hv' : (attach fs₀ base hhdm handle).deviceHandle ≠ invalidHandle := hv
    simp only [readBlock, hv', if_false, answering, Prod.mk.injEq, Except.ok.injEq] at hread
    obtain ⟨rfl, _⟩ := hread
    simp only [true_and] at hrest
    split at hrest
    · simp only [run_pure, Prod.mk.injEq, Except.ok.injEq, true_and] at hrest
      obtain ⟨rfl, _⟩ := hrest
      exact ⟨hv, rfl⟩
    · simp at hrest

/-- **When the header walk ends on a mounted disk.** -/
theorem walkEnds_iff (hmagic : PartitionHeader.magic ⟨disk 0⟩ = volumeMagic) :
    WalkEnds disk path ↔ Walkable disk path ⟨disk 0⟩ := by
  constructor
  · intro h b hb hused
    obtain ⟨bound, o, trace, hrun, hreads⟩ := h AbtrFS.init _ 0 0 0 0 [] _
      (run_mount_answering (by decide) hmagic [])
    rw [run_findFileHeader_answering] at hrun
    exact good_of_run_walk (by simp [attach, invalidHandle]) hrun hreads.increasing
      (fun b hb => (hreads.inside b hb).2) hb hused
  · intro h fs₀ fs base hhdm handle k trace₀ trace₁ hmount
    obtain ⟨hv, hheader⟩ := mount_answering_inv hmount
    rw [← hheader] at h
    obtain ⟨bound, hbound⟩ : ∃ n : Nat, 2 ^ 64 ≤ n := ⟨_, Nat.le_refl _⟩
    have hused := fs.partitionHeader.used.toNat_lt
    obtain ⟨o, trace, hrun, hup, hin⟩ := @run_walk_orderly disk path _ fs bound hv _ bound 1
      AbtrFSDiskHeader.init.bytes [] (show _ - 1 < _ by omega) h
    refine ⟨bound, o, trace, ?_, hup, hin, length_le_of_increasing hup hin⟩
    rw [run_findFileHeader_answering, hrun]
    rfl

/-! ## Disks -/

/-- A header sends the walk to the next file. -/
theorem IsHeader.stride_eq {blk : Block} {f : File} (h : IsHeader blk f a) : stride blk = f.span := by
  have hmagic : AbtrFSDiskHeader.magic ⟨blk⟩ = 0xABF5 := by
    have := h.isFile
    simp only [AbtrFSDiskHeader.isFile, decide_eq_true_eq] at this
    exact this.1
  rw [stride, if_pos hmagic, h.sectionCount, File.span]

/-- From a run of files only its headers are reached, and what follows the run. -/
theorem Reached.laid {files : List File} {x : Nat} (hr : Reached disk path x a) (hl : Laid disk a files b)
    (hx : x < b) : ∃ pre f post, files = pre ++ f :: post ∧ x = a + spanAll pre := by
  induction files generalizing a with
  | nil =>
      have := hr.le
      have hab : a = b := hl
      omega
  | cons f fs ih =>
      obtain ⟨hh, _, hrest⟩ := hl
      cases hr with
      | here => exact ⟨[], f, fs, rfl, rfl⟩
      | on hno hr =>
          rw [hh.stride_eq] at hr
          obtain ⟨pre, g, post, rfl, hxeq⟩ := ih hr hrest
          refine ⟨f :: pre, g, post, rfl, ?_⟩
          rw [hxeq, spanAll_cons]
          omega

/-- **A volume in order is walked in order**, whatever the files are. -/
theorem Volume.walkable {files : List File} (hvol : Volume fs disk files) (path : Path) :
    Walkable disk path fs.partitionHeader := by
  intro x hr hx
  obtain ⟨pre, f, post, rfl, rfl⟩ := hr.laid hvol.laid hx
  have hend := hvol.laid.end_eq
  have hused := PartitionHeader.toNat_used hvol.free_le
  have hlt := fs.partitionHeader.used.toNat_lt
  rw [spanAll_append, spanAll_cons] at hend
  constructor
  · omega
  · rw [hvol.laid.file.1.stride_eq]
    omega

/-- So the walk ends on it. -/
theorem walkEnds_layDisk :
    WalkEnds (layDisk [(Path.ofBytes [0x62], [7])]) (Path.ofBytes [0x61]) := by
  have hfit : 1 + spanAll (layFiles [(Path.ofBytes [0x62], [7])]) ≤ 204800 := by decide
  generalize [(Path.ofBytes [0x62], [(7 : UInt8)])] = ps at hfit ⊢
  have hheader : (⟨layDisk ps 0⟩ : PartitionHeader) = (layFs ps).partitionHeader := rfl
  have hmagic : PartitionHeader.magic ⟨layDisk ps 0⟩ = volumeMagic := magic_usedHeader _
  refine (walkEnds_iff hmagic).mpr ?_
  rw [hheader]
  exact (volume_layDisk hfit).walkable _

/-- A volume of ten blocks whose first header counts all the blocks there can be. -/
def endlessDisk (b : Nat) : Block :=
  if b = 0 then ((PartitionHeader.init.set .magic volumeMagic.toNat).set .totalBlocks 10).bytes
  else (AbtrFSDiskHeader.init.set .sectionCount (2 ^ 64 - 1)).bytes

/-- **A count that wraps keeps the walk at its block for ever.** -/
theorem endlessDisk_not_walkEnds :
    PartitionHeader.magic ⟨endlessDisk 0⟩ = volumeMagic
    ∧ ¬ WalkEnds endlessDisk (Path.ofBytes [0x61]) := by
  have hmagic : PartitionHeader.magic ⟨endlessDisk 0⟩ = volumeMagic := by decide +kernel
  refine ⟨hmagic, fun h => ?_⟩
  obtain ⟨_, hs | hfits⟩ := (walkEnds_iff hmagic).mp h 1 .here (by decide +kernel)
  · exact absurd hs (by decide +kernel)
  · exact absurd hfits (by decide +kernel)

end AlopexOS
