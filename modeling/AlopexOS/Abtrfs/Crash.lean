import AlopexOS.Abtrfs.NewFile

/-!
# `Abtrfs.Crash` — creating a file on a machine that may stop

The block writes of a creation go behind the used blocks, all but the last: that one replaces the
partition header, and with it the new file comes into sight. So whichever prefix of them reaches the
disk, a file system mounted afterwards finds the old files, and the new one when the prefix is complete.
-/

namespace AlopexOS

open Packed ByteString CString Prog

variable {c : Conditions} {fs fs₀ : AbtrFS} {path : Path} {files : List File} {data : List UInt8}
  {off : UInt64} {m m₀ : Machine} {base hhdm : UInt64} {handle : Handle}

/-! ## Mounting -/

/-- The object mounted on a disk. -/
def mountedOn (fs₀ : AbtrFS) (base hhdm : UInt64) (handle : Handle) (disk : Nat → Block) : AbtrFS :=
  { attach fs₀ base hhdm handle with partitionHeader := ⟨disk 0⟩, isMounted := true }

theorem run_mount (hv : handle ≠ invalidHandle) (hok : c.readOk m.reads = true)
    (hmagic : PartitionHeader.magic ⟨m.disk 0⟩ = volumeMagic) :
    (mount (honest c) fs₀ base hhdm handle).run m
      = (.ok (true, mountedOn fs₀ base hhdm handle m.disk), { m with reads := m.reads + 1 }) := by
  have hv' : (attach fs₀ base hhdm handle).deviceHandle ≠ invalidHandle := hv
  have hzero : m.disk (0 : UInt64).toNat = m.disk 0 := rfl
  simp only [mount, run_bind, run_readBlock hv', andThen_ok, hok, if_true, hzero, hmagic, and_self]
  rfl

theorem run_mountExisting (hv : handle ≠ invalidHandle) (hok : c.readOk m.reads = true)
    (hmagic : PartitionHeader.magic ⟨m.disk 0⟩ = volumeMagic) :
    (mountExisting (honest c) fs₀ base hhdm handle).run m
      = (.ok (mountedOn fs₀ base hhdm handle m.disk), { m with reads := m.reads + 1 }) := by
  have hv' : (attach fs₀ base hhdm handle).deviceHandle ≠ invalidHandle := hv
  have hzero : m.disk (0 : UInt64).toNat = m.disk 0 := rfl
  simp only [mountExisting, run_bind, run_readBlock hv', andThen_ok, hok, if_true, hzero, hmagic,
    and_self]
  rfl

/-- A mounted object has the partition header of the disk, and that is one of a volume. -/
theorem mount_inv (h : (mount (honest c) fs₀ base hhdm handle).run m₀ = (.ok (true, fs), m)) :
    fs.partitionHeader = ⟨m.disk 0⟩ ∧ fs.partitionHeader.magic = volumeMagic := by
  obtain ⟨r, m₁, hread, hrest⟩ := bind_eq_ok h
  by_cases hv : (attach fs₀ base hhdm handle).deviceHandle = invalidHandle
  · simp only [readBlock, hv, if_true, run_pure] at hread
    obtain ⟨rfl, rfl⟩ : (false, _) = r ∧ m₀ = m₁ := by simpa using hread
    simp at hrest
  · rw [run_readBlock hv] at hread
    obtain ⟨hr, rfl⟩ := Prod.mk.inj hread
    obtain rfl := Except.ok.inj hr
    by_cases hok : c.readOk m₀.reads = true
    · simp only [hok, if_true, true_and] at hrest
      split at hrest
      · rename_i hmagic
        obtain ⟨hfs, rfl⟩ := Prod.mk.inj hrest
        obtain ⟨_, rfl⟩ := Prod.mk.inj (Except.ok.inj hfs)
        exact ⟨rfl, hmagic⟩
      · simp at hrest
    · simp [hok] at hrest

/-! ## Any prefix of the writes -/

variable {k : Nat} {disk' : Nat → Block}

@[simp] theorem length_fileWrites :
    (fileWrites fs path data off).length = blocksFor 4096 (off.toNat + data.length) + 2 := by
  rw [fileWrites, length_newWrites]

/-- Before the last write the disk is mounted as the old volume. -/
theorem volume_mountedOn_old {h : PartitionHeader} {header : Block} {x : List UInt8}
    (hvol : Volume fs m.disk files) (hsuper : fs.partitionHeader = ⟨m.disk 0⟩)
    (hc : Creation fs path x k h header m.disk disk') (hk : k ≠ blocksFor 4096 x.length + 2)
    (hv : handle ≠ invalidHandle) : Volume (mountedOn fs₀ base hhdm handle disk') disk' files := by
  have hend := hvol.laid.end_eq
  have hzero := hc.superblock (by omega)
  rw [if_neg hk] at hzero
  have hheader : (mountedOn fs₀ base hhdm handle disk').partitionHeader = fs.partitionHeader := by
    rw [hsuper, mountedOn, hzero]
  refine ⟨rfl, hv, ?_, ?_⟩
  · rw [hheader]
    exact hvol.free_le
  · rw [hheader]
    exact hc.kept hvol.laid

/-- After the last write it is mounted as the volume with the new file. -/
theorem volume_mountedOn_new {h : PartitionHeader} {header : Block} {x : List UInt8}
    (hvol : Volume fs m.disk files) (hc : Creation fs path x k h header m.disk disk')
    (hk : k = blocksFor 4096 x.length + 2) (hv : handle ≠ invalidHandle) :
    Volume (mountedOn fs₀ base hhdm handle disk') disk' (files ++ [created path x]) := by
  have hend := hvol.laid.end_eq
  have hzero := hc.superblock (by omega)
  rw [if_pos hk] at hzero
  have hheader : (mountedOn fs₀ base hhdm handle disk').partitionHeader = h := by
    rw [mountedOn, hzero]
  have hvol' := hc.volume hvol (by omega)
  refine ⟨rfl, hv, ?_, ?_⟩
  · rw [hheader]
    exact hvol'.free_le
  · rw [hheader]
    exact hvol'.laid

/-- The magic number stays. -/
theorem magic_mountedOn {h : PartitionHeader} {header : Block} {x : List UInt8}
    (hvol : Volume fs m.disk files) (hsuper : fs.partitionHeader = ⟨m.disk 0⟩)
    (hmagic : fs.partitionHeader.magic = volumeMagic)
    (hc : Creation fs path x k h header m.disk disk') :
    PartitionHeader.magic ⟨disk' 0⟩ = volumeMagic := by
  have hend := hvol.laid.end_eq
  rw [hc.superblock (by omega)]
  split
  · show h.magic = volumeMagic
    rw [hc.claimed, PartitionHeader.magic_setFree, hmagic]
  · rw [← hsuper, hmagic]

/-- **A creation cut short** leaves a disk with the old files, and the new one when it was complete. -/
theorem writeFile_crash_safe {c₀ : Conditions}
    (hmount : (mount (honest c₀) fs₀ base hhdm handle).run m₀ = (.ok (true, fs), m))
    (hvol : WellLaidOut fs m.disk files) (hlen : path.str.length ≤ 254)
    (hseg : ∃ b ∈ path.str, b ≠ slash) (habsent : ∀ f ∈ files, f.name ≠ path.str)
    (hpos : 0 < off.toNat + data.length) (hoff : off.toNat + data.length + 4096 ≤ 2 ^ 64)
    (hfree : 1 + blocksFor 4096 (off.toNat + data.length) ≤ fs.partitionHeader.freeBlocksCount.toNat) :
    ∃ ws : List (Nat × Block),
      (∀ c : Conditions, (∀ i, c.readOk i = true) →
        Runs c.Generous (writeFile (honest c) fs path data off) m fun res m' =>
          ∃ k ≤ ws.length, m'.disk = applyWrites (ws.take k) m.disk ∧ m'.log = m.log ++ ws.take k
            ∧ (∀ i < k, c.writeOk (m.writes + i) = true)
            ∧ (k < ws.length → c.writeOk (m.writes + k) = false)
            ∧ res.1 = if k = ws.length then .success else .writeFailed)
      ∧ ∀ k ≤ ws.length, ∀ (c : Conditions) (m₁ : Machine), (∀ i, c.readOk i = true) →
        m₁.disk = applyWrites (ws.take k) m.disk →
        ∀ (fs₁ : AbtrFS) (base' hhdm' : UInt64) (handle' : Handle), handle' ≠ invalidHandle →
          ∃ fs₂ m₂, (mount (honest c) fs₁ base' hhdm' handle').run m₁ = (.ok (true, fs₂), m₂)
            ∧ (mountExisting (honest c) fs₁ base' hhdm' handle').run m₁ = (.ok fs₂, m₂)
            ∧ (∀ f ∈ files, ∀ q : Path, q.str = f.name →
              Reads c fs m q (readResult files q) ∧ Reads c fs₂ m₂ q (readResult files q))
            ∧ Reads c fs₂ m₂ path
                (if k = ws.length then .ok (newContent off data) else .error .fileNotFound) := by
  have hnamed : ∀ f ∈ files, ¬ f.Named path := fun f hf hn => habsent f hf hn.1.symm
  have hx : 0 < (newContent off data).length := by
    rw [length_newContent]
    exact hpos
  obtain ⟨hsuper, hmagic⟩ := mount_inv hmount
  refine ⟨fileWrites fs path data off, ?_, ?_⟩
  · intro c hread
    refine (runs_writeFile_absent hvol.toVolume (chopPath_ne_nil hseg) hnamed hoff).imp ?_
    rintro res m' hends
    cases hends with
    | empty h0 _ => omega
    | full _ hfull _ => exact absurd hfree (Nat.not_le_of_lt hfull)
    | wrote _ _ k hc hok hstop hlog =>
        have hle := hc.le
        have hdisk := hc.disk
        rw [length_newContent] at hle hdisk
        rw [length_fileWrites]
        exact ⟨k, hle, hdisk, hlog, hok, hstop, rfl⟩
  · intro k hk c m₁ hread hdisk fs₁ base' hhdm' handle' hv
    rw [length_fileWrites] at hk ⊢
    have hc := creation_newContent fs path hvol.free_le hoff hfree hk m.disk
    rw [← hdisk] at hc
    have hmagic' := magic_mountedOn hvol.toVolume hsuper hmagic hc
    refine ⟨_, _, run_mount hv (hread _) hmagic', run_mountExisting hv (hread _) hmagic', ?_⟩
    have hlenx : blocksFor 4096 (newContent off data).length
        = blocksFor 4096 (off.toNat + data.length) := by rw [length_newContent]
    by_cases hall : k = blocksFor 4096 (off.toNat + data.length) + 2
    · -- complete: the new partition header is on the disk
      have hvol' : Volume (mountedOn fs₁ base' hhdm' handle' m₁.disk)
          ({ m₁ with reads := m₁.reads + 1 } : Machine).disk (files ++ [created path (newContent off data)]) :=
        volume_mountedOn_new hvol.toVolume hc (by rw [hlenx]; exact hall) hv
      rw [if_pos hall]
      refine ⟨fun f hf q hq => ⟨reads_volume hvol.toVolume hread q, ?_⟩, ?_⟩
      · have hold := reads_volume hvol' hread q
        rwa [readResult_append_of_not] at hold
        rintro ⟨hname, _⟩
        rw [name_created hlen, hq] at hname
        exact habsent f hf hname
      · have hself := reads_volume hvol' hread path
        rwa [readResult_append_self (chopPath_ne_nil hseg) hnamed (named_created hlen _),
          content_created path hx (by rw [length_newContent]; omega)] at hself
    · -- cut short: the old one still is
      have hvol' : Volume (mountedOn fs₁ base' hhdm' handle' m₁.disk)
          ({ m₁ with reads := m₁.reads + 1 } : Machine).disk files :=
        volume_mountedOn_old hvol.toVolume hsuper hc (by rw [hlenx]; exact hall) hv
      rw [if_neg hall]
      refine ⟨fun f hf q hq => ⟨reads_volume hvol.toVolume hread q, reads_volume hvol' hread q⟩, ?_⟩
      have hself := reads_volume hvol' hread path
      rwa [readResult_absent (chopPath_ne_nil hseg) hnamed] at hself

theorem mount_layDisk (ps : List (Path × List UInt8)) :
    (mount (honest workingMachine) AbtrFS.init 0 0 0).run (Machine.start (layDisk ps))
      = (.ok (true, layFs ps), ⟨layDisk ps, 0, 1, 0, []⟩) :=
  run_mount (show (0 : UInt64) ≠ invalidHandle by decide) rfl (magic_usedHeader _)

/-- There are volumes and calls it is about. -/
theorem writeFile_crash_safe_a : ∃ ws : List (Nat × Block),
    Runs workingMachine.Generous
      (writeFile (honest workingMachine) (layFs [(pathB, [7])]) pathA [1, 2] 0)
      ⟨layDisk [(pathB, [7])], 0, 1, 0, []⟩
      fun res _ => ∃ k ≤ ws.length, res.1 = if k = ws.length then .success else .writeFailed := by
  have habsent : ∀ f ∈ layFiles [(pathB, [7])], f.name ≠ pathA.str := by
    intro f hf
    rw [name_b f hf, str_pathA]
    decide
  obtain ⟨ws, hcall, _⟩ := @writeFile_crash_safe _ _ _ _ [1, 2] 0 _ _ _ _ _ _
    (mount_layDisk [(pathB, [7])]) wellLaidOut_b (by rw [str_pathA]; decide)
    (by rw [str_pathA]; decide) habsent (by decide) (by decide) (by decide +kernel)
  refine ⟨ws, (hcall workingMachine fun _ => rfl).imp ?_⟩
  rintro res m' ⟨k, hk, _, _, _, _, hres⟩
  exact ⟨k, hk, hres⟩

/-- A call right after mounting that asks for more than the kernel heap has. -/
def largeCreation : Except Fault (ErrorCode × AbtrFS) × Machine :=
  (writeFile (honest workingMachine) (layFs []) pathA [1] 0x1000000).run ⟨layDisk [], 0, 1, 0, []⟩

/-- **A creation larger than the heap makes no write**, and the file is not there afterwards although no
    write of the call is missing. -/
theorem largeCreation_halts :
    WellLaidOut (layFs []) (layDisk []) []
    ∧ 1 + blocksFor 4096 ((0x1000000 : UInt64).toNat + [(1 : UInt8)].length)
        ≤ (layFs []).partitionHeader.freeBlocksCount.toNat
    ∧ largeCreation.1 = .error .hang ∧ largeCreation.2.writes = 0
    ∧ ((exists' (honest workingMachine) (mountedOn AbtrFS.init 0 0 0 largeCreation.2.disk) pathA).run
        largeCreation.2).1 = .ok .fileNotFound := by
  refine ⟨wellLaidOut_layDisk (by simp) (by decide) .nil, by decide +kernel, ?_, by decide +kernel,
    by decide +kernel⟩
  exact eq_error_of_stopped (by decide +kernel)

end AlopexOS
