import AlopexOS.Abtrfs.Volumes
import AlopexOS.Kernel.HeapRuns

/-!
# `Abtrfs.NewFile` — creating a file, end to end

On a volume in order, and a device that works, `writeFile` with a new path appends a file: it refuses
exactly when there is no room, and afterwards the new file reads back as zeros up to the offset and then
the data, the old ones as before. All this is about calls that come back. The kernel heap has 16 MiB and
`operator new` halts the machine beyond, while `writeFile` asks for as many bytes as the file will have
before it looks for room on the volume.
-/

namespace AlopexOS

open Packed ByteString CString Prog

variable {c : Conditions} {fs : AbtrFS} {path : Path} {files : List File} {data : List UInt8}
  {off : UInt64}

/-! ## Paths and names -/

theorem chopPath_ne_nil (h : ∃ b ∈ path.str, b ≠ slash) : chopPath path ≠ [] := by
  intro hnil
  obtain ⟨b, hb, hne⟩ := h
  exact hne ((chopPath_eq_nil path).mp hnil b hb)

/-- The name of a created file is as much of the path as the header has room for. -/
theorem name_created_eq_take (path : Path) (x : List UInt8) :
    (created path x).name = path.str.take 255 := cstr_eq_take (by decide)

/-- All of it, when that fits. -/
theorem name_created (hlen : path.str.length ≤ 254) (x : List UInt8) :
    (created path x).name = path.str := by
  rw [name_created_eq_take, List.take_of_length_le (Nat.le_succ_of_le hlen)]

theorem named_created (hlen : path.str.length ≤ 254) (x : List UInt8) : (created path x).Named path :=
  ⟨(name_created hlen x).symm, hlen⟩

/-- A file with another name does not change what is read. -/
theorem readResult_append_of_not {q : Path} {f : File} (hf : ¬ f.Named q) :
    readResult (files ++ [f]) q = readResult files q := by
  unfold readResult
  rw [List.find?_append]
  cases files.find? (fun g => decide (g.Named q)) with
  | some g => rfl
  | none => simp [hf]

/-- A new file is what is read from its path. -/
theorem readResult_append_self {f : File} (hseg : chopPath path ≠ [])
    (hm : ∀ g ∈ files, ¬ g.Named path) (hf : f.Named path) :
    readResult (files ++ [f]) path = .ok f.content := by
  unfold readResult
  rw [if_neg hseg, find_first hm hf]

theorem readResult_absent (hseg : chopPath path ≠ []) (hm : ∀ g ∈ files, ¬ g.Named path) :
    readResult files path = .error .fileNotFound := by
  unfold readResult
  rw [if_neg hseg, find_absent hm]

/-! ## The call -/

/-- **`writeFile` with a path that names no file**, when the walk is not cut short. -/
theorem runs_writeFile_absent {m : Machine} (hvol : Volume fs m.disk files) (hseg : chopPath path ≠ [])
    (hm : ∀ f ∈ files, ¬ f.Named path) (hoff : off.toNat + data.length + 4096 ≤ 2 ^ 64) :
    Runs c.Generous (writeFile (honest c) fs path data off) m
      (CreateEnds c (fs.withName path) path data off m) := by
  refine (runs_writeFile_of_lt (hvol.front path) hseg (by omega)).imp ?_
  rintro res m' ⟨o, r, hs, hends⟩
  obtain rfl := hs.eq_none hm
  exact hends.new hvol.free_le hoff fun old r hold => hold.1

/-- A volume with all of a new file on it. -/
theorem Creation.volume {x : List UInt8} {k : Nat} {h : PartitionHeader} {header : Block}
    {disk disk' : Nat → Block} (hc : Creation fs path x k h header disk disk')
    (hvol : Volume fs disk files) (hk : blocksFor 4096 x.length < k) :
    Volume { fs with partitionHeader := h } disk' (files ++ [created path x]) :=
  ⟨hvol.mounted, hvol.handle, hc.free_le, hc.laid_new hvol.laid hk⟩

theorem pairwise_append_created (hlen : path.str.length ≤ 254) (x : List UInt8)
    (hdist : files.Pairwise fun f g => f.name ≠ g.name) (habsent : ∀ f ∈ files, f.name ≠ path.str) :
    (files ++ [created path x]).Pairwise fun f g => f.name ≠ g.name := by
  rw [List.pairwise_append]
  refine ⟨hdist, List.pairwise_singleton _ _, ?_⟩
  intro f hf g hg
  rw [List.mem_singleton.mp hg, name_created hlen]
  exact habsent f hf

/-! ## The kernel heap -/

/-- A machine whose device works and whose `operator new` finds what fits the empty kernel heap. -/
def workingMachine : Conditions where
  newOk _ n := decide (Heap.requestSize (UInt64.ofNat n) ≤ Heap.heapSize - Heap.headerSize)
  readOk _ := true
  writeOk _ := true
  residue _ := Bytes.zero
  walkBound := 2 ^ 64

/-- What this machine refuses, `operator new` refuses in every state of the heap. -/
theorem workingMachine_refuses {B : Heap.HeapBuffer} {h : Heap.HeapState} {blocks free : List Nat}
    {fuel k n : Nat} (hi : Heap.Inv B h blocks free) (hb : h.heapInitialized = true)
    (hfuel : Heap.heapSize / Heap.headerSize < fuel) (hn : workingMachine.newOk k n = false) :
    Heap.allocateMemory B fuel (UInt64.ofNat n) h = some (0, h) :=
  Heap.allocateMemory_null_of_large hi hb hfuel (Nat.lt_of_not_le (of_decide_eq_false hn))

/-- A machine that was just started with a disk. -/
def Machine.start (disk : Nat → Block) : Machine := ⟨disk, 0, 0, 0, []⟩

/-- The paths of two files. -/
def pathA : Path := Path.ofBytes [0x61]

def pathB : Path := Path.ofBytes [0x62]

theorem str_pathA : pathA.str = [0x61] := by decide +kernel

theorem str_pathB : pathB.str = [0x62] := by decide +kernel

/-- A path longer than the walk compares. -/
def longPath : Path := Path.ofBytes (List.replicate 255 0x61)

theorem str_longPath : longPath.str = List.replicate 255 0x61 :=
  str_ofBytes (fun h => absurd (List.eq_of_mem_replicate h) (by decide))
    (by rw [List.length_replicate]; decide)

/-- The volume with one file, `b`. -/
theorem wellLaidOut_b : WellLaidOut (layFs [(pathB, [7])]) (layDisk [(pathB, [7])])
    (layFiles [(pathB, [7])]) :=
  wellLaidOut_layDisk (by simp) (by decide) (List.pairwise_singleton _ _)

theorem name_b : ∀ f ∈ layFiles [(pathB, [7])], f.name = [0x62] := by decide +kernel

/-- **Creating a file.** -/
theorem writeFile_creates {m : Machine} (hvol : WellLaidOut fs m.disk files)
    (hlen : path.str.length ≤ 254) (hseg : ∃ b ∈ path.str, b ≠ slash)
    (habsent : ∀ f ∈ files, f.name ≠ path.str) (hpos : 0 < off.toNat + data.length)
    (hoff : off.toNat + data.length < 2 ^ 63) (hread : ∀ k, c.readOk k = true)
    (hwrite : ∀ k, c.writeOk k = true) :
    Runs c.Generous (writeFile (honest c) fs path data off) m fun res m' =>
      (res.1 = .noSpaceLeft ↔
        fs.partitionHeader.freeBlocksCount.toNat < 1 + blocksFor 4096 (off.toNat + data.length))
      ∧ (res.1 ≠ .noSpaceLeft → res.1 = .success
        ∧ (∃ f : File, f.name = path.str ∧ f.content = newContent off data
            ∧ WellLaidOut res.2 m'.disk (files ++ [f]))
        ∧ Reads c res.2 m' path (.ok (newContent off data))
        ∧ ∀ f ∈ files, ∀ q : Path, q.str = f.name →
            Reads c fs m q (readResult files q) ∧ Reads c res.2 m' q (readResult files q)) := by
  have hnamed : ∀ f ∈ files, ¬ f.Named path := fun f hf hn => habsent f hf hn.1.symm
  refine (runs_writeFile_absent hvol.toVolume (chopPath_ne_nil hseg) hnamed (by omega)).imp ?_
  rintro res m' hends
  cases hends with
  | empty h0 _ => omega
  | full _ hfull _ => exact ⟨⟨fun _ => hfull, fun _ => rfl⟩, fun h => absurd rfl h⟩
  | wrote _ hfit k hc _ hstop _ =>
      have hx : 0 < (newContent off data).length := by
        rw [length_newContent]
        exact hpos
      -- no write failed, so all of them were made
      have hk : k = blocksFor 4096 (off.toNat + data.length) + 2 := by
        have hle := hc.le
        rw [length_newContent] at hle
        by_contra hne
        have := hstop (by omega)
        rw [hwrite] at this
        cases this
      have hvol' := hc.volume (hvol.toVolume.withName path) (by rw [length_newContent]; omega)
      rw [if_pos hk]
      refine ⟨⟨fun h => absurd h (by simp), fun h => ?_⟩, fun _ => ⟨rfl, ?_, ?_, ?_⟩⟩
      · have : (fs.withName path).partitionHeader = fs.partitionHeader := rfl
        rw [this] at hfit
        omega
      · refine ⟨_, name_created hlen (newContent off data), content_created path hx ?_, hvol', ?_, ?_⟩
        · rw [length_newContent]
          omega
        · exact List.forall_mem_append.mpr
            ⟨hvol.ok, List.forall_mem_singleton.mpr (created_ok path hx)⟩
        · exact pairwise_append_created hlen _ hvol.distinct habsent
      · have hself := reads_volume hvol' hread path
        rwa [readResult_append_self (chopPath_ne_nil hseg) hnamed (named_created hlen _),
          content_created path hx (by rw [length_newContent]; omega)] at hself
      · intro f hf q hq
        refine ⟨reads_volume hvol.toVolume hread q, ?_⟩
        have hold := reads_volume hvol' hread q
        rwa [readResult_append_of_not] at hold
        rintro ⟨hname, _⟩
        rw [name_created hlen, hq] at hname
        exact habsent f hf hname

/-- It is about volumes and calls there are. -/
theorem writeFile_creates_a :
    Runs workingMachine.Generous
      (writeFile (honest workingMachine) (layFs [(pathB, [7])]) pathA [1, 2] 0)
      (Machine.start (layDisk [(pathB, [7])])) fun res m' =>
        res.1 ≠ .noSpaceLeft → Reads workingMachine res.2 m' pathA (.ok (newContent 0 [1, 2])) := by
  refine (writeFile_creates wellLaidOut_b (by rw [str_pathA]; decide)
    (by rw [str_pathA]; decide) ?_ (by decide) (by decide) (fun _ => rfl) (fun _ => rfl)).imp ?_
  · intro f hf
    rw [name_b f hf, str_pathA]
    decide
  · exact fun res m' h hne => (h.2 hne).2.2.1

/-- **A file larger than the heap halts the machine**, however much room the volume has. -/
theorem writeFile_new_halts :
    WellLaidOut (layFs []) (layDisk []) []
    ∧ 1 + blocksFor 4096 ((0x1000000 : UInt64).toNat + [(1 : UInt8)].length)
        ≤ (layFs []).partitionHeader.freeBlocksCount.toNat
    ∧ ((writeFile (honest workingMachine) (layFs []) pathA [1] 0x1000000).run
        (Machine.start (layDisk []))).1 = .error .hang := by
  refine ⟨wellLaidOut_layDisk (by simp) (by decide) .nil, by decide +kernel, ?_⟩
  exact eq_error_of_stopped (by decide +kernel)

end AlopexOS
