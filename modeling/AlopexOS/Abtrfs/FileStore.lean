import AlopexOS.Lib.BlockStore
import AlopexOS.Abtrfs.Windows
import AlopexOS.Abtrfs.Lookup
import AlopexOS.Abtrfs.FailedWrites

/-!
# `Abtrfs.FileStore` — a volume as a store of contents

What a volume is for: byte strings under names, and a count of free blocks. Names are the strings that paths
spell, of up to 254 bytes; a longer path makes a file that no path finds. Whatever comes of a call of
`writeFile` on a device that reads, it is what comes of a write on a `BlockStore`, failing block writes
included, as long as no file that is there is given more blocks.

## Contents
- **`contentOf`**: what is stored under a name.
- **`StoreOn`**: the disk has a volume that keeps the store.
- **One call of `writeFile`** is a write.
- **One call of `readFile`** or of `exists` answers from the store.
-/

namespace AlopexOS

open Packed ByteString CString Prog BlockStore

variable {c : Conditions} {fs fs' : AbtrFS} {path : Path} {files pre post : List File} {f : File}
  {data : List UInt8} {off : UInt64} {m m' : Machine} {disk : Nat → Block} {name x : List UInt8}
  {s s' : BlockStore (List UInt8)}

/-! ## Names and contents -/

/-- The name a path stands for, when it is one that can be found. -/
def nameOf (path : Path) : Option (List UInt8) := if path.str.length ≤ 254 then some path.str else none

/-- What is stored under a name: the first file that has it. -/
def contentOf (files : List File) (name : List UInt8) : Option (List UInt8) :=
  (files.find? fun f => decide (f.name = name ∧ name.length ≤ 254)).map File.content

theorem named_iff (f : File) (path : Path) : f.Named path ↔ nameOf path = some f.name := by
  unfold File.Named nameOf
  split
  · rename_i h
    simp [h]
  · rename_i h
    simp [h]

/-- **A path is looked up** where the walk finds it. -/
theorem bind_contentOf (files : List File) (path : Path) :
    (nameOf path).bind (contentOf files)
      = (files.find? fun f => decide (f.Named path)).map File.content := by
  unfold nameOf
  split
  · rename_i h
    show (files.find? fun f => decide (f.name = path.str ∧ path.str.length ≤ 254)).map File.content = _
    congr 2
    funext f
    rw [decide_eq_decide]
    exact and_congr_left fun _ => eq_comm
  · rename_i h
    rw [find_absent fun f _ hf => h hf.2]
    rfl

/-- A file that is written over, and is the first that the path names. -/
theorem contentOf_replace {g : File} (hname : g.name = f.name) (hpre : ∀ g ∈ pre, ¬ g.Named path)
    (hm : f.Named path) (hs : s.content = contentOf (pre ++ f :: post)) :
    (s.put (nameOf path) g.content).content = contentOf (pre ++ g :: post) := by
  funext v
  have hpath := (named_iff f path).mp hm
  by_cases hv : nameOf path = some v
  · have hfv : f.name = v := Option.some.inj (hpath.symm.trans hv)
    subst hfv
    have hlen : f.name.length ≤ 254 := hm.1 ▸ hm.2
    rw [hv, content_put_self, contentOf, List.find?_append, List.find?_eq_none.mpr]
    · rw [Option.none_or, List.find?_cons_of_pos (by simp [hname, hlen])]
      rfl
    · intro g' hg'
      have := hpre g' hg'
      rw [named_iff, hpath] at this
      simp only [decide_eq_true_eq, not_and]
      exact fun heq => absurd (congrArg some heq.symm) this
  · have hne : f.name ≠ v := fun heq => hv (heq ▸ hpath)
    rw [content_put_of_ne hv, hs, contentOf, contentOf, List.find?_append, List.find?_append,
      List.find?_cons_of_neg (by simp [hne]), List.find?_cons_of_neg (by simp [hname, hne])]

/-- A file that was made under a path that named none. -/
theorem contentOf_created (hx : 0 < x.length) (hlt : x.length < 2 ^ 64)
    (hno : ∀ f ∈ files, ¬ f.Named path) (hs : s.content = contentOf files) :
    (s.put (nameOf path) x).content = contentOf (files ++ [created path x]) := by
  have hname := name_created_eq_take path x
  funext v
  by_cases hv : nameOf path = some v
  · have hlen : path.str.length ≤ 254 := by
      unfold nameOf at hv
      split at hv
      · assumption
      · cases hv
    rw [nameOf, if_pos hlen] at hv
    obtain rfl := Option.some.inj hv
    have hnone : files.find? (fun f => decide (f.name = path.str ∧ path.str.length ≤ 254)) = none := by
      apply List.find?_eq_none.mpr
      intro g hg
      simp only [decide_eq_true_eq, not_and]
      exact fun heq _ => hno g hg ⟨heq.symm, hlen⟩
    rw [nameOf, if_pos hlen, content_put_self, contentOf, List.find?_append, hnone, Option.none_or,
      List.find?_cons_of_pos (by simp [name_created hlen, hlen])]
    show some x = some (created path x).content
    rw [content_created path hx hlt]
  · have hnew : ¬ ((created path x).name = v ∧ v.length ≤ 254) := by
      rintro ⟨rfl, hlen⟩
      rw [hname, List.length_take] at hlen
      have hshort : path.str.length ≤ 254 := by omega
      rw [nameOf, if_pos hshort, hname, List.take_of_length_le (by omega)] at hv
      exact hv rfl
    rw [content_put_of_ne hv, hs, contentOf, contentOf, List.find?_append,
      List.find?_cons_of_neg (by simpa using hnew)]
    simp

/-- The content of a file of which some first blocks were written over. -/
theorem content_overwritten_splice (h : f.Ok) (hx : f.length ≤ x.length) (j : Nat) :
    (f.overwritten x j).content = splice 4096 j f.content (x.take f.length) := by
  have hy : f.content.length = (x.take f.length).length := by
    rw [File.length_content, List.length_take]
    omega
  have hmax := h.length_le
  rw [(h.overwritten x j).content_eq, length_overwritten]
  have hlen : ((joinBlocks (f.overwritten x j).payload).take f.length).length = f.length := by
    rw [List.length_take, length_joinBlocks, length_payload_overwritten]
    omega
  have hlen' : (splice 4096 j f.content (x.take f.length)).length = f.length := by
    rw [length_splice hy, File.length_content]
  apply List.ext_getElem (hlen.trans hlen'.symm)
  intro i hi hi'
  rw [hlen] at hi
  have hdiv : i / 4096 < f.payload.length := by
    rw [Nat.div_lt_iff_lt_mul (by decide)]
    omega
  -- byte `i` on both sides, in block `i / 4096`
  have hsplice := getD_splice (n := 4096) hy j i
  rw [List.getD_eq_getElem _ _ hi'] at hsplice
  rw [hsplice, List.getElem_take, getElem_joinBlocks (by decide) _ (by rwa [length_payload_overwritten]),
    getElem_overwritten _ hdiv]
  have hiff : i / 4096 < j ↔ i < j * 4096 := Nat.div_lt_iff_lt_mul (by decide)
  by_cases hj : i < j * 4096
  · rw [if_pos hj, if_pos (hiff.mpr hj), List.getD_eq_getElem _ _ (by rw [← hy, File.length_content]; exact hi),
      List.getElem_take, Bytes.get_of_lt (Nat.mod_lt i (by decide))]
    show x.getD (i / 4096 * 4096 + i % 4096) 0 = _
    rw [Nat.div_add_mod', List.getD_eq_getElem _ _ (by omega)]
  · have hcontent : f.content.getD i 0 = (joinBlocks f.payload).getD i 0 := by
      rw [h.content_eq, List.getD_eq_getElem _ _ (by rw [List.length_take, length_joinBlocks]; omega),
        List.getElem_take, List.getD_eq_getElem]
    rw [if_neg hj, if_neg fun hc => hj (hiff.mp hc), hcontent,
      List.getD_eq_getElem _ _ (by rw [length_joinBlocks]; omega), getElem_joinBlocks (by decide) _ hdiv]

/-- The blocks of a file are those its content fills. -/
theorem File.Ok.blocksFor_length (h : f.Ok) (hsmall : f.payload.length * 4096 ≤ 2 ^ 63) :
    f.length ≤ 2 ^ 63 ∧ 0 < f.length ∧ blocksFor 4096 f.length = f.payload.length := by
  have hpos := h.payload_pos
  have hsize := h.size_le
  have hsize' := h.size_pos
  have hlen : f.length = (f.payload.length - 1) * 4096 + f.size := by
    unfold File.length
    rw [if_neg (by omega), Nat.mod_eq_of_lt (by omega)]
  have hmul : (f.payload.length - 1) * 4096 + 4096 = f.payload.length * 4096 := by omega
  refine ⟨by omega, by omega, Nat.le_antisymm ?_ ?_⟩
  · rw [blocksFor_le_iff (by decide)]
    omega
  · by_contra hlt
    have hle : blocksFor 4096 f.length ≤ f.payload.length - 1 := by omega
    rw [blocksFor_le_iff (by decide)] at hle
    omega

/-! ## Volumes -/

/-- **The disk has a volume that keeps the store.** Its files are as `writeFile` stores them, and their sizes
    in bytes are 64-bit words. -/
structure StoreOn (disk : Nat → Block) (s : BlockStore (List UInt8)) : Prop where
  files : ∃ files, VolumeOn disk files ∧ (∀ f ∈ files, f.Ok) ∧ s.content = contentOf files
  free : s.free = (PartitionHeader.freeBlocksCount ⟨disk 0⟩).toNat
  total_le : (PartitionHeader.totalBlocks ⟨disk 0⟩).toNat ≤ 2 ^ 51

/-- The object is mounted and knows the partition header that is on the disk. -/
structure InSync (fs : AbtrFS) (disk : Nat → Block) : Prop where
  mounted : fs.isMounted = true
  handle : fs.deviceHandle ≠ invalidHandle
  header : fs.partitionHeader = ⟨disk 0⟩

theorem VolumeOn.inSync (h : VolumeOn disk files) (hs : InSync fs disk) : Volume fs disk files :=
  ⟨hs.mounted, hs.handle, by rw [hs.header]; exact h.free_le, by rw [hs.header]; exact h.laid⟩

/-- The files of such a volume are small. -/
theorem VolumeOn.payload_le (h : VolumeOn disk files)
    (htotal : (PartitionHeader.totalBlocks ⟨disk 0⟩).toNat ≤ 2 ^ 51) (hf : f ∈ files) :
    f.payload.length * 4096 ≤ 2 ^ 63 := by
  obtain ⟨pre, post, rfl⟩ := List.append_of_mem hf
  obtain ⟨_, _, hrest⟩ := h.laid.file
  have hend := hrest.end_eq
  have hused := PartitionHeader.toNat_used h.free_le
  unfold File.span at hend
  omega

/-- **The empty volume** that `format` leaves. -/
theorem storeOn_format (disk : Nat → Block) :
    StoreOn (setBlock disk (0, formatHeader.bytes)) (blank 204799) := by
  have h0 : setBlock disk (0, formatHeader.bytes) 0 = formatHeader.bytes := if_pos rfl
  have hused : formatHeader.used.toNat = 1 := by decide +kernel
  refine ⟨⟨[], ⟨?_, ?_, ?_⟩, nofun, rfl⟩, ?_, ?_⟩
  · rw [h0]
    decide +kernel
  · rw [h0]
    decide +kernel
  · rw [h0]
    exact hused.symm
  · rw [h0]
    decide +kernel
  · rw [h0]
    decide +kernel

/-! ## A write -/

/-- No write changes the number of blocks. -/
theorem totalBlocks_claimBlocks {h h' : PartitionHeader} {found : Option AbtrFSDiskHeader} {required : UInt64}
    (hc : claimBlocks h found required = some h') : h'.totalBlocks = h.totalBlocks := by
  unfold claimBlocks at hc
  split at hc
  · split at hc
    · cases hc
    · rw [← Option.some.inj hc, PartitionHeader.totalBlocks_setFree]
  · split at hc
    · split at hc
      · cases hc
      · rw [← Option.some.inj hc, PartitionHeader.totalBlocks_setFree]
    · rw [← Option.some.inj hc]

theorem gives_totalBlocks_writeFile {σ : Type} {P : Platform σ} (data : List UInt8) (off : UInt64) :
    Gives (fun r => r.2.partitionHeader.totalBlocks = fs.partitionHeader.totalBlocks)
      (writeFile P fs path data off) := by
  unfold writeFile
  refine Gives.ite (Gives.pure rfl) (Gives.ite (Gives.pure rfl) (Gives.bind fun root => Gives.bind fun found => ?_))
  unfold writeFound
  refine Gives.ite (Gives.pure rfl) (Gives.bind fun _ => Gives.bind fun old => ?_)
  split
  · exact Gives.fail _
  · dsimp only
    split
    · exact Gives.pure rfl
    · rename_i hc
      have hclaim := totalBlocks_claimBlocks hc
      exact Gives.bind fun ok => Gives.ite (Gives.pure hclaim) (Gives.pure hclaim)

/-- What a call answers. -/
def answerOf : Outcome → ErrorCode
  | .empty => .invalidParameters
  | .full => .noSpaceLeft
  | .done => .success
  | .cut => .writeFailed

/-- A call that answers `res` and leaves `disk` was a write on the store `s`. Unless it was cut short, the
    object knows the disk afterwards. -/
def WritesOn (s : BlockStore (List UInt8)) (path : Path) (data : List UInt8) (off : UInt64)
    (res : ErrorCode × AbtrFS) (disk : Nat → Block) : Prop :=
  ∃ o s', res.1 = answerOf o ∧ s.Writes 4096 (nameOf path) ⟨off.toNat, data⟩ o s' ∧ StoreOn disk s'
    ∧ (o ≠ .cut → InSync res.2 disk)

theorem InSync.withName (h : InSync fs disk) (path : Path) : InSync (fs.withName path) disk :=
  ⟨h.mounted, h.handle, h.header⟩

/-- **A path that names no file.** -/
theorem writesOn_new {res : ErrorCode × AbtrFS} (hvol : VolumeOn m.disk files) (hok : ∀ f ∈ files, f.Ok)
    (hcontent : s.content = contentOf files) (hst : StoreOn m.disk s) (hsync : InSync fs m.disk)
    (hno : ∀ f ∈ files, ¬ f.Named path) (hsmall : off.toNat + data.length < 2 ^ 63)
    (hends : CreateEnds c (fs.withName path) path data off m res m') :
    WritesOn s path data off res m'.disk := by
  have hget : s.get (nameOf path) = none := by
    show (nameOf path).bind s.content = none
    rw [hcontent, bind_contentOf, find_absent hno]
    rfl
  have hfree : s.free = fs.partitionHeader.freeBlocksCount.toNat := by
    rw [hst.free, hsync.header]
  have hsync' := hsync.withName path
  cases hends with
  | empty h0 hq =>
      refine ⟨.empty, s, rfl, .empty hget h0, ?_, fun _ => ?_⟩
      · rw [hq.disk]
        exact hst
      · rw [hq.disk]
        exact hsync'
  | full hpos hfull hq =>
      refine ⟨.full, s, rfl, .full ?_, ?_, fun _ => ?_⟩
      · rw [hget, hfree]
        exact hfull
      · rw [hq.disk]
        exact hst
      · rw [hq.disk]
        exact hsync'
  | wrote hpos hfit k hc _ _ _ =>
      have hvol' : Volume (fs.withName path) m.disk files := hvol.inSync hsync'
      have hend := hvol'.laid.end_eq
      have hused : 0 < (fs.withName path).partitionHeader.used.toNat := by omega
      have hlen : (newContent off data).length = off.toNat + data.length := length_newContent
      have hroom : lacking 4096 ⟨off.toNat, data⟩ none ≤ s.free := by
        rw [hfree]
        exact hfit
      by_cases hk : k = blocksFor 4096 (off.toNat + data.length) + 2
      · rw [if_pos hk]
        have hsuper : m'.disk 0 = (newSuper (fs.withName path) data off).bytes := by
          rw [hc.superblock hused, hlen, if_pos hk]
        have hover : overlay [] data off.toNat = newContent off data := overlay_nil _ _
        refine ⟨.done, _, rfl, .made hget hpos hroom, ⟨⟨files ++ [created path (newContent off data)],
          ⟨?_, ?_, ?_⟩, ?_, ?_⟩, ?_, ?_⟩, fun _ => ⟨hsync.mounted, hsync.handle, ?_⟩⟩
        · exact magic_mountedOn hvol' hsync'.header (by rw [hsync'.header]; exact hvol.magic) hc
        · rw [hsuper]
          exact hc.free_le
        · rw [hsuper]
          exact hc.laid_new hvol'.laid (by rw [hlen]; omega)
        · refine List.forall_mem_append.mpr ⟨hok, List.forall_mem_singleton.mpr (created_ok path ?_)⟩
          rw [hlen]
          exact hpos
        · show (s.put (nameOf path) (overlay [] data off.toNat)).content = _
          rw [hover]
          exact contentOf_created (by rw [hlen]; exact hpos) (by rw [hlen]; omega) hno hcontent
        · -- the free count fell by what the used count rose
          have hused := hc.used
          have htotal : (newSuper (fs.withName path) data off).totalBlocks
              = fs.partitionHeader.totalBlocks := PartitionHeader.totalBlocks_setFree _ _
          rw [PartitionHeader.toNat_used hc.free_le, PartitionHeader.toNat_used hvol'.free_le, htotal, hlen]
            at hused
          have hle := hc.free_le
          rw [htotal] at hle
          have hle' : fs.partitionHeader.freeBlocksCount.toNat ≤ fs.partitionHeader.totalBlocks.toNat :=
            hvol'.free_le
          have hname : (fs.withName path).partitionHeader = fs.partitionHeader := rfl
          rw [hname] at hused
          rw [hsuper]
          show s.free - (1 + blocksFor 4096 (off.toNat + data.length)) = _
          rw [hfree]
          show _ = (newSuper (fs.withName path) data off).freeBlocksCount.toNat
          omega
        · rw [hsuper]
          show (newSuper (fs.withName path) data off).totalBlocks.toNat ≤ _
          rw [newSuper, PartitionHeader.totalBlocks_setFree, hsync'.header]
          exact hst.total_le
        · rw [hsuper]
      · rw [if_neg hk]
        have hsuper : m'.disk 0 = m.disk 0 := by
          rw [hc.superblock hused, hlen, if_neg hk]
        refine ⟨.cut, s, rfl, .unmade hget hpos hroom, ⟨⟨files, ⟨?_, ?_, ?_⟩, hok, hcontent⟩, ?_, ?_⟩,
          fun ho => absurd rfl ho⟩
        · rw [hsuper]
          exact hvol.magic
        · rw [hsuper]
          exact hvol.free_le
        · have hkept := hc.kept hvol'.laid
          rw [hsync'.header] at hkept
          rw [hsuper]
          exact hkept
        · rw [hsuper]
          exact hst.free
        · rw [hsuper]
          exact hst.total_le

/-- A call for a file that is there needs no more blocks than the header counts, or does not get them. -/
def WithinBlocks (c : Conditions) (fs : AbtrFS) (m : Machine) (path : Path) (data : List UInt8)
    (off : UInt64) : Prop :=
  ∀ n header r, lookUp c.readOk fs m.disk path n m.reads = some (some header, r) →
    requiredBlocks (finalSize (some header) data off) ≤ header.sectionCount
      ∨ claimBlocks fs.partitionHeader (some header) (requiredBlocks (finalSize (some header) data off)) = none

/-- What that is for a file of the volume. -/
theorem WithinBlocks.found (h : WithinBlocks c fs m path data off)
    (hvol : Volume fs m.disk (pre ++ f :: post)) (hpre : ∀ g ∈ pre, ¬ g.Named path) (hm : f.Named path)
    (hread : ∀ k, c.readOk k = true) (hsmall : off.toNat + data.length < 2 ^ 63) :
    newBlocks f data off ≤ f.payload.length
      ∨ fs.partitionHeader.freeBlocksCount.toNat < newBlocks f data off - f.payload.length := by
  have hscan := scan_laid c.readOk path 1 (n := (pre ++ f :: post).length + 1) m.reads hvol.laid rfl
    (Nat.le_refl _) (Or.inl rfl) (Nat.lt_succ_self _)
  obtain ⟨hh, _, _⟩ := hvol.laid.file
  generalize hres : scan c.readOk m.disk path fs.partitionHeader.used ((pre ++ f :: post).length + 1) 1 m.reads
    = res at hscan
  obtain ⟨o, r, rfl⟩ : ∃ o r, res = some (o, r) := by
    cases hscan with
    | absent _ _ => exact ⟨_, _, rfl⟩
    | found _ _ _ _ _ _ _ => exact ⟨_, _, rfl⟩
    | failed _ _ _ _ _ _ _ => exact ⟨_, _, rfl⟩
  obtain rfl := hscan.eq_some hpre hm hread
  have hroom : off.toNat + data.length < 2 ^ 64 := by omega
  have hreq := toNat_requiredBlocks_found hh hroom
  rcases h _ _ r ((if_neg hvol.handle).trans hres) with hle | hnone
  · rw [UInt64.le_iff_toNat_le, hreq, hh.sectionCount] at hle
    exact Or.inl hle
  · rw [claimBlocks_found_eq_none, hreq, hh.sectionCount] at hnone
    exact Or.inr hnone

/-- The blocks that a write wants for a small file. -/
theorem newBlocks_eq (hlen : f.length ≤ 2 ^ 63) (hsmall : off.toNat + data.length < 2 ^ 63) :
    newBlocks f data off = blocksFor 4096 (newLength f data off) := by
  unfold newBlocks
  apply if_pos
  unfold newLength
  omega

/-- **A file that was written over**, on a disk whose partition header says what it said. -/
theorem storeOn_overwritten {h : PartitionHeader} {k r : Nat} (hvol : VolumeOn disk (pre ++ f :: post))
    (hok : ∀ g ∈ pre ++ f :: post, g.Ok) (hcontent : s.content = contentOf (pre ++ f :: post))
    (hst : StoreOn disk s) (hpre : ∀ g ∈ pre, ¬ g.Named path) (hm : f.Named path)
    {disk' : Nat → Block} (hu : Update fs f (1 + spanAll pre) r x k h disk disk')
    (hin : min k r ≤ f.payload.length)
    (hmagic : PartitionHeader.magic ⟨disk' 0⟩ = PartitionHeader.magic ⟨disk 0⟩)
    (htotal : PartitionHeader.totalBlocks ⟨disk' 0⟩ = PartitionHeader.totalBlocks ⟨disk 0⟩)
    (hfree : PartitionHeader.freeBlocksCount ⟨disk' 0⟩ = PartitionHeader.freeBlocksCount ⟨disk 0⟩) :
    StoreOn disk' (s.put (nameOf path) (f.overwritten x (min k r)).content) := by
  obtain ⟨hokpre, hokpost⟩ := List.forall_mem_append.mp hok
  obtain ⟨hfok, hokpost⟩ := List.forall_mem_cons.mp hokpost
  refine ⟨⟨pre ++ f.overwritten x (min k r) :: post, ⟨?_, ?_, ?_⟩, ?_, ?_⟩, ?_, ?_⟩
  · rw [hmagic]
    exact hvol.magic
  · rw [hfree, htotal]
    exact hvol.free_le
  · rw [PartitionHeader.used, hfree, htotal]
    exact hu.laid_whole hvol.laid rfl hin
  · exact List.forall_mem_append.mpr ⟨hokpre, List.forall_mem_cons.mpr ⟨hfok.overwritten x _, hokpost⟩⟩
  · exact contentOf_replace (f := f) (g := f.overwritten x (min k r)) rfl hpre hm hcontent
  · rw [hfree]
    exact hst.free
  · rw [htotal]
    exact hst.total_le

/-- Headers with the same counts of used blocks and of blocks have the same count of free ones. -/
theorem free_eq_of_used {h h' : PartitionHeader} (hle : h.freeBlocksCount.toNat ≤ h.totalBlocks.toNat)
    (hle' : h'.freeBlocksCount.toNat ≤ h'.totalBlocks.toNat) (htotal : h'.totalBlocks = h.totalBlocks)
    (hused : h'.used.toNat = h.used.toNat) : h'.freeBlocksCount = h.freeBlocksCount := by
  rw [PartitionHeader.toNat_used hle, PartitionHeader.toNat_used hle', htotal] at hused
  rw [htotal] at hle'
  rw [← UInt64.toNat_inj]
  omega

/-- **A path that names a file.** -/
theorem writesOn_found {res : ErrorCode × AbtrFS} (hvol : VolumeOn m.disk (pre ++ f :: post))
    (hok : ∀ g ∈ pre ++ f :: post, g.Ok) (hcontent : s.content = contentOf (pre ++ f :: post))
    (hst : StoreOn m.disk s) (hsync : InSync fs m.disk) (hpre : ∀ g ∈ pre, ¬ g.Named path)
    (hm : f.Named path) (hsmall : off.toNat + data.length < 2 ^ 63)
    (hwithin : newBlocks f data off ≤ f.payload.length
      ∨ fs.partitionHeader.freeBlocksCount.toNat < newBlocks f data off - f.payload.length)
    (hmagic : res.2.partitionHeader.magic = fs.partitionHeader.magic)
    (htotal : res.2.partitionHeader.totalBlocks = fs.partitionHeader.totalBlocks)
    (hends : UpdateEnds c (fs.withName path) data off f (1 + spanAll pre) (fun old => old = f.content) m
      res m') :
    WritesOn s path data off res m'.disk := by
  have hget : s.get (nameOf path) = some f.content := by
    show (nameOf path).bind s.content = _
    rw [hcontent, bind_contentOf, find_first hpre hm]
    rfl
  have hfree : s.free = fs.partitionHeader.freeBlocksCount.toNat := by
    rw [hst.free, hsync.header]
  have hfok := hok f (by simp)
  obtain ⟨hlen63, hlenpos, hblocks⟩ := hfok.blocksFor_length (hvol.payload_le hst.total_le (by simp))
  have hnew := newBlocks_eq hlen63 hsmall
  have hlack : lacking 4096 ⟨off.toNat, data⟩ (some f.content) = newBlocks f data off - f.payload.length := by
    rw [hnew, ← hblocks]
    simp only [lacking, Write.size, newLength, File.length_content]
  cases hends with
  | empty h0 hq =>
      unfold newLength at h0
      omega
  | full hpos hfull hq =>
      refine ⟨.full, s, rfl, .full ?_, ?_, fun _ => ?_⟩
      · rw [hget, hfree, hlack]
        exact hfull
      · rw [hq.disk]
        exact hst
      · rw [hq.disk]
        exact hsync.withName path
  | wrote hpos hfit h final old x k hR hfinal hx hu _ _ =>
      have hroom : newBlocks f data off - f.payload.length ≤ fs.partitionHeader.freeBlocksCount.toNat := hfit
      have hin : newBlocks f data off ≤ f.payload.length := by omega
      have hall : f.payload.length ≤ newBlocks f data off := by
        rw [hnew, ← hblocks, blocksFor_le_iff (by decide)]
        exact Nat.le_trans (Nat.le_max_left _ _) (le_blocksFor_mul (by decide) _)
      have hlack0 : lacking 4096 ⟨off.toNat, data⟩ (some f.content) = 0 := by
        rw [hlack]
        exact Nat.sub_eq_zero_of_le hin
      have hover : x = overlay f.content data off.toNat := by
        have hexp : expandedData final f.content data off = some (overlay f.content data off.toNat) :=
          expandedData_eq_overlay _ (by rw [hfinal, newLength, File.length_content])
        rw [hR, hexp] at hx
        exact (Option.some.inj hx).symm
      have hxlen : f.length ≤ x.length := by
        rw [hover, length_overlay, File.length_content]
        exact Nat.le_max_left _ _
      have hwritten : Write.onto ⟨off.toNat, data⟩ (some f.content) = x.take f.length := by
        rw [hover, ← File.length_content]
        rfl
      have hstored := storeOn_overwritten hvol hok hcontent hst hpre hm hu
        (Nat.le_trans (Nat.min_le_right _ _) hin)
      by_cases hk : k = newBlocks f data off + 1
      · -- all was written, the partition header last
        rw [if_pos hk] at hmagic htotal ⊢
        have hsuper : m'.disk 0 = h.bytes := by
          rw [hu.disk, applyWrites_payload_zero (Nat.succ_pos _) hu.le, if_pos hk]
        have hused : h.used.toNat = fs.partitionHeader.used.toNat := by
          rw [hu.used, Nat.sub_eq_zero_of_le hin, Nat.add_zero]
          rfl
        have hsame := free_eq_of_used (hvol.inSync hsync).free_le hu.free_le htotal hused
        have hdone : (f.overwritten x (min k (newBlocks f data off))).content
            = Write.onto ⟨off.toNat, data⟩ (some f.content) := by
          rw [hwritten, hk, Nat.min_eq_right (Nat.le_succ _)]
          exact content_overwritten hfok hxlen
            (Nat.le_trans hfok.length_le (Nat.mul_le_mul_right _ hall))
        rw [hdone, hsuper, ← hsync.header] at hstored
        exact ⟨.done, _, rfl, .replaced hget hlack0, hstored hmagic htotal hsame,
          fun _ => ⟨hsync.mounted, hsync.handle, by rw [hsuper]⟩⟩
      · rw [if_neg hk]
        have hsuper : m'.disk 0 = m.disk 0 := by
          rw [hu.disk, applyWrites_payload_zero (Nat.succ_pos _) hu.le, if_neg hk]
        rw [content_overwritten_splice hfok hxlen, ← hwritten, hsuper] at hstored
        exact ⟨.cut, _, rfl, .torn hget hlack0 _, hstored rfl rfl rfl, fun ho => absurd rfl ho⟩

/-- The first file that a path names, if there is one. -/
theorem first_named (files : List File) (path : Path) :
    (∀ f ∈ files, ¬ f.Named path)
      ∨ ∃ pre f post, files = pre ++ f :: post ∧ (∀ g ∈ pre, ¬ g.Named path) ∧ f.Named path := by
  cases h : files.find? (fun f => decide (f.Named path)) with
  | none => exact Or.inl fun f hf hm => by simpa [hm] using List.find?_eq_none.mp h f hf
  | some f =>
      obtain ⟨hm, pre, post, hfiles, hpre⟩ := List.find?_eq_some_iff_append.mp h
      exact Or.inr ⟨pre, f, post, hfiles, fun g hg => by simpa using hpre g hg, by simpa using hm⟩

/-- **A call of `writeFile` is a write**, whichever block writes fail. -/
theorem StoreOn.write {e : ErrorCode} (hst : StoreOn m.disk s) (hsync : InSync fs m.disk)
    (hseg : chopPath path ≠ []) (hread : ∀ k, c.readOk k = true) (hsmall : off.toNat + data.length < 2 ^ 63)
    (hwithin : WithinBlocks c fs m path data off)
    (hrun : (writeFile (honest c) fs path data off).run m = (.ok (e, fs'), m')) :
    WritesOn s path data off (e, fs') m'.disk := by
  obtain ⟨files, hvol, hok, hcontent⟩ := hst.files
  have hvol' := hvol.inSync hsync
  rcases first_named files path with hno | ⟨pre, f, post, rfl, hpre, hm⟩
  · have hends := (runs_writeFile_absent (c := c) hvol' hseg hno (by omega)).returned hrun
    exact writesOn_new hvol hok hcontent hst hsync hno hsmall hends
  · have hends := (runs_writeFile_present (c := c) hvol' hseg hpre hm (by omega) hread).returned hrun
    exact writesOn_found hvol hok hcontent hst hsync hpre hm hsmall
      (hwithin.found hvol' hpre hm hread hsmall) (gives_magic_writeFile data off _ _ _ hrun)
      (gives_totalBlocks_writeFile data off _ _ _ hrun) hends

/-- A path of slashes is refused. -/
theorem writeFile_invalid {e : ErrorCode} (hmounted : fs.isMounted = true) (hseg : chopPath path = [])
    (hrun : (writeFile (honest c) fs path data off).run m = (.ok (e, fs'), m')) :
    e = .invalidPath ∧ fs' = fs ∧ m' = m := by
  unfold writeFile at hrun
  rw [if_neg (by simp [hmounted]), if_pos hseg] at hrun
  obtain ⟨h, rfl⟩ := Prod.mk.inj hrun
  obtain ⟨rfl, rfl⟩ := Prod.mk.inj (Except.ok.inj h)
  exact ⟨rfl, rfl, rfl⟩

/-! ## Reads and queries -/

/-- What `readFile` answers for a content. -/
def answerFor (content : Option (List UInt8)) (path : Path) (off max : UInt64) :
    Except ErrorCode (List UInt8) :=
  if chopPath path = [] then .error .invalidPath
  else match content with
    | none => .error .fileNotFound
    | some x => .ok (limited (x.drop off.toNat) max.toNat)

/-- What it answers on a store. -/
def readAnswer (s : BlockStore (List UInt8)) (path : Path) (off max : UInt64) :
    Except ErrorCode (List UInt8) := answerFor (s.get (nameOf path)) path off max

/-- What `exists` answers for a content. -/
def existsFor (content : Option (List UInt8)) (path : Path) : ErrorCode :=
  if chopPath path = [] then .invalidPath
  else if content.isSome then .success
  else .fileNotFound

/-- What it answers on a store. -/
def existsAnswer (s : BlockStore (List UInt8)) (path : Path) : ErrorCode := existsFor (s.get (nameOf path)) path

/-- The caller's array after a read: what was read, or what was there. -/
def arrayAfter (answer : Except ErrorCode (List UInt8)) (data : Option Dynarr) : Option (List UInt8) :=
  match answer with
  | .ok w => data.map fun _ => w
  | .error _ => data.map Dynarr.elems

/-- **A call of `readFile` answers from the store.** -/
theorem StoreOn.read (hst : StoreOn m.disk s) (hsync : InSync fs m.disk) (hread : ∀ k, c.readOk k = true)
    (data : Option Dynarr) (off max : UInt64) :
    Runs c.Generous (readFile (honest c) fs path data off max) m
      (fun res m' => Quiet m m' ∧ res.1 = readAnswer s path off max
        ∧ res.2.map Dynarr.elems = arrayAfter (readAnswer s path off max) data) := by
  obtain ⟨files, hvol, hok, hcontent⟩ := hst.files
  have hvol' := hvol.inSync hsync
  unfold readAnswer answerFor
  by_cases hseg : chopPath path = []
  · rw [if_pos hseg]
    unfold readFile
    rw [if_neg (by simp [hsync.mounted]), if_pos hseg]
    exact Runs.pure ⟨Quiet.refl m, rfl, rfl⟩
  · rw [if_neg hseg]
    have hget : s.get (nameOf path) = (files.find? fun f => decide (f.Named path)).map File.content := by
      rw [← bind_contentOf, ← hcontent]
      rfl
    rw [hget]
    rcases first_named files path with hno | ⟨pre, f, post, rfl, hpre, hm⟩
    · rw [find_absent hno]
      unfold readFile
      rw [if_neg (by simp [hsync.mounted]), if_neg hseg]
      refine (runs_operatorNew 4096 m).bind ?_
      rintro _ m₁ ⟨hq₁, _⟩
      refine (runs_findFileHeader (m := m₁) (by rw [hq₁.disk]; exact hvol'.front path)).bind ?_
      rintro o m₂ ⟨hq₂, hs⟩
      obtain rfl := hs.eq_none hno
      exact Runs.pure ⟨hq₁.trans hq₂, rfl, rfl⟩
    · rw [find_first hpre hm]
      refine (runs_readFile_found hvol' (hok f (by simp)) hpre hm hseg hread data off max).imp ?_
      rintro res m' ⟨hq, hw⟩
      exact ⟨hq, hw.1, hw.2⟩

/-- **A call of `exists` answers from the store.** -/
theorem StoreOn.exists (hst : StoreOn m.disk s) (hsync : InSync fs m.disk) (hread : ∀ k, c.readOk k = true) :
    Runs c.Generous (exists' (honest c) fs path) m
      (fun e m' => Quiet m m' ∧ e = existsAnswer s path) := by
  obtain ⟨files, hvol, _, hcontent⟩ := hst.files
  have hvol' := hvol.inSync hsync
  unfold existsAnswer existsFor exists'
  rw [if_neg (by simp [hsync.mounted])]
  by_cases hseg : chopPath path = []
  · rw [if_pos hseg, if_pos hseg]
    exact Runs.pure ⟨Quiet.refl m, rfl⟩
  · rw [if_neg hseg, if_neg hseg]
    have hget : s.get (nameOf path) = (files.find? fun f => decide (f.Named path)).map File.content := by
      rw [← bind_contentOf, ← hcontent]
      rfl
    rw [hget]
    refine (runs_operatorNew 4096 m).bind ?_
    rintro _ m₁ ⟨hq₁, hr₁⟩
    refine (runs_findFileHeader (m := m₁) (by rw [hq₁.disk]; exact hvol'.front path)).bind ?_
    rintro o m₂ ⟨hq₂, hs⟩
    rw [hq₁.disk, hr₁] at hs
    generalize m₂.reads = r at hs
    have hq := hq₁.trans hq₂
    rcases first_named files path with hno | ⟨pre, f, post, rfl, hpre, hm⟩
    · obtain rfl := hs.eq_none hno
      rw [find_absent hno]
      exact Runs.pure ⟨hq, rfl⟩
    · obtain rfl := hs.eq_some hpre hm hread
      rw [find_first hpre hm]
      exact Runs.pure ⟨hq, rfl⟩

end AlopexOS
