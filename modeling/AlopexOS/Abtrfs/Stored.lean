import AlopexOS.Abtrfs.ReadBack
import AlopexOS.Abtrfs.Remount

/-!
# `Abtrfs.Stored` — what a write leaves for the next object

A file system object that is made for one call writes a file, and another one reads it. All that passes
between the two is the disk. So a volume is described here by its disk alone, and a write by the file it
leaves there.

## Contents
- **Volumes** by their disk.
- **A write** from one disk to the next.
- **A read** of the file it left.
-/

namespace AlopexOS

open Packed ByteString CString Prog

variable {c : Conditions} {fs : AbtrFS} {path : Path} {files pre post : List File} {data old : List UInt8}
  {disk : Nat → Block} {m m' : Machine} {base hhdm : UInt64} {handle : Handle} {f : File}

/-! ## Volumes -/

/-- The disk has a volume with the files `files`, as far as they matter to a reader of the last one
    named. -/
structure VolumeOn (disk : Nat → Block) (files : List File) : Prop where
  magic : PartitionHeader.magic ⟨disk 0⟩ = volumeMagic
  free_le : (PartitionHeader.freeBlocksCount ⟨disk 0⟩).toNat ≤ (PartitionHeader.totalBlocks ⟨disk 0⟩).toNat
  laid : Laid disk 1 files (PartitionHeader.used ⟨disk 0⟩).toNat

/-- The disk has a well laid out volume. -/
structure WellLaidOutOn (disk : Nat → Block) (files : List File) : Prop extends VolumeOn disk files where
  ok : ∀ f ∈ files, f.Ok
  distinct : files.Pairwise fun f g => f.name ≠ g.name

/-- An object mounted on such a disk. -/
theorem VolumeOn.volume (h : VolumeOn disk files) (fs₀ : AbtrFS) (base hhdm : UInt64)
    (hv : handle ≠ invalidHandle) : Volume (mountedOn fs₀ base hhdm handle disk) disk files :=
  ⟨rfl, hv, h.free_le, h.laid⟩

/-- A walk of the disk for `path` comes to the file `f`, behind the files `pre`. What is behind it does not
    matter. -/
structure Found (disk : Nat → Block) (path : Path) (pre : List File) (f : File) : Prop where
  magic : PartitionHeader.magic ⟨disk 0⟩ = volumeMagic
  laid : ∃ b, Laid disk 1 (pre ++ [f]) b ∧ b ≤ (PartitionHeader.used ⟨disk 0⟩).toNat
  first : ∀ g ∈ pre, ¬ g.Named path
  named : f.Named path

/-- It is a file as `writeFile` stores it. -/
structure Stored (disk : Nat → Block) (path : Path) (pre : List File) (f : File) : Prop
    extends Found disk path pre f where
  ok : f.Ok

/-- The disk has a file with the content `x` under the path. -/
def Stores (disk : Nat → Block) (path : Path) (x : List UInt8) : Prop :=
  ∃ pre f, Stored disk path pre f ∧ f.content = x

theorem Found.front (h : Found disk path pre f) (fs₀ : AbtrFS) (base hhdm : UInt64)
    (hv : handle ≠ invalidHandle) : Front (mountedOn fs₀ base hhdm handle disk) disk (pre ++ [f]) path := by
  obtain ⟨b, hlaid, hb⟩ := h.laid
  exact ⟨rfl, hv, b, hlaid, hb, Or.inr ⟨f, by simp, h.named⟩⟩

/-! ## A write -/

/-- The partition header that counts more blocks keeps its magic number. -/
theorem magic_claimBlocks {h h' : PartitionHeader} {found : Option AbtrFSDiskHeader} {required : UInt64}
    (hc : claimBlocks h found required = some h') : h'.magic = h.magic := by
  unfold claimBlocks at hc
  split at hc
  · split at hc
    · cases hc
    · rw [← Option.some.inj hc, PartitionHeader.magic_setFree]
  · split at hc
    · split at hc
      · cases hc
      · rw [← Option.some.inj hc, PartitionHeader.magic_setFree]
    · rw [← Option.some.inj hc]

theorem gives_magic_writeFound {σ : Type} {P : Platform σ} (data : List UInt8) (off : UInt64)
    (found : Option AbtrFSDiskHeader) {x : UInt64} (hx : fs.partitionHeader.magic = x) :
    Gives (fun r => r.2.partitionHeader.magic = x) (writeFound P fs path data off found) := by
  unfold writeFound
  refine Gives.ite (Gives.pure hx) (Gives.bind fun _ => Gives.bind fun old => ?_)
  split
  · exact Gives.fail _
  · dsimp only
    split
    · exact Gives.pure hx
    · rename_i hc
      have hclaim := (magic_claimBlocks hc).trans hx
      exact Gives.bind fun ok => Gives.ite (Gives.pure hclaim) (Gives.pure hclaim)

/-- No write changes the magic number. -/
theorem gives_magic_writeFile {σ : Type} {P : Platform σ} (data : List UInt8) (off : UInt64) :
    Gives (fun r => r.2.partitionHeader.magic = fs.partitionHeader.magic) (writeFile P fs path data off) := by
  unfold writeFile
  refine Gives.ite (Gives.pure rfl) (Gives.ite (Gives.pure rfl) (Gives.bind fun root => ?_))
  have hroot : ({ fs with rootNode := root } : AbtrFS).partitionHeader.magic = fs.partitionHeader.magic :=
    rfl
  exact Gives.bind fun found => gives_magic_writeFound data off found hroot

/-- **A new file is stored.** -/
theorem stores_new (hvol : WellLaidOutOn m.disk files) (hv : handle ≠ invalidHandle)
    (hlen : path.str.length ≤ 254)
    (habsent : ∀ f ∈ files, f.name ≠ path.str) (hd : data.length + 4096 ≤ 2 ^ 64)
    (hrun : (writeFile (honest c) (mountedOn AbtrFS.init base hhdm handle m.disk) path data 0).run m
      = (.ok (.success, fs), m')) : Stores m'.disk path data := by
  have hnamed : ∀ f ∈ files, ¬ f.Named path := fun f hf hn => habsent f hf hn.1.symm
  have hseg : chopPath path ≠ [] := by
    intro hnil
    simp [writeFile, mountedOn, hnil] at hrun
  have hvol' := hvol.toVolumeOn.volume AbtrFS.init base hhdm hv
  have hends := (runs_writeFile_absent (c := c) hvol' hseg hnamed (by simpa using hd)).returned hrun
  generalize hres : (ErrorCode.success, fs) = res at hends
  cases hends with
  | empty _ _ => cases hres
  | full _ _ _ => cases hres
  | wrote hpos _ k hc _ _ _ =>
      have hzero : (0 : UInt64).toNat + data.length = data.length := Nat.zero_add _
      have hk : k = blocksFor 4096 (newContent 0 data).length + 2 := by
        rw [length_newContent]
        by_contra hne
        rw [if_neg hne] at hres
        cases hres
      have hvolume : Volume (mountedOn AbtrFS.init base hhdm handle m'.disk) m'.disk
          (files ++ [created path (newContent 0 data)]) :=
        volume_mountedOn_new (hvol'.withName path) hc hk hv
      have hmagic := magic_mountedOn (hvol'.withName path) rfl hvol.magic hc
      have hx : 0 < (newContent 0 data).length := by
        rw [length_newContent]
        exact hpos
      refine ⟨files, created path (newContent 0 data), ⟨⟨hmagic, ⟨_, hvolume.laid, Nat.le_refl _⟩, hnamed,
        named_created hlen _⟩, created_ok path hx⟩, ?_⟩
      rw [content_created path hx (by rw [length_newContent]; omega)]
      rfl

/-- **A file that is there already** keeps its length: what a write puts behind its end is lost. -/
theorem stores_update (hvol : WellLaidOutOn m.disk files) (hv : handle ≠ invalidHandle)
    (hread : ∀ k, c.readOk k = true) (hlen : path.str.length ≤ 254) (hf : f ∈ files)
    (hname : f.name = path.str) (hsize : max f.content.length data.length + 4096 ≤ 2 ^ 64)
    (hrun : (writeFile (honest c) (mountedOn AbtrFS.init base hhdm handle m.disk) path data 0).run m
      = (.ok (.success, fs), m')) :
    Stores m'.disk path ((data ++ f.content.drop data.length).take f.content.length) := by
  have hseg : chopPath path ≠ [] := by
    intro hnil
    simp [writeFile, mountedOn, hnil] at hrun
  have hvol' := hvol.toVolumeOn.volume AbtrFS.init base hhdm hv
  have hzero : (0 : UInt64).toNat + data.length = data.length := Nat.zero_add _
  have hmagic : fs.partitionHeader.magic = volumeMagic :=
    (gives_magic_writeFile data 0 _ _ _ hrun).trans hvol.magic
  have hok := hvol.ok f hf
  rw [File.length_content] at hsize
  obtain ⟨pre, post, rfl⟩ := List.append_of_mem hf
  have hpre := not_named_of_distinct hvol.distinct hname.symm
  have hm : f.Named path := ⟨hname.symm, hlen⟩
  have hends := (runs_writeFile_present (c := c) hvol' hseg hpre hm (by omega) hread).returned hrun
  generalize hres : (ErrorCode.success, fs) = res at hends
  cases hends with
  | empty _ _ => cases hres
  | full _ _ _ => cases hres
  | wrote _ _ h final old x k hR hfinal hx hu _ _ =>
      have hk : k = newBlocks f data 0 + 1 := by
        by_contra hne
        rw [if_neg hne] at hres
        cases hres
      rw [if_pos hk] at hres
      obtain ⟨_, rfl⟩ := Prod.mk.inj hres
      have hmin : min k (newBlocks f data 0) = newBlocks f data 0 := by omega
      -- the partition header that was written last
      have hsuper : m'.disk 0 = h.bytes := by
        rw [hu.disk, applyWrites_payload_zero (by omega) hu.le, if_pos hk]
      have hlaid := hu.laid_front hvol.laid rfl
      rw [hmin] at hlaid
      obtain ⟨_, _, hrest⟩ := hvol.laid.file
      have hend : 1 + spanAll pre + f.span ≤ h.used.toNat := by
        have hused : h.used.toNat = (PartitionHeader.used ⟨m.disk 0⟩).toNat + _ := hu.used
        have := hrest.end_eq
        omega
      have hover : x = data ++ f.content.drop data.length := by
        have hexp : expandedData final f.content data 0 = some (overlay f.content data (0 : UInt64).toNat) :=
          expandedData_eq_overlay _ (by rw [hfinal, newLength, File.length_content])
        rw [hR, hexp] at hx
        rw [← Option.some.inj hx]
        exact overlay_zero _ _
      have hxlen : f.length ≤ x.length := by
        rw [hover, List.length_append, List.length_drop, File.length_content]
        omega
      have hblocks : f.length ≤ newBlocks f data 0 * 4096 := by
        have hnew : f.length ≤ newLength f data 0 := Nat.le_max_left _ _
        have hfit : newLength f data 0 + 4096 ≤ 2 ^ 64 := by
          unfold newLength
          omega
        unfold newBlocks
        rw [if_pos hfit]
        exact Nat.le_trans hnew (le_blocksFor_mul (by decide) _)
      refine ⟨pre, f.overwritten x (newBlocks f data 0), ⟨⟨?_, ⟨_, hlaid, ?_⟩, hpre, hm⟩,
        hok.overwritten x _⟩, ?_⟩
      · rw [hsuper]
        exact hmagic
      · rw [hsuper]
        exact hend
      · rw [content_overwritten hok hxlen hblocks, hover, File.length_content]

/-! ## A read -/

/-- What is read of a content under a limit, where 0 is no limit. -/
def limited (x : List UInt8) (max : Nat) : List UInt8 := if max = 0 then x else x.take max

/-- **A stored file is read** into an array that owns its storage. -/
theorem read_stored {x bytes : List UInt8} {d d' : Dynarr} {max : UInt64} (hst : Stores m.disk path x)
    (hv : handle ≠ invalidHandle)
    (hrun : (readFile (honest c) (mountedOn AbtrFS.init base hhdm handle m.disk) path (some d) 0 max).run m
      = (.ok (.ok bytes, some d'), m')) : d'.elems = limited x max.toNat := by
  obtain ⟨pre, f, hst, rfl⟩ := hst
  have hok := hst.ok
  have hseg : chopPath path ≠ [] := by
    intro hnil
    simp [readFile, mountedOn, hnil] at hrun
  obtain ⟨_, hends⟩ := (runs_readFile (c := c) (hst.front AbtrFS.init base hhdm hv) hseg (some d) max).returned hrun
  generalize hres : (Except.ok bytes, some d') = res at hends
  generalize m'.reads = r at hends
  cases hends with
  | missing _ => cases hres
  | read pre₂ post₂ f₂ d₂ hf₂ hpre₂ hm₂ _ hd =>
      obtain ⟨rfl, rfl, rfl⟩ := first_unique hf₂ hst.first hst.named hpre₂ hm₂
      obtain ⟨_, rfl⟩ := Prod.mk.inj hres
      have helems : d'.elems = f.read (readLength f.length max.toNat) (given (some d)) := Option.some.inj hd
      rw [helems, hok.read_eq (readLength_le _ _)]
      unfold limited readLength
      have hall : f.content.take f.length = f.content :=
        List.take_of_length_le (Nat.le_of_eq (File.length_content f))
      by_cases h0 : max.toNat = 0
      · rw [if_pos h0, if_neg (by omega), hall]
      · rw [if_neg h0]
        by_cases hlt : max.toNat < f.length
        · rw [if_pos ⟨by omega, hlt⟩]
        · rw [if_neg (by omega), hall, List.take_of_length_le (by rw [File.length_content]; omega)]
  | failed _ _ _ _ _ _ _ _ _ _ _ => cases hres

end AlopexOS
