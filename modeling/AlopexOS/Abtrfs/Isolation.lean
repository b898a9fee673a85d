import AlopexOS.Abtrfs.ReadBack

/-!
# `Abtrfs.Isolation` — what a write does to the other files

A write to one file leaves the others alone as long as it stays in its own blocks. A file that grows
claims blocks at the end of the volume, but its content goes on right behind its old payload, over the
header of the next file.

## Contents
- **The others.** `KeepsOthers` and `Contained`, the condition for it.
- **A write that is contained** keeps them.
- **One that is not** loses them on some volume of the same shape.
-/

namespace AlopexOS

open Packed ByteString CString Prog

variable {c : Conditions} {fs : AbtrFS} {path : Path} {files pre post : List File} {data : List UInt8}
  {off : UInt64} {f g : File} {x : List UInt8} {m m' : Machine}

/-! ## The others -/

/-- The walk finds the file. -/
def Finds (c : Conditions) (fs : AbtrFS) (m : Machine) (q : Path) : Prop :=
  Runs c.Generous (findFileHeader (honest c) fs q) m (fun o _ => o ≠ none)

/-- Whatever the call returns, every other file is found and reads as before. A name of more than 254
    bytes is never found, so a file with one is no file the walk could lose. -/
def KeepsOthers (fs : AbtrFS) (m : Machine) (files : List File) (path : Path) (data : List UInt8)
    (off : UInt64) : Prop :=
  ∀ c : Conditions, (∀ k, c.readOk k = true) → ∀ res fs' m',
    (writeFile (honest c) fs path data off).run m = (.ok (res, fs'), m') →
      ∀ g ∈ files, g.name ≠ path.str → g.name.length ≤ 254 → ∀ q : Path, q.str = g.name →
        Finds c fs' m' q ∧ Reads c fs' m' q (readResult files q)

/-- The write stays in the blocks of the file, or writes nothing, or nothing that can be found is behind
    the file; a path of more than 254 bytes makes a new file at the end. -/
def Contained (fs : AbtrFS) (path : Path) (data : List UInt8) (off : UInt64) (f : File)
    (post : List File) : Prop :=
  (∀ b ∈ path.str, b = slash) ∨ 254 < path.str.length
    ∨ newBlocks f data off ≤ f.payload.length
    ∨ fs.partitionHeader.freeBlocksCount.toNat < newBlocks f data off - f.payload.length
    ∨ ∀ g ∈ post, 254 < g.name.length

/-- What can be said about a file without its content. -/
def File.shape (f : File) : List UInt8 × Nat × Nat := (f.name, f.payload.length, f.size)

theorem finds_front (hfront : Front fs m.disk files path) (hread : ∀ k, c.readOk k = true)
    (hg : g ∈ files) (hm : g.Named path) : Finds c fs m path := by
  refine (runs_findFileHeader hfront).imp ?_
  rintro o m' ⟨_, hs⟩
  generalize hr : m'.reads = r at hs
  cases hs with
  | absent hno _ => exact absurd hm (hno g hg)
  | found _ _ _ _ _ _ _ => exact Option.some_ne_none _
  | failed _ _ _ _ _ _ hbad =>
      rw [hread] at hbad
      cases hbad

/-- A file in front is read as before, whatever is behind. -/
theorem readResult_of_front {pre post post' : List File} (hg : g ∈ pre) (hm : g.Named path) :
    readResult (pre ++ post) path = readResult (pre ++ post') path := by
  unfold readResult
  have hsome : (pre.find? fun f => decide (f.Named path)).isSome = true := by
    rw [List.find?_isSome]
    exact ⟨g, hg, by simpa using hm⟩
  obtain ⟨g', hg'⟩ := Option.isSome_iff_exists.mp hsome
  simp only [List.find?_append, hg', Option.some_or]

/-- A file that is not looked for may be replaced. -/
theorem readResult_replace {f f' : File} (hf : ¬ f.Named path) (hf' : ¬ f'.Named path) :
    readResult (pre ++ f' :: post) path = readResult (pre ++ f :: post) path := by
  unfold readResult
  simp only [List.find?_append, List.find?_cons, hf, hf', decide_false]

/-! ## A write that is contained -/

/-- The object and the disk that keep the old files in front keep every one of them. -/
theorem keeps_laid {fs' : AbtrFS} (hmounted : fs'.isMounted = true)
    (hhandle : fs'.deviceHandle ≠ invalidHandle) {b : Nat} (hl : Laid m'.disk 1 files b)
    (hb : b ≤ fs'.partitionHeader.used.toNat) (hread : ∀ k, c.readOk k = true) (hg : g ∈ files)
    (hm : g.Named path) : Finds c fs' m' path ∧ Reads c fs' m' path (readResult files path) := by
  have hfront : Front fs' m'.disk files path := ⟨hmounted, hhandle, b, hl, hb, Or.inr ⟨g, hg, hm⟩⟩
  exact ⟨finds_front hfront hread hg hm, reads_front hfront hread⟩

theorem keeps_quiet (hvol : Volume fs m.disk files) (hq : Quiet m m') (hread : ∀ k, c.readOk k = true)
    (hg : g ∈ files) (hm : g.Named path) :
    Finds c fs m' path ∧ Reads c fs m' path (readResult files path) := by
  have hlaid := hvol.laid
  rw [← hq.disk] at hlaid
  exact keeps_laid hvol.mounted hvol.handle hlaid (Nat.le_refl _) hread hg hm

/-- A path too long for the walk makes a new file. -/
theorem keepsOthers_long (hvol : Volume fs m.disk files) (hlong : 254 < path.str.length)
    (hseg : chopPath path ≠ []) (hoff : off.toNat + data.length < 2 ^ 63) :
    KeepsOthers fs m files path data off := by
  intro c hread res fs' m' hrun g hg hne hlen q hq
  have hm : g.Named q := ⟨hq, by rw [hq]; exact hlen⟩
  have hno : ∀ f ∈ files, ¬ f.Named path := fun f _ hf => absurd hf.2 (Nat.not_le_of_lt hlong)
  have hends := (runs_writeFile_absent (c := c) hvol hseg hno (by omega)).returned hrun
  generalize hres : (res, fs') = r at hends
  cases hends with
  | empty _ hquiet =>
      obtain ⟨_, rfl⟩ := Prod.mk.inj hres
      exact keeps_quiet (hvol.withName path) hquiet hread hg hm
  | full _ _ hquiet =>
      obtain ⟨_, rfl⟩ := Prod.mk.inj hres
      exact keeps_quiet (hvol.withName path) hquiet hread hg hm
  | wrote _ _ k hc _ _ _ =>
      obtain ⟨_, rfl⟩ := Prod.mk.inj hres
      refine keeps_laid hvol.mounted hvol.handle (hc.kept hvol.laid) ?_ hread hg hm
      have hused := hc.used
      show _ ≤ (newSuper (fs.withName path) data off).used.toNat
      omega

/-- A write to a file that is found, when it is contained. -/
theorem keepsOthers_found (hvol : Volume fs m.disk (pre ++ f :: post))
    (hpre : ∀ g ∈ pre, ¬ g.Named path) (hm : f.Named path) (hseg : chopPath path ≠ [])
    (hoff : off.toNat + data.length < 2 ^ 63)
    (hcond : newBlocks f data off ≤ f.payload.length
      ∨ fs.partitionHeader.freeBlocksCount.toNat < newBlocks f data off - f.payload.length
      ∨ ∀ g ∈ post, 254 < g.name.length) :
    KeepsOthers fs m (pre ++ f :: post) path data off := by
  intro c hread res fs' m' hrun g hg hne hlen q hq
  have hgq : g.Named q := ⟨hq, by rw [hq]; exact hlen⟩
  have hfq : ¬ f.Named q := fun h => hne (by rw [← hq, h.1, hm.1])
  have hends := (runs_writeFile_present (c := c) hvol hseg hpre hm (by omega) hread).returned hrun
  generalize hres : (res, fs') = r at hends
  cases hends with
  | empty _ hquiet =>
      obtain ⟨_, rfl⟩ := Prod.mk.inj hres
      exact keeps_quiet (hvol.withName path) hquiet hread hg hgq
  | full _ _ hquiet =>
      obtain ⟨_, rfl⟩ := Prod.mk.inj hres
      exact keeps_quiet (hvol.withName path) hquiet hread hg hgq
  | wrote _ hfit h final old x k _ _ _ hu _ _ =>
      obtain ⟨_, rfl⟩ := Prod.mk.inj hres
      have hused : h.used.toNat = fs.partitionHeader.used.toNat
          + (newBlocks f data off - f.payload.length) := hu.used
      have hfq' : ¬ (f.overwritten x (min k (newBlocks f data off))).Named q := hfq
      have hother : g ∈ pre ∨ g ∈ post := by
        rcases List.mem_append.mp hg with hg | hg
        · exact Or.inl hg
        · rcases List.mem_cons.mp hg with rfl | hg
          · exact absurd hgq hfq
          · exact Or.inr hg
      rcases hcond with hin | hfull | hpost
      · -- the files behind are where they were
        have hlaid := hu.laid_whole hvol.laid rfl (by omega)
        rw [← readResult_replace hfq hfq']
        refine keeps_laid hvol.mounted hvol.handle hlaid ?_ hread ?_ hgq
        · show _ ≤ h.used.toNat
          omega
        · rcases hother with hg | hg <;> simp [hg]
      · exact absurd hfit (Nat.not_le_of_lt hfull)
      · -- the file is one in front
        have hgpre : g ∈ pre := hother.resolve_right fun hg => absurd hlen (Nat.not_le_of_lt (hpost g hg))
        obtain ⟨_, _, hrest⟩ := hvol.laid.file
        have hend := hrest.end_eq
        have hsame : readResult (pre ++ f :: post) q
            = readResult (pre ++ [f.overwritten x (min k (newBlocks f data off))]) q :=
          readResult_of_front hgpre hgq
        rw [hsame]
        refine keeps_laid hvol.mounted hvol.handle (hu.laid_front hvol.laid rfl) ?_ hread ?_ hgq
        · show _ ≤ h.used.toNat
          omega
        · simp [hgpre]

/-! ## A write that is not -/

/-- A header that steps the walk from `a` to `b`. -/
def jumpHeader (a b : Nat) : AbtrFSDiskHeader :=
  AbtrFSDiskHeader.init.set .sectionCount (b - a - 1)

theorem get_jumpHeader (a b : Nat) (k : HeaderMember) : (jumpHeader a b).get k =
    match k with
    | .magic => 0xABF5
    | .sectionCount => (b - a - 1) % 256 ^ 8
    | .blockSize => 4096
    | _ => 0 := by
  have hzero : ∀ k, AbtrFSDiskHeader.get ⟨Bytes.zero⟩ k = 0 := fun k => Field.get_zero _
  cases k <;>
    simp only [jumpHeader, AbtrFSDiskHeader.init, AbtrFSDiskHeader.get_set, reduceCtorEq, if_true, if_false,
      headerLayout, hzero, AbtrFSDiskHeader.magic_fits,
      AbtrFSDiskHeader.blockSize_fits]

/-- It is no file, and the walk goes where it says. -/
theorem isFile_jumpHeader (a b : Nat) : (jumpHeader a b).isFile = false := by
  unfold AbtrFSDiskHeader.isFile AbtrFSDiskHeader.flags
  rw [get_jumpHeader]
  show decide (_ ∧ UInt32.ofNat 0 &&& isFileFlag ≠ 0) = false
  rw [decide_eq_false_iff_not, not_and]
  exact fun _ h => h (by decide)

theorem toNat_skip_jumpHeader {a b : Nat} (h : a < b) (hb : b < 2 ^ 64) :
    (jumpHeader a b).skip.toNat = b - a := by
  have hcount : (jumpHeader a b).sectionCount.toNat = b - a - 1 := by
    unfold AbtrFSDiskHeader.sectionCount
    rw [get_jumpHeader]
    show (UInt64.ofNat ((b - a - 1) % 2 ^ 64)).toNat = _
    have hlt : b - a - 1 < 2 ^ 64 := by omega
    rw [Nat.mod_eq_of_lt hlt, Word.toNat_ofNat hlt]
  have hmagic : (jumpHeader a b).magic = 0xABF5 := by
    unfold AbtrFSDiskHeader.magic
    rw [get_jumpHeader]
    rfl
  unfold AbtrFSDiskHeader.skip
  split
  · rw [UInt64.toNat_add, hcount]
    show (1 + (b - a - 1)) % 2 ^ 64 = b - a
    omega
  · rename_i hno
    have hzero : ¬ 0 < (jumpHeader a b).sectionCount := fun h0 => hno ⟨hmagic, h0⟩
    rw [UInt64.lt_iff_toNat_lt, hcount] at hzero
    show 1 = b - a
    have : ¬ 0 < b - a - 1 := hzero
    omega

/-- A block of zeros is no header. -/
theorem isFile_zero : AbtrFSDiskHeader.isFile ⟨Bytes.zero⟩ = false := by decide +kernel

theorem skip_zero : AbtrFSDiskHeader.skip ⟨Bytes.zero⟩ = 1 := by decide +kernel

/-- **A walk that gets lost.** Behind the files that it passes it meets zeros and then a header that sends
    it to the end. -/
theorem scan_lost {readOk : Nat → Bool} {disk : Nat → Block} {used : UInt64} {b : Nat}
    (hread : ∀ i, readOk i = true) (hl : Laid disk 1 files b) (hm : ∀ f ∈ files, ¬ f.Named path)
    (hused : b + 1 < used.toNat) (hzero : disk b = Bytes.zero)
    (hjump : disk (b + 1) = (jumpHeader (b + 1) used.toNat).bytes) (r : Nat) :
    ∃ r', scan readOk disk path used (files.length + 3) 1 r = some (none, r') := by
  have hlt := used.toNat_lt
  have hle : b ≤ used.toNat := by omega
  obtain ⟨curr, hcurr, hscan⟩ := scan_pass hread path 1 3 r hl rfl hle hm
  have h1 : curr < used := by
    rw [UInt64.lt_iff_toNat_lt]
    omega
  have hnext : (curr + 1).toNat = b + 1 := by
    rw [Word.toNat_succ_of_lt h1, hcurr]
  have hskip := toNat_skip_jumpHeader hused hlt
  have hend : (curr + 1 + (jumpHeader (b + 1) used.toNat).skip).toNat
      = (curr + 1).toNat + (jumpHeader (b + 1) used.toNat).skip.toNat :=
    Word.toNat_add_of_lt (by omega)
  have h2 : curr + 1 < used := by
    rw [UInt64.lt_iff_toNat_lt]
    omega
  have h3 : ¬ curr + 1 + (jumpHeader (b + 1) used.toNat).skip < used := by
    rw [UInt64.lt_iff_toNat_lt]
    omega
  have hblock : (⟨disk (b + 1)⟩ : AbtrFSDiskHeader) = jumpHeader (b + 1) used.toNat := by rw [hjump]
  refine ⟨r + files.length + 1 + 1, ?_⟩
  rw [hscan]
  simp only [scan, h1, hread, if_true, hcurr, hzero, isFile_zero, Bool.false_eq_true, false_and,
    if_false, skip_zero, h2, hnext, hblock, isFile_jumpHeader, h3]

/-- The file with another first block. -/
def File.withFirst (f : File) (blk : Block) : File := { f with payload := f.payload.set 0 blk }

/-- **A volume with another first payload block** of one of its files. -/
theorem Laid.withFirst {disk : Nat → Block} {a b : Nat} (hl : Laid disk a (pre ++ g :: post) b)
    (hpos : 0 < g.payload.length) (blk : Block) :
    Laid (setBlock disk (a + spanAll pre + 1, blk)) a (pre ++ g.withFirst blk :: post) b := by
  obtain ⟨hh, hp, hpost⟩ := hl.file
  have hpre := (Laid.append_iff.mp hl).1
  have hkeep : ∀ i, i ≠ a + spanAll pre + 1 → setBlock disk (a + spanAll pre + 1, blk) i = disk i :=
    fun i hi => if_neg hi
  have hlen : (g.withFirst blk).payload.length = g.payload.length := List.length_set
  rw [Laid.append_iff]
  refine ⟨hpre.congr fun i _ hi => hkeep i (by omega), ?_, ?_, ?_⟩
  · rw [hkeep _ (by omega)]
    exact ⟨hh.isFile, by rw [hlen]; exact hh.sectionCount, hh.size, hh.payloadOffset, hh.str⟩
  · rw [holds_iff]
    intro i hi
    have hi' : i < g.payload.length := by
      rw [hlen] at hi
      exact hi
    have hset : (g.withFirst blk).payload[i] = if 0 = i then blk else g.payload[i] := List.getElem_set _
    rw [hset]
    by_cases h0 : 0 = i
    · subst h0
      simp [setBlock]
    · rw [if_neg h0, hkeep _ (by omega)]
      exact hp.getElem hi'
  · rw [File.span, hlen]
    apply hpost.congr
    intro i hi _
    unfold File.span at hi
    exact hkeep i (by omega)

/-- Behind the old content an overlay of zeros is zero. -/
theorem chunk_overlay_zeros {content : List UInt8} {n k off : Nat} (h : content.length ≤ n * 4096) :
    chunk 4096 (overlay content (List.replicate k 0) off) n = Bytes.zero := by
  have hget : ∀ i, n * 4096 ≤ i → (overlay content (List.replicate k 0) off).getD i 0 = 0 := by
    intro i hi
    by_cases hin : i < (overlay content (List.replicate k 0) off).length
    · rw [List.getD_eq_getElem _ _ hin, getElem_overlay]
      split
      · simp only [List.getD_eq_getElem?_getD, List.getElem?_replicate]
        split <;> rfl
      · exact List.getD_eq_default _ _ (Nat.le_trans h hi)
    · exact List.getD_eq_default _ _ (Nat.le_of_not_lt hin)
  funext i
  exact hget _ (Nat.le_add_right _ _)

/-- The names on a volume have no NUL in them. -/
theorem Laid.zero_not_mem_name {disk : Nat → Block} {a b : Nat} (hl : Laid disk a files b) :
    ∀ g ∈ files, 0 ∉ g.name := by
  intro g hg
  obtain ⟨pre, post, rfl⟩ := List.append_of_mem hg
  rw [← hl.file.1.str]
  exact zero_not_mem_cstr _ _ _

/-- **A file behind such a place is not found.** -/
theorem not_finds_lost {b : Nat} {q : Path} (hG : c.Generous) (hread : ∀ i, c.readOk i = true)
    (hv : fs.deviceHandle ≠ invalidHandle) (hl : Laid m.disk 1 files b) (hm : ∀ f ∈ files, ¬ f.Named q)
    (hused : b + 1 < fs.partitionHeader.used.toNat) (hzero : m.disk b = Bytes.zero)
    (hjump : m.disk (b + 1) = (jumpHeader (b + 1) fs.partitionHeader.used.toNat).bytes) :
    ¬ Finds c fs m q := by
  intro hfinds
  obtain ⟨r, hscan⟩ := scan_lost hread hl hm hused hzero hjump m.reads
  have hcount := length_le_spanAll files
  have hend := hl.end_eq
  have hlt := fs.partitionHeader.used.toNat_lt
  have hbound := hG.2
  have hrun := run_findFileHeader q hv (hG.1 m.news 4096)
  rw [scan_mono hscan (show _ ≤ c.walkBound by omega)] at hrun
  exact hfinds.returned hrun rfl

/-- One block too many: behind the payload there are zeros, and what follows is as it was. -/
theorem Update.one_more {disk disk' : Nat → Block} {a r k o : Nat} {h : PartitionHeader} (hok : f.Ok)
    (hu : Update fs f a r (overlay f.content (List.replicate k 0) o) (f.payload.length + 1) h disk disk')
    (hr : f.payload.length < r) :
    disk' (a + f.span) = Bytes.zero ∧ disk' (a + f.span + 1) = disk (a + f.span + 1) := by
  have hspan : f.span = 1 + f.payload.length := rfl
  have hcontent : f.content.length ≤ f.payload.length * 4096 := by
    rw [File.length_content]
    exact hok.length_le
  constructor
  · rw [hu.disk, applyWrites_payload (by omega), if_pos (by omega),
      show a + f.span - (a + 1) = f.payload.length by omega]
    exact chunk_overlay_zeros hcontent
  · exact hu.kept_behind (by omega)

/-- The first `n` writes succeed, and no more. -/
theorem eq_of_upTo {w n k r : Nat} (hnr : n ≤ r) (hok : ∀ i < k, decide (w + i < w + n) = true)
    (hstop : k < r + 1 → decide (w + k < w + n) = false) (hk : k ≤ r + 1) : k = n := by
  rcases Nat.lt_trichotomy k n with hlt | heq | hgt
  · have := of_decide_eq_false (hstop (by omega))
    omega
  · exact heq
  · have := of_decide_eq_true (hok n hgt)
    omega

/-- A write that has to grow its file, on a device that refuses whatever comes after the first new block. -/
theorem writeFile_stopped (hvol : Volume fs m.disk (pre ++ f :: post)) (hseg : chopPath path ≠ [])
    (hpre : ∀ g ∈ pre, ¬ g.Named path) (hm : f.Named path) (hoff : off.toNat + data.length < 2 ^ 64)
    (hgrow : f.payload.length < newBlocks f data off)
    (hroom : newBlocks f data off - f.payload.length ≤ fs.partitionHeader.freeBlocksCount.toNat) :
    ∃ (c : Conditions) (res : ErrorCode) (h : PartitionHeader) (m' : Machine), c.Generous
      ∧ (∀ i, c.readOk i = true)
      ∧ (writeFile (honest c) fs path data off).run m
        = (.ok (res, { fs.withName path with partitionHeader := h }), m')
      ∧ Update (fs.withName path) f (1 + spanAll pre) (newBlocks f data off)
          (overlay f.content data off.toNat) (f.payload.length + 1) h m.disk m'.disk := by
  obtain ⟨c, hG, hread, hwrite⟩ : ∃ c : Conditions, c.Generous ∧ (∀ i, c.readOk i = true)
      ∧ ∀ i, c.writeOk i = decide (i < m.writes + (f.payload.length + 1)) :=
    ⟨Conditions.ample _, Conditions.ample_generous _, fun _ => rfl, fun _ => rfl⟩
  obtain ⟨⟨res, fs'⟩, m', hrun, hends⟩ :=
    (runs_writeFile_present hvol hseg hpre hm hoff hread).returns hG
  generalize hres : (res, fs') = result at hends
  cases hends with
  | empty h0 _ =>
      have hzero : newBlocks f data off = 0 := by
        unfold newBlocks
        rw [h0, blocksFor_zero (by decide)]
        exact if_pos (by decide)
      omega
  | full _ hfull _ => exact absurd hroom (Nat.not_le_of_lt hfull)
  | wrote _ _ h final old x k hR hfinal hx hu hwok hstop =>
      obtain ⟨_, rfl⟩ := Prod.mk.inj hres
      simp only [hwrite] at hwok hstop
      have hk : k = f.payload.length + 1 := eq_of_upTo (by omega) hwok hstop hu.le
      have hexp : expandedData final f.content data off = some (overlay f.content data off.toNat) :=
        expandedData_eq_overlay _ (by rw [hfinal, newLength, File.length_content])
      rw [hR, hexp] at hx
      obtain rfl := Option.some.inj hx
      rw [hk] at hu
      exact ⟨c, res, h, m', hG, hread, hrun, hu⟩

/-- **A write that is not contained loses a file** on a volume of the same shape: its data are zeros, the
    next file starts with a header that leads out of the volume, and the write stops after one block. -/
theorem not_keepsOthers {post' : List File} {g₁ : File} (hvol : Volume fs m.disk (pre ++ f :: g₁ :: post'))
    (hdist : (pre ++ f :: g₁ :: post').Pairwise fun g g' => g.name ≠ g'.name) (hok : f.Ok) (hok₁ : g₁.Ok)
    (hp : path.str = f.name) (hlen : path.str.length ≤ 254) (hseg : chopPath path ≠ [])
    (hoff : off.toNat + data.length < 2 ^ 63) (hgrow : f.payload.length < newBlocks f data off)
    (hroom : newBlocks f data off - f.payload.length ≤ fs.partitionHeader.freeBlocksCount.toNat)
    (hg : g ∈ g₁ :: post') (hglen : g.name.length ≤ 254) :
    ∃ (m₁ : Machine) (g₂ : File), Volume fs m₁.disk (pre ++ f :: g₂ :: post') ∧ g₂.shape = g₁.shape
      ∧ ¬ KeepsOthers fs m₁ (pre ++ f :: g₂ :: post') path (List.replicate data.length 0) off := by
  -- the end of the volume as the call counts it, and the header that leads there
  let u := fs.partitionHeader.used.toNat + (newBlocks f data off - f.payload.length)
  let e := 1 + spanAll pre + f.span
  let blk := (jumpHeader (e + 1) u).bytes
  have hfirst := hok₁.payload_pos
  have hspan : spanAll (pre ++ [f]) = spanAll pre + f.span := by rw [spanAll_append]; rfl
  have hlaid₁ : Laid (setBlock m.disk (e + 1, blk)) 1 (pre ++ f :: g₁.withFirst blk :: post')
      fs.partitionHeader.used.toNat := by
    have hl := hvol.laid
    rw [show pre ++ f :: g₁ :: post' = (pre ++ [f]) ++ g₁ :: post' by simp] at hl
    have := hl.withFirst hfirst blk
    rw [hspan, ← Nat.add_assoc] at this
    simpa using this
  have hvol₁ : Volume fs (setBlock m.disk (e + 1, blk)) (pre ++ f :: g₁.withFirst blk :: post') :=
    ⟨hvol.mounted, hvol.handle, hvol.free_le, hlaid₁⟩
  refine ⟨{ m with disk := setBlock m.disk (e + 1, blk) }, g₁.withFirst blk, hvol₁, ?_, ?_⟩
  · show (g₁.name, (g₁.payload.set 0 blk).length, g₁.size) = _
    rw [List.length_set]
    rfl
  intro hkeep
  have hpre : ∀ g ∈ pre, ¬ g.Named path := not_named_of_distinct hdist hp
  have hfg : f.name ≠ g.name :=
    (List.pairwise_cons.mp (List.pairwise_append.mp hdist).2.1).1 g hg
  obtain ⟨g', hg', hname⟩ : ∃ g' ∈ pre ++ f :: g₁.withFirst blk :: post', g'.name = g.name := by
    rcases List.mem_cons.mp hg with rfl | hg
    · exact ⟨g.withFirst blk, by simp, rfl⟩
    · exact ⟨g, by simp [hg], rfl⟩
  have hne : g'.name ≠ path.str := by
    rw [hname, hp]
    exact hfg.symm
  have hsame : newBlocks f (List.replicate data.length 0) off = newBlocks f data off := by
    unfold newBlocks newLength
    rw [List.length_replicate]
  have hoff₁ : off.toNat + (List.replicate data.length (0 : UInt8)).length < 2 ^ 64 := by
    rw [List.length_replicate]
    omega
  obtain ⟨c, res, h, m', hG, hread, hrun, hu⟩ := writeFile_stopped
    (m := { m with disk := setBlock m.disk (e + 1, blk) }) hvol₁ hseg hpre ⟨hp, hlen⟩ hoff₁
    (by rw [hsame]; exact hgrow) (by rw [hsame]; exact hroom)
  have hu' : h.used.toNat = u := by
    rw [hu.used, hsame]
    rfl
  have hfront := hu.laid_front hvol₁.laid rfl
  obtain ⟨hzero, hnext⟩ := hu.one_more hok (by omega)
  have hjump : m'.disk (e + 1) = (jumpHeader (e + 1) h.used.toNat).bytes := by
    rw [hu']
    exact hnext.trans (if_pos rfl)
  have hused : e + 1 < h.used.toNat := by
    have hend := hvol.laid.end_eq
    rw [spanAll_append, spanAll_cons, spanAll_cons, File.span, File.span] at hend
    have : e = 1 + spanAll pre + (1 + f.payload.length) := rfl
    have : u = fs.partitionHeader.used.toNat + (newBlocks f data off - f.payload.length) := rfl
    omega
  -- so the walk for the later file finds nothing
  have hq : (Path.ofBytes g.name).str = g.name :=
    str_ofBytes (hvol.laid.zero_not_mem_name g (by simp [hg])) (by omega)
  have hfinds := (hkeep _ hread res _ m' hrun g' hg' hne (by rw [hname]; exact hglen)
    (Path.ofBytes g.name) (hq.trans hname.symm)).1
  have hv : ({ fs.withName path with partitionHeader := h } : AbtrFS).deviceHandle
      ≠ invalidHandle := hvol.handle
  refine not_finds_lost hG hread hv hfront ?_ hused hzero hjump hfinds
  intro f' hf' hn
  have hfname : f'.name = g.name := by rw [← hq, hn.1]
  rcases List.mem_append.mp hf' with hf' | hf'
  · exact (List.pairwise_append.mp hdist).2.2 f' hf' g (by simp [hg]) hfname
  · rw [List.mem_singleton.mp hf'] at hfname
    exact hfg hfname

/-! ## The condition -/

/-- The condition is about shapes. -/
theorem Contained.congr {f₁ : File} {post₁ : List File} {data₁ : List UInt8}
    (h : Contained fs path data off f post) (hf : f₁.shape = f.shape)
    (hpost : post₁.map File.shape = post.map File.shape) (hdata : data₁.length = data.length) :
    Contained fs path data₁ off f₁ post₁ := by
  obtain ⟨_, hcount, hsize⟩ : f₁.name = f.name ∧ f₁.payload.length = f.payload.length ∧ f₁.size = f.size :=
    ⟨congrArg Prod.fst hf, congrArg (·.2.1) hf, congrArg (·.2.2) hf⟩
  have hblocks : newBlocks f₁ data₁ off = newBlocks f data off := by
    unfold newBlocks newLength File.length
    rw [hcount, hsize, hdata]
  unfold Contained
  rw [hblocks, hcount]
  refine h.imp id (Or.imp id (Or.imp id (Or.imp id ?_)))
  intro hlong g hg
  have hmem : g.shape ∈ post.map File.shape := by
    rw [← hpost]
    exact List.mem_map_of_mem hg
  obtain ⟨g', hg', hshape⟩ := List.mem_map.mp hmem
  have hname : g'.name = g.name := congrArg Prod.fst hshape
  rw [← hname]
  exact hlong g' hg'

/-- A contained write keeps the others. -/
theorem Contained.keepsOthers (h : Contained fs path data off f post)
    (hvol : Volume fs m.disk (pre ++ f :: post))
    (hdist : (pre ++ f :: post).Pairwise fun g g' => g.name ≠ g'.name) (hp : path.str = f.name)
    (hoff : off.toNat + data.length < 2 ^ 63) : KeepsOthers fs m (pre ++ f :: post) path data off := by
  by_cases hslash : ∀ b ∈ path.str, b = slash
  · -- the call returns at once
    intro c hread res fs' m' hrun g hg _ hlen q hq
    rw [writeFile, if_neg (by simp [hvol.mounted]), if_pos ((chopPath_eq_nil path).mpr hslash)] at hrun
    obtain ⟨hres, rfl⟩ := Prod.mk.inj hrun
    obtain ⟨_, rfl⟩ := Prod.mk.inj (Except.ok.inj hres)
    exact keeps_quiet hvol (Quiet.refl m) hread hg ⟨hq, by rw [hq]; exact hlen⟩
  · have hseg : chopPath path ≠ [] := fun h => hslash ((chopPath_eq_nil path).mp h)
    by_cases hlong : 254 < path.str.length
    · exact keepsOthers_long hvol hlong hseg hoff
    · exact keepsOthers_found hvol (not_named_of_distinct hdist hp) ⟨hp, Nat.le_of_not_lt hlong⟩ hseg hoff
        ((h.resolve_left hslash).resolve_left hlong)

/-- **When a write keeps the other files.** A contained write always does; and when every write on a
    volume of some shape does, whatever the contents and the data, then it is contained. -/
theorem keepsOthers_iff (hvol : Volume fs m.disk (pre ++ f :: post))
    (hdist : (pre ++ f :: post).Pairwise fun g g' => g.name ≠ g'.name) (hp : path.str = f.name)
    (hoff : off.toNat + data.length < 2 ^ 63) :
    (Contained fs path data off f post → KeepsOthers fs m (pre ++ f :: post) path data off)
    ∧ ((∀ g ∈ pre ++ f :: post, g.Ok) →
      ((∀ (m₁ : Machine) (files₁ : List File) (data₁ : List UInt8), Volume fs m₁.disk files₁ →
          files₁.map File.shape = (pre ++ f :: post).map File.shape → data₁.length = data.length →
          KeepsOthers fs m₁ files₁ path data₁ off) ↔ Contained fs path data off f post)) := by
  refine ⟨fun h => h.keepsOthers hvol hdist hp hoff, fun hok => ⟨fun hkeep => ?_, fun h => ?_⟩⟩
  · by_contra hcond
    simp only [Contained, not_or] at hcond
    obtain ⟨hslash, hlong, hgrow, hroom, hpost⟩ := hcond
    have hseg : chopPath path ≠ [] := fun h => hslash ((chopPath_eq_nil path).mp h)
    simp only [not_forall, Nat.not_lt] at hpost
    obtain ⟨g, hg, hglen⟩ := hpost
    cases post with
    | nil => cases hg
    | cons g₁ post' =>
        obtain ⟨m₁, g₂, hvol₁, hshape, hlost⟩ := not_keepsOthers hvol hdist (hok f (by simp))
          (hok g₁ (by simp)) hp (Nat.le_of_not_lt hlong) hseg hoff (Nat.lt_of_not_le hgrow)
          (Nat.le_of_not_lt hroom) hg hglen
        refine hlost (hkeep m₁ _ _ hvol₁ ?_ (by simp))
        simp [hshape]
  · intro m₁ files₁ data₁ hvol₁ hshape hdata
    rw [List.map_append, List.map_cons] at hshape
    obtain ⟨pre₁, rest, rfl, hpre₁, hrest⟩ := List.map_eq_append_iff.mp hshape
    obtain ⟨f₁, post₁, rfl, hf₁, hpost₁⟩ := List.map_eq_cons_iff.mp hrest
    have hnames : (pre₁ ++ f₁ :: post₁).map File.name = (pre ++ f :: post).map File.name := by
      have := congrArg (List.map Prod.fst) hshape
      rw [← List.map_cons, ← List.map_append, List.map_map, List.map_map] at this
      exact this
    have hdist₁ : (pre₁ ++ f₁ :: post₁).Pairwise fun g g' => g.name ≠ g'.name := by
      rw [← List.pairwise_map (R := (· ≠ ·)), hnames, List.pairwise_map]
      exact hdist
    have hname : f₁.name = f.name := congrArg Prod.fst hf₁
    exact (h.congr hf₁ hpost₁ hdata).keepsOthers hvol₁ hdist₁ (hp.trans hname.symm) (by rw [hdata]; exact hoff)

/-- The volume with two files, `a` and `b`, of one byte each. -/
def twoFiles : List (Path × List UInt8) := [(pathA, [1]), (pathB, [7])]

theorem volume_twoFiles : Volume (layFs twoFiles) (layDisk twoFiles) (layFiles twoFiles) :=
  volume_layDisk (by decide)

theorem distinct_twoFiles : (layFiles twoFiles).Pairwise fun g g' => g.name ≠ g'.name := by
  have hb : (created pathB [7]).name = [0x62] := name_b _ (by simp [layFiles])
  simp [layFiles, twoFiles, name_pathA, hb]

/-- A write inside `a` keeps `b`. -/
theorem keepsOthers_inside :
    KeepsOthers (layFs twoFiles) (Machine.start (layDisk twoFiles)) (layFiles twoFiles) pathA [2] 0 :=
  (@keepsOthers_iff _ _ [] _ _ _ _ _ volume_twoFiles distinct_twoFiles (by rw [str_pathA, name_pathA])
    (by decide)).1 (Or.inr (Or.inr (Or.inl (by decide +kernel))))

/-- **A file that grows destroys the next one.** -/
theorem growth_destroys :
    WellLaidOut (layFs twoFiles) (layDisk twoFiles) (layFiles twoFiles)
    ∧ pathA.str = (created pathA [1]).name ∧ (created pathB [7]) ∈ layFiles twoFiles
    ∧ ((writeThenRead (honest workingMachine) (layFs twoFiles) pathA [2] 4096 pathB).run
        (Machine.start (layDisk twoFiles))).1 = .ok (.success, .error .fileNotFound)
    ∧ readResult (layFiles twoFiles) pathB = .ok (created pathB [7]).content := by
  refine ⟨wellLaidOut_layDisk (by simp [twoFiles]) (by decide) distinct_twoFiles,
    by rw [str_pathA, name_pathA], by simp [layFiles, twoFiles], by decide +kernel, ?_⟩
  have hb : (created pathB [7]).name = [0x62] := name_b _ (by simp [layFiles])
  have hfind : (layFiles twoFiles).find? (fun f => decide (f.Named pathB)) = some (created pathB [7]) := by
    simp [layFiles, twoFiles, File.Named, name_pathA, hb, str_pathB]
  rw [readResult, if_neg (chopPath_ne_nil (by rw [str_pathB]; decide)), hfind]

end AlopexOS
