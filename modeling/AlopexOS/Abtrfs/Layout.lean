import AlopexOS.Abtrfs.Device
import AlopexOS.Lib.Word

/-!
# `Abtrfs.Layout` — volumes that are a sequence of files

Nothing on a volume lists its files. They are found by stepping from header to header, so a volume is in
order when its used blocks are one file after the other, each a header block that counts its payload
blocks, followed by exactly that many.

## Contents
- **Files.** `File`, the header that describes one, and `Laid`, a run of files on a disk.
- **The header walk** as a function (`scan`) of the disk and of the reads that succeed.
- **The walk over a run of files**: it visits headers only.
- **Volumes.** `WellLaidOut`.
-/

namespace AlopexOS

open Packed ByteString CString Prog

/-! ## Files -/

/-- A file as it is stored. -/
structure File where
  name : List UInt8
  payload : List Block
  /-- How much of the last block is content. -/
  size : Nat

namespace File

/-- The length: whole blocks but the last, as a 64-bit word like every size. -/
def length (f : File) : Nat :=
  if f.payload.length = 0 then 0 else ((f.payload.length - 1) * 4096 + f.size) % 2 ^ 64

/-- What is read: the payload up to the length, and zeros when it ends before that. -/
def content (f : File) : List UInt8 := Dynarr.resized (joinBlocks f.payload) f.length

/-- The blocks a file fills, its header included. -/
def span (f : File) : Nat := 1 + f.payload.length

/-- A file as `writeFile` stores it: at least one block, the last neither empty nor overfull, and a name
    that fits with its NUL. -/
structure Ok (f : File) : Prop where
  payload_pos : 0 < f.payload.length
  size_pos : 0 < f.size
  size_le : f.size ≤ 4096
  name_le : f.name.length ≤ 255

end File

/-- The block `b` is the header of `f` when it is stored at `a`. -/
structure IsHeader (b : Block) (f : File) (a : Nat) : Prop where
  isFile : AbtrFSDiskHeader.isFile ⟨b⟩ = true
  sectionCount : (AbtrFSDiskHeader.sectionCount ⟨b⟩).toNat = f.payload.length
  size : (AbtrFSDiskHeader.size ⟨b⟩).toNat = f.size
  payloadOffset : (AbtrFSDiskHeader.payloadOffset ⟨b⟩).toNat = a + 1
  str : AbtrFSDiskHeader.str ⟨b⟩ = f.name

/-- The blocks from `a` on hold `bs`. -/
def Holds (disk : Nat → Block) (a : Nat) : List Block → Prop
  | [] => True
  | b :: bs => disk a = b ∧ Holds disk (a + 1) bs

/-- The blocks from `a` up to `b` are the files `fs`, one after the other. -/
def Laid (disk : Nat → Block) : Nat → List File → Nat → Prop
  | a, [], b => a = b
  | a, f :: fs, b =>
      IsHeader (disk a) f a ∧ Holds disk (a + 1) f.payload ∧ Laid disk (a + f.span) fs b

/-- The blocks a run of files fills. -/
def spanAll (fs : List File) : Nat := (fs.map File.span).sum

variable {disk disk' : Nat → Block} {a b : Nat} {files : List File}

@[simp] theorem spanAll_nil : spanAll [] = 0 := rfl

@[simp] theorem spanAll_cons (f : File) (fs : List File) : spanAll (f :: fs) = f.span + spanAll fs :=
  rfl

theorem spanAll_append (fs gs : List File) : spanAll (fs ++ gs) = spanAll fs + spanAll gs := by
  simp [spanAll]

theorem length_le_spanAll (fs : List File) : fs.length ≤ spanAll fs := by
  induction fs with
  | nil => exact Nat.le_refl 0
  | cons f fs ih =>
      simp only [List.length_cons, spanAll_cons, File.span]
      omega

theorem Holds.congr {bs : List Block} (h : Holds disk a bs)
    (hag : ∀ i, a ≤ i → i < a + bs.length → disk' i = disk i) : Holds disk' a bs := by
  induction bs generalizing a with
  | nil => trivial
  | cons b bs ih =>
      simp only [List.length_cons] at hag
      exact ⟨(hag a (Nat.le_refl a) (by omega)).trans h.1,
        ih h.2 fun i hi hlt => hag i (by omega) (by omega)⟩

theorem Holds.getElem {bs : List Block} (h : Holds disk a bs) {i : Nat} (hi : i < bs.length) :
    disk (a + i) = bs[i] := by
  induction bs generalizing a i with
  | nil => exact absurd hi (by simp)
  | cons b bs ih =>
      cases i with
      | zero => exact h.1
      | succ i =>
          have := ih h.2 (i := i) (by simpa using hi)
          rwa [show a + 1 + i = a + (i + 1) by omega] at this

theorem holds_iff {bs : List Block} :
    Holds disk a bs ↔ ∀ (i : Nat) (hi : i < bs.length), disk (a + i) = bs[i] := by
  constructor
  · exact fun h i hi => h.getElem hi
  · intro h
    induction bs generalizing a with
    | nil => trivial
    | cons b bs ih =>
        refine ⟨h 0 (by simp), ih fun i hi => ?_⟩
        have := h (i + 1) (by simpa using hi)
        rwa [show a + (i + 1) = a + 1 + i by omega] at this

namespace Laid

theorem end_eq (h : Laid disk a files b) : b = a + spanAll files := by
  induction files generalizing a with
  | nil => exact h.symm
  | cons f fs ih =>
      rw [ih h.2.2, spanAll_cons, Nat.add_assoc]

/-- A run of files depends on its own blocks only. -/
theorem congr (h : Laid disk a files b) (hag : ∀ i, a ≤ i → i < b → disk' i = disk i) :
    Laid disk' a files b := by
  induction files generalizing a with
  | nil => exact h
  | cons f fs ih =>
      obtain ⟨hh, hp, hrest⟩ := h
      have hb := hrest.end_eq
      unfold File.span at hb
      refine ⟨?_, ?_, ?_⟩
      · rw [hag a (Nat.le_refl a) (by omega)]
        exact hh
      · exact hp.congr fun i hi hlt => hag i (by omega) (by omega)
      · apply ih hrest
        unfold File.span
        exact fun i hi hlt => hag i (by omega) hlt

theorem append_iff {fs gs : List File} :
    Laid disk a (fs ++ gs) b ↔ Laid disk a fs (a + spanAll fs) ∧ Laid disk (a + spanAll fs) gs b := by
  induction fs generalizing a with
  | nil => simp [Laid]
  | cons f fs ih =>
      simp only [List.cons_append, Laid, ih, spanAll_cons, Nat.add_assoc, and_assoc]

/-- A file of the run, where it is stored. -/
theorem file {fs gs : List File} {f : File} (h : Laid disk a (fs ++ f :: gs) b) :
    IsHeader (disk (a + spanAll fs)) f (a + spanAll fs)
      ∧ Holds disk (a + spanAll fs + 1) f.payload
      ∧ Laid disk (a + spanAll fs + f.span) gs b :=
  (append_iff.mp h).2

end Laid

namespace File

variable {f : File}

@[simp] theorem length_content (f : File) : f.content.length = f.length := Dynarr.length_resized _ _

theorem length_lt (f : File) : f.length < 2 ^ 64 := by
  unfold File.length
  split
  · exact Nat.two_pow_pos 64
  · exact Nat.mod_lt _ (Nat.two_pow_pos 64)

theorem Ok.length_le (h : f.Ok) : f.length ≤ f.payload.length * 4096 := by
  have hpos := h.payload_pos
  have hsize := h.size_le
  unfold length
  rw [if_neg (by omega)]
  exact Nat.le_trans (Nat.mod_le _ _) (by omega)

/-- The payload of such a file holds all of its content. -/
theorem Ok.content_eq (h : f.Ok) : f.content = (joinBlocks f.payload).take f.length := by
  have hle := h.length_le
  rw [← length_joinBlocks] at hle
  unfold content Dynarr.resized
  rw [Nat.sub_eq_zero_of_le hle, List.replicate_zero, List.append_nil]

end File

/-! ## The header walk -/

/-- The header walk from block `curr` on when `r` reads have been made: what it finds, and the reads made
    then; `none` when it is not over after `n` rounds. -/
def scan (readOk : Nat → Bool) (disk : Nat → Block) (path : Path) (used : UInt64) :
    Nat → UInt64 → Nat → Option (Option AbtrFSDiskHeader × Nat)
  | 0, _, _ => none
  | n + 1, curr, r =>
      if curr < used then
        if readOk r = true then
          let header : AbtrFSDiskHeader := ⟨disk curr.toNat⟩
          if header.isFile = true ∧ isPathEqual path header.pathByte = true then
            some (some header, r + 1)
          else scan readOk disk path used n (curr + header.skip) (r + 1)
        else some (none, r + 1)
      else some (none, r)

variable {c : Conditions} {fs : AbtrFS} {path : Path} {used : UInt64}

/-- **The walk computes `scan`**, and changes nothing but the count of reads. -/
theorem run_walk (c : Conditions) (path : Path) (used : UInt64)
    (hv : fs.deviceHandle ≠ invalidHandle) (n : Nat) (curr : UInt64) (buffer : Block)
    (m : Machine) :
    match scan c.readOk m.disk path used n curr m.reads with
    | some (o, r) => (walk (honest c) fs path used n curr buffer).run m = (.ok o, { m with reads := r })
    | none => ∃ m', (walk (honest c) fs path used n curr buffer).run m = (.error .hang, m') := by
  induction n generalizing curr buffer m with
  | zero => exact ⟨m, rfl⟩
  | succ n ih =>
      simp only [scan, walk]
      by_cases hlt : curr < used
      · simp only [hlt, if_true, run_bind, run_readBlock hv, andThen_ok]
        by_cases hok : c.readOk m.reads = true
        · simp only [hok, if_true]
          by_cases hmatch : AbtrFSDiskHeader.isFile ⟨m.disk curr.toNat⟩ = true
              ∧ isPathEqual path (AbtrFSDiskHeader.pathByte ⟨m.disk curr.toNat⟩) = true
          · simp only [hmatch, and_self, if_true]
            rfl
          · simp only [hmatch, if_false]
            exact ih _ _ { m with reads := m.reads + 1 }
        · simp only [hok, Bool.false_eq_true, if_false]
          rfl
      · simp only [hlt, if_false]
        rfl

/-- `findFileHeader` asks for its buffer and then walks. -/
theorem run_findFileHeader (path : Path) (hv : fs.deviceHandle ≠ invalidHandle) {m : Machine}
    (hnew : c.newOk m.news 4096 = true) :
    match scan c.readOk m.disk path fs.partitionHeader.used c.walkBound 1 m.reads with
    | some (o, r) => (findFileHeader (honest c) fs path).run m
        = (.ok o, { m with news := m.news + 1, reads := r })
    | none => ∃ m', (findFileHeader (honest c) fs path).run m = (.error .hang, m') := by
  have hrun : (findFileHeader (honest c) fs path).run m
      = (walk (honest c) fs path fs.partitionHeader.used c.walkBound 1
          AbtrFSDiskHeader.init.bytes).run { m with news := m.news + 1 } := by
    simp only [findFileHeader, run_bind, honest, hnew, if_true, andThen_ok]
  rw [hrun]
  exact run_walk c path fs.partitionHeader.used hv c.walkBound 1 _ { m with news := m.news + 1 }

/-- More rounds do not change an answer. -/
theorem scan_mono {readOk : Nat → Bool} {n n' : Nat} {curr : UInt64} {r : Nat}
    {x : Option AbtrFSDiskHeader × Nat} (h : scan readOk disk path used n curr r = some x)
    (hn : n ≤ n') : scan readOk disk path used n' curr r = some x := by
  induction n generalizing n' curr r with
  | zero => exact absurd h (by simp [scan])
  | succ n ih =>
      obtain ⟨n', rfl⟩ : ∃ k, n' = k + 1 := ⟨n' - 1, by omega⟩
      simp only [scan] at h ⊢
      split
      · rename_i hlt
        simp only [hlt, if_true] at h
        split
        · rename_i hok
          simp only [hok, if_true] at h
          split
          · rename_i hm
            simpa only [hm, and_self, if_true] using h
          · rename_i hm
            simp only [hm, if_false] at h
            exact ih h (by omega)
        · rename_i hok
          simpa only [hok, if_false, Bool.false_eq_true] using h
      · rename_i hlt
        simpa only [hlt, if_false] using h

/-! ## The walk over a run of files -/

/-- The path names the file, as far as the walk can tell. -/
def File.Named (f : File) (path : Path) : Prop := path.str = f.name ∧ path.str.length ≤ 254

instance (f : File) (path : Path) : Decidable (f.Named path) := inferInstanceAs (Decidable (_ ∧ _))

/-- The first file with a property, and what comes before it, are unique. -/
theorem first_unique {M : File → Prop} {pre pre' post post' : List File} {f f' : File}
    (h : pre ++ f :: post = pre' ++ f' :: post') (hpre : ∀ g ∈ pre, ¬ M g) (hf : M f)
    (hpre' : ∀ g ∈ pre', ¬ M g) (hf' : M f') : pre = pre' ∧ f = f' ∧ post = post' := by
  induction pre generalizing pre' with
  | nil =>
      cases pre' with
      | nil =>
          obtain ⟨rfl, rfl⟩ := List.cons.inj h
          exact ⟨rfl, rfl, rfl⟩
      | cons g pre' =>
          obtain ⟨rfl, _⟩ := List.cons.inj h
          exact absurd hf (hpre' f (by simp))
  | cons g pre ih =>
      cases pre' with
      | nil =>
          obtain ⟨rfl, _⟩ := List.cons.inj h
          exact absurd hf' (hpre g (by simp))
      | cons g' pre' =>
          obtain ⟨rfl, h'⟩ := List.cons.inj h
          obtain ⟨rfl, rfl, rfl⟩ := ih h' (fun x hx => hpre x (by simp [hx]))
            (fun x hx => hpre' x (by simp [hx]))
          exact ⟨rfl, rfl, rfl⟩

/-- How a walk over files ends: past the last file, at the first file the path names, or at the first
    read that fails. In each case it has read the headers up to there, and nothing else. -/
inductive ScanEnds (readOk : Nat → Bool) (disk : Nat → Block) (path : Path) (files : List File)
    (a r : Nat) : Option (Option AbtrFSDiskHeader × Nat) → Prop
  | absent (hm : ∀ f ∈ files, ¬ f.Named path) (hr : ∀ i < files.length, readOk (r + i) = true) :
      ScanEnds readOk disk path files a r (some (none, r + files.length))
  | found (pre post : List File) (f : File) (hf : files = pre ++ f :: post)
      (hpre : ∀ g ∈ pre, ¬ g.Named path) (hm : f.Named path)
      (hr : ∀ i ≤ pre.length, readOk (r + i) = true) :
      ScanEnds readOk disk path files a r
        (some (some ⟨disk (a + spanAll pre)⟩, r + pre.length + 1))
  | failed (pre post : List File) (f : File) (hf : files = pre ++ f :: post)
      (hpre : ∀ g ∈ pre, ¬ g.Named path) (hr : ∀ i < pre.length, readOk (r + i) = true)
      (hbad : readOk (r + pre.length) = false) :
      ScanEnds readOk disk path files a r (some (none, r + pre.length + 1))

/-- A path that names no file is not found. -/
theorem ScanEnds.eq_none {readOk : Nat → Bool} {r r' : Nat} {o : Option AbtrFSDiskHeader}
    (h : ScanEnds readOk disk path files a r (some (o, r'))) (hm : ∀ f ∈ files, ¬ f.Named path) :
    o = none := by
  generalize hx : some (o, r') = x at h
  cases h with
  | absent _ _ => exact (Prod.mk.inj (Option.some.inj hx)).1
  | failed _ _ _ _ _ _ _ => exact (Prod.mk.inj (Option.some.inj hx)).1
  | found pre post f hf _ hnamed _ => exact absurd hnamed (hm f (by rw [hf]; simp))

/-- The first file it does name is found, when no read fails. -/
theorem ScanEnds.eq_some {readOk : Nat → Bool} {r r' : Nat} {o : Option AbtrFSDiskHeader} {f : File}
    {pre post : List File} (h : ScanEnds readOk disk path (pre ++ f :: post) a r (some (o, r')))
    (hpre : ∀ g ∈ pre, ¬ g.Named path) (hm : f.Named path) (hread : ∀ k, readOk k = true) :
    o = some ⟨disk (a + spanAll pre)⟩ := by
  generalize hx : some (o, r') = x at h
  cases h with
  | absent hno _ => exact absurd hm (hno f (by simp))
  | failed _ _ _ _ _ _ hbad =>
      rw [hread] at hbad
      cases hbad
  | found pre' post' f' hf' hpre' hm' _ =>
      obtain ⟨rfl, _, _⟩ := first_unique hf' hpre hm hpre' hm'
      exact (Prod.mk.inj (Option.some.inj hx)).1

/-- A file that is passed by, in front of the rest. -/
theorem ScanEnds.cons {readOk : Nat → Bool} {f : File} {r : Nat}
    {x : Option (Option AbtrFSDiskHeader × Nat)}
    (h : ScanEnds readOk disk path files (a + f.span) (r + 1) x) (hf : ¬ f.Named path)
    (hr : readOk r = true) : ScanEnds readOk disk path (f :: files) a r x := by
  have hshift : ∀ k, (∀ i < k, readOk (r + 1 + i) = true) → ∀ i < k + 1, readOk (r + i) = true := by
    intro k hk i hi
    cases i with
    | zero => exact hr
    | succ i =>
        have := hk i (Nat.lt_of_succ_lt_succ hi)
        rwa [show r + 1 + i = r + (i + 1) by omega] at this
  cases h with
  | absent hm hr' =>
      rw [show r + 1 + files.length = r + (f :: files).length by simp; omega]
      exact .absent (List.forall_mem_cons.mpr ⟨hf, hm⟩) (hshift _ hr')
  | found pre post g hg hpre hm hr' =>
      rw [show a + f.span + spanAll pre = a + spanAll (f :: pre) by simp; omega,
        show r + 1 + pre.length + 1 = r + (f :: pre).length + 1 by simp; omega]
      refine .found (f :: pre) post g (by rw [hg]; rfl) (List.forall_mem_cons.mpr ⟨hf, hpre⟩) hm ?_
      intro i hi
      exact hshift (pre.length + 1) (fun k hk => hr' k (Nat.le_of_lt_succ hk)) i (Nat.lt_succ_of_le hi)
  | failed pre post g hg hpre hr' hbad =>
      rw [show r + 1 + pre.length + 1 = r + (f :: pre).length + 1 by simp; omega]
      refine .failed (f :: pre) post g (by rw [hg]; rfl) (List.forall_mem_cons.mpr ⟨hf, hpre⟩)
        (hshift _ hr') ?_
      rwa [show r + 1 + pre.length = r + (f :: pre).length by simp; omega] at hbad

/-- A header decides whether the path names its file. -/
theorem IsHeader.match_iff {blk : Block} {f : File} (h : IsHeader blk f a) :
    (AbtrFSDiskHeader.isFile ⟨blk⟩ = true
      ∧ isPathEqual path (AbtrFSDiskHeader.pathByte ⟨blk⟩) = true) ↔ f.Named path := by
  rw [isPathEqual_iff, h.str]
  exact ⟨fun hm => hm.2, fun hm => ⟨h.isFile, hm⟩⟩

/-- A header steps the walk to the next file. -/
theorem IsHeader.skip_eq {blk : Block} {f : File} (h : IsHeader blk f a) (hlt : f.span < 2 ^ 64) :
    (AbtrFSDiskHeader.skip ⟨blk⟩).toNat = f.span := by
  have hmagic : AbtrFSDiskHeader.magic ⟨blk⟩ = 0xABF5 := by
    have := h.isFile
    simp only [AbtrFSDiskHeader.isFile, decide_eq_true_eq] at this
    exact this.1
  have hcount := h.sectionCount
  unfold AbtrFSDiskHeader.skip File.span
  unfold File.span at hlt
  split
  · rw [UInt64.toNat_add, hcount]
    exact Nat.mod_eq_of_lt hlt
  · rename_i hno
    have hzero : ¬ 0 < AbtrFSDiskHeader.sectionCount ⟨blk⟩ := fun h0 => hno ⟨hmagic, h0⟩
    rw [UInt64.lt_iff_toNat_lt, hcount] at hzero
    rw [Nat.eq_zero_of_not_pos hzero]
    rfl

/-- **The walk over a run of files reads headers only.** It need not know what follows the run when the
    path names a file in it. -/
theorem scan_laid (readOk : Nat → Bool) (path : Path) (curr : UInt64) {n : Nat} (r : Nat)
    (hl : Laid disk a files b) (hcurr : curr.toNat = a) (hused : b ≤ used.toNat)
    (hend : b = used.toNat ∨ ∃ f ∈ files, f.Named path) (hn : files.length < n) :
    ScanEnds readOk disk path files a r (scan readOk disk path used n curr r) := by
  induction files generalizing curr a n r with
  | nil =>
      obtain ⟨n, rfl⟩ : ∃ k, n = k + 1 := ⟨n - 1, by omega⟩
      have hab : a = b := hl
      have hge : ¬ curr < used := by
        have hend' : b = used.toNat := by simpa using hend
        rw [UInt64.lt_iff_toNat_lt]
        omega
      simp only [scan, hge, if_false]
      exact .absent (by simp) (by simp)
  | cons f fs ih =>
      obtain ⟨n, rfl⟩ : ∃ k, n = k + 1 := ⟨n - 1, by omega⟩
      obtain ⟨hh, hp, hrest⟩ := hl
      have hb := hrest.end_eq
      have hb64 := used.toNat_lt
      have hspan : 0 < f.span := by
        unfold File.span
        omega
      have hlt : curr < used := by
        rw [UInt64.lt_iff_toNat_lt]
        omega
      simp only [scan, hlt, if_true, hcurr]
      by_cases hread : readOk r = true
      · simp only [hread, if_true]
        by_cases hnamed : f.Named path
        · rw [if_pos (hh.match_iff.mpr hnamed)]
          apply ScanEnds.found [] fs f rfl (by simp) hnamed
          intro i hi
          obtain rfl : i = 0 := Nat.le_zero.mp hi
          exact hread
        · rw [if_neg (fun hm => hnamed (hh.match_iff.mp hm))]
          have hskip := hh.skip_eq (by omega)
          have hnext : (curr + AbtrFSDiskHeader.skip ⟨disk a⟩).toNat = a + f.span := by
            rw [UInt64.toNat_add, hskip, hcurr]
            exact Nat.mod_eq_of_lt (by omega)
          have hend' : b = used.toNat ∨ ∃ g ∈ fs, g.Named path :=
            hend.imp_right fun h => by simpa [hnamed] using h
          exact (ih _ _ hrest hnext hend' (Nat.lt_of_succ_lt_succ hn)).cons hnamed hread
      · simp only [hread, Bool.false_eq_true, if_false]
        exact ScanEnds.failed [] fs f rfl (by simp) (by simp) (by simpa using hread)

/-- The walk passes files that the path does not name. -/
theorem scan_pass {readOk : Nat → Bool} (hread : ∀ i, readOk i = true) (path : Path) (curr : UInt64)
    (n r : Nat) (hl : Laid disk a files b) (hcurr : curr.toNat = a) (hused : b ≤ used.toNat)
    (hm : ∀ f ∈ files, ¬ f.Named path) :
    ∃ curr' : UInt64, curr'.toNat = b ∧ scan readOk disk path used (files.length + n) curr r
      = scan readOk disk path used n curr' (r + files.length) := by
  induction files generalizing curr a r with
  | nil => exact ⟨curr, hcurr.trans hl, by rw [List.length_nil, Nat.zero_add, Nat.add_zero]⟩
  | cons f fs ih =>
      obtain ⟨hh, _, hrest⟩ := hl
      obtain ⟨hf, hm⟩ := List.forall_mem_cons.mp hm
      have hb := hrest.end_eq
      have hb64 := used.toNat_lt
      have hspan : 0 < f.span := by
        unfold File.span
        omega
      have hlt : curr < used := by
        rw [UInt64.lt_iff_toNat_lt]
        omega
      have hskip := hh.skip_eq (by omega)
      have hnext : (curr + AbtrFSDiskHeader.skip ⟨disk a⟩).toNat = a + f.span := by
        rw [UInt64.toNat_add, hskip, hcurr]
        exact Nat.mod_eq_of_lt (by omega)
      obtain ⟨curr', hcurr', hscan⟩ := ih (curr + AbtrFSDiskHeader.skip ⟨disk a⟩) (r + 1) hrest hnext hm
      refine ⟨curr', hcurr', ?_⟩
      rw [List.length_cons, show fs.length + 1 + n = (fs.length + n) + 1 by omega, scan, if_pos hlt,
        if_pos (hread r), hcurr, if_neg (fun h => hf (hh.match_iff.mp h)), hscan]
      congr 1
      omega

/-! ## Volumes -/

/-- A mounted volume whose used blocks are the files `files`. -/
structure Volume (fs : AbtrFS) (disk : Nat → Block) (files : List File) : Prop where
  mounted : fs.isMounted = true
  handle : fs.deviceHandle ≠ invalidHandle
  free_le : fs.partitionHeader.freeBlocksCount.toNat ≤ fs.partitionHeader.totalBlocks.toNat
  laid : Laid disk 1 files fs.partitionHeader.used.toNat

/-- A volume is well laid out when its files are as `writeFile` stores them, with distinct names. -/
structure WellLaidOut (fs : AbtrFS) (disk : Nat → Block) (files : List File) : Prop
    extends Volume fs disk files where
  ok : ∀ f ∈ files, f.Ok
  distinct : files.Pairwise fun f g => f.name ≠ g.name

/-- Some first blocks are the files `files`; there may be more when one of these is the one looked for. -/
structure Front (fs : AbtrFS) (disk : Nat → Block) (files : List File) (path : Path) : Prop where
  mounted : fs.isMounted = true
  handle : fs.deviceHandle ≠ invalidHandle
  laid : ∃ b, Laid disk 1 files b ∧ b ≤ fs.partitionHeader.used.toNat
    ∧ (b = fs.partitionHeader.used.toNat ∨ ∃ f ∈ files, f.Named path)

theorem Volume.front (h : Volume fs disk files) (path : Path) : Front fs disk files path :=
  ⟨h.mounted, h.handle, _, h.laid, Nat.le_refl _, Or.inl rfl⟩

theorem PartitionHeader.toNat_used {h : PartitionHeader}
    (hle : h.freeBlocksCount.toNat ≤ h.totalBlocks.toNat) :
    h.used.toNat = h.totalBlocks.toNat - h.freeBlocksCount.toNat :=
  Word.toNat_sub_of_le hle

/-- **`findFileHeader` on a volume** walks over its headers. -/
theorem runs_findFileHeader {m : Machine} (hvol : Front fs m.disk files path) :
    Runs c.Generous (findFileHeader (honest c) fs path) m
      (fun o m' => Quiet m m'
        ∧ ScanEnds c.readOk m.disk path files 1 m.reads (some (o, m'.reads))) := by
  refine (runs_operatorNew 4096 m).bind ?_
  rintro _ m₁ ⟨hq, hr⟩
  obtain ⟨b, hlaid, hb, hend⟩ := hvol.laid
  have hlen := length_le_spanAll files
  have hspan := hlaid.end_eq
  have hlt := fs.partitionHeader.used.toNat_lt
  have hwalk := run_walk c path fs.partitionHeader.used hvol.handle c.walkBound 1
    AbtrFSDiskHeader.init.bytes m₁
  rw [hr, hq.disk] at hwalk
  cases hscan : scan c.readOk m.disk path fs.partitionHeader.used c.walkBound 1 m.reads with
  | none =>
      rw [hscan] at hwalk
      obtain ⟨m', hrun⟩ := hwalk
      simp only [Runs, honest] at hrun ⊢
      rw [hrun]
      -- a walk that may go on for long enough does end
      intro hG
      have hbound := hG.2
      have := scan_laid (c.readOk) path 1 m.reads hlaid rfl hb hend (show _ < c.walkBound by omega)
      rw [hscan] at this
      cases this
  | some x =>
      obtain ⟨o, r⟩ := x
      rw [hscan] at hwalk
      refine Runs.of_ok hwalk ⟨⟨rfl, hq.writes, hq.log⟩, ?_⟩
      have := scan_laid c.readOk path 1 m.reads hlaid rfl hb hend
        (show _ < c.walkBound + 2 ^ 64 by omega)
      rwa [scan_mono hscan (Nat.le_add_right _ _)] at this

end AlopexOS
