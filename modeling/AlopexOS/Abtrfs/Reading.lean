import AlopexOS.Abtrfs.Layout

/-!
# `Abtrfs.Reading` — `readFile` on a volume

What `readFile` returns from the start of a file, and which reads it makes: the headers up to the file,
then the blocks that hold what was asked for.
-/

namespace AlopexOS

open Packed ByteString Prog

variable {c : Conditions} {fs : AbtrFS} {path : Path} {files : List File} {a : Nat}

/-! ## The length of a file -/

theorem IsHeader.totalSize_eq {blk : Block} {f : File} (h : IsHeader blk f a) :
    (AbtrFSDiskHeader.totalSize ⟨blk⟩).toNat = f.length := by
  have hcount := h.sectionCount
  have hlt : (AbtrFSDiskHeader.sectionCount ⟨blk⟩).toNat < 2 ^ 64 := UInt64.toNat_lt _
  by_cases h0 : f.payload.length = 0
  · have hno : ¬ (0 : UInt64) < AbtrFSDiskHeader.sectionCount ⟨blk⟩ := by
      rw [UInt64.lt_iff_toNat_lt, hcount, h0]
      exact Nat.lt_irrefl _
    unfold AbtrFSDiskHeader.totalSize
    rw [if_neg hno, File.length, if_pos h0]
    rfl
  · have hpos : (0 : UInt64) < AbtrFSDiskHeader.sectionCount ⟨blk⟩ := by
      rw [UInt64.lt_iff_toNat_lt, hcount]
      exact Nat.pos_of_ne_zero h0
    have hone : (1 : UInt64) ≤ AbtrFSDiskHeader.sectionCount ⟨blk⟩ := by
      rw [UInt64.le_iff_toNat_le, hcount]
      exact Nat.pos_of_ne_zero h0
    unfold AbtrFSDiskHeader.totalSize
    rw [if_pos hpos, File.length, if_neg h0, UInt64.toNat_add, UInt64.toNat_mul,
      UInt64.toNat_sub_of_le _ _ hone, hcount, UInt16.toNat_toUInt64, h.size]
    show ((f.payload.length - 1) * 4096 % 2 ^ 64 + f.size) % 2 ^ 64 = _
    rw [Nat.mod_add_mod]

/-! ## The copying loop -/

/-- The reads it takes to copy so many bytes from stored blocks. -/
def copyReads (blocks remaining : Nat) : Nat := min (blocksFor 4096 remaining) blocks

/-- How the copying loop ends, given what the disk holds: with all there is of what was asked for, or
    right after a read that fails. -/
def CopyEnds (c : Conditions) (bs : List Block) (remaining : Nat) (m : Machine)
    (res : Bool × List UInt8) (m' : Machine) : Prop :=
  Quiet m m' ∧
  ((res = (true, (joinBlocks bs).take remaining)
      ∧ (∀ i < copyReads bs.length remaining, c.readOk (m.reads + i) = true)
      ∧ m'.reads = m.reads + copyReads bs.length remaining)
    ∨ (res.1 = false ∧ ∃ i < copyReads bs.length remaining, c.readOk (m.reads + i) = false
      ∧ m'.reads = m.reads + i + 1))

theorem copyReads_step {blocks remaining : Nat} (h : 0 < remaining) :
    copyReads (blocks + 1) remaining = copyReads blocks (remaining - 4096) + 1 := by
  unfold copyReads
  rw [blocksFor_step (show 0 < 4096 by decide) h]
  omega

/-- **The copying loop over stored blocks.** -/
theorem run_readBlocks (hv : fs.deviceHandle ≠ invalidHandle) (po count : UInt64) (bs : List Block)
    (n : Nat) (b : UInt64) (remaining : Nat) (buffer : Block) (m : Machine)
    (hb : b.toNat + bs.length = count.toNat) (hpo : po.toNat + count.toNat < 2 ^ 64)
    (hold : Holds m.disk (po.toNat + b.toNat) bs) (hn : remaining ≤ n) :
    ∃ res m', (readBlocks (honest c) fs po count n b 0 remaining buffer).run m = (.ok res, m')
      ∧ CopyEnds c bs remaining m res m' := by
  have hdone : ∀ (bs : List Block) (m : Machine), CopyEnds c bs 0 m (true, []) m :=
    fun bs m => ⟨Quiet.refl m, Or.inl ⟨by simp, by simp [copyReads, blocksFor], by simp [copyReads, blocksFor]⟩⟩
  induction n generalizing b remaining buffer m bs with
  | zero =>
      obtain rfl : remaining = 0 := Nat.le_zero.mp hn
      exact ⟨_, m, rfl, hdone bs m⟩
  | succ n ih =>
      by_cases h0 : remaining = 0
      · subst h0
        refine ⟨(true, []), m, ?_, hdone bs m⟩
        simp only [readBlocks, Nat.lt_irrefl, and_false, if_false]
        rfl
      · cases bs with
        | nil =>
            have hge : ¬ b < count := by
              rw [UInt64.lt_iff_toNat_lt, ← hb, List.length_nil]
              omega
            refine ⟨(true, []), m, ?_, Quiet.refl m,
              Or.inl ⟨by simp [joinBlocks], by simp [copyReads], by simp [copyReads]⟩⟩
            simp only [readBlocks, hge, false_and, if_false]
            rfl
        | cons x bs =>
            have hlt : b < count := by
              rw [UInt64.lt_iff_toNat_lt, ← hb, List.length_cons]
              omega
            have haddr : (po + b).toNat = po.toNat + b.toNat :=
              Word.toNat_add_of_lt (by omega)
            have hx : m.disk (po + b).toNat = x := by
              rw [haddr]
              exact hold.1
            have hstep : copyReads (x :: bs).length remaining
                = copyReads bs.length (remaining - 4096) + 1 := copyReads_step (by omega)
            simp only [readBlocks, hlt, show 0 < remaining by omega, and_self, if_true, run_bind,
              run_readBlock hv, andThen_ok]
            by_cases hok : c.readOk m.reads = true
            · simp only [hok, if_true, hx, List.drop_zero]
              have hlen : (x.toList.take remaining).length = min remaining 4096 := by
                rw [List.length_take, Bytes.length_toList]
              have hrest : remaining - (x.toList.take remaining).length = remaining - 4096 := by
                rw [hlen]
                omega
              have hb1 := Word.toNat_succ_of_lt hlt
              rw [List.length_cons] at hb
              obtain ⟨res, m', hrun, hq, hends⟩ := ih bs (b + 1) (remaining - 4096) x
                { m with reads := m.reads + 1 } (by omega)
                (by rw [hb1, ← Nat.add_assoc]; exact hold.2) (by omega)
              refine ⟨_, m', by rw [run_bind, hrest, hrun]; rfl, ⟨hq.disk, hq.writes, hq.log⟩, ?_⟩
              rcases hends with ⟨hres, hreads, hcount⟩ | ⟨hres, i, hi, hbad, hcount⟩
              · refine Or.inl ⟨?_, ?_, ?_⟩
                · rw [hres]
                  simp only [joinBlocks, List.flatMap_cons, List.take_append, Bytes.length_toList]
                · intro i hi
                  cases i with
                  | zero => exact hok
                  | succ i =>
                      have := hreads i (by omega)
                      rwa [show m.reads + 1 + i = m.reads + (i + 1) by omega] at this
                · have hcount' : m'.reads = m.reads + 1 + copyReads bs.length (remaining - 4096) := hcount
                  omega
              · have hcount' : m'.reads = m.reads + 1 + i + 1 := hcount
                refine Or.inr ⟨hres, i + 1, by omega, ?_, by omega⟩
                rwa [show m.reads + 1 + i = m.reads + (i + 1) by omega] at hbad
            · refine ⟨_, _, by simp only [hok, Bool.false_eq_true, if_false, run_pure]; rfl, ?_⟩
              refine ⟨⟨rfl, rfl, rfl⟩, Or.inr ⟨rfl, 0, by omega, by simpa using hok, rfl⟩⟩

/-! ## `readFile` -/

/-- How many bytes are read from the start of a file of `len` bytes under the limit `max`, where 0 is no
    limit. -/
def readLength (len max : Nat) : Nat := if 0 < max ∧ max < len then max else len

theorem readLength_le (len max : Nat) : readLength len max ≤ len := by
  unfold readLength
  split <;> omega

/-- What is read from the start of a file into an array that held `dest`: the stored bytes, and what the
    array has behind them. -/
def File.read (f : File) (len : Nat) (dest : List UInt8) : List UInt8 :=
  (joinBlocks f.payload).take len
    ++ (Dynarr.resized dest len).drop ((joinBlocks f.payload).take len).length

/-- Into an empty array all of the content is read. -/
theorem File.read_content (f : File) : f.read f.length [] = f.content := by
  unfold File.read File.content Dynarr.resized
  rw [List.take_nil, List.nil_append, List.drop_replicate, List.length_take, List.length_nil]
  congr 2
  omega

/-- The bytes of a file as `writeFile` stores them do not depend on the array. -/
theorem File.Ok.read_eq {f : File} (h : f.Ok) {len : Nat} (hle : len ≤ f.length) (dest : List UInt8) :
    f.read len dest = f.content.take len := by
  have hmax := h.length_le
  have hlen : ((joinBlocks f.payload).take len).length = len := by
    rw [List.length_take, length_joinBlocks]
    omega
  unfold File.read
  rw [hlen, List.drop_of_length_le (Nat.le_of_eq (Dynarr.length_resized dest len)), List.append_nil,
    h.content_eq, List.take_take, Nat.min_eq_left hle]

/-- The elements of the caller's array. -/
def given (data : Option Dynarr) : List UInt8 := (data.getD Dynarr.empty).elems

/-- How `readFile` from offset 0 ends on a volume, when it has a path with a segment: at a file it cannot
    find, with the first bytes of the file, or at a payload block that it cannot read; and the reads that
    were made then. -/
inductive ReadEnds (c : Conditions) (files : List File) (path : Path) (data : Option Dynarr) (max : Nat)
    (m : Machine) : Except ErrorCode (List UInt8) × Option Dynarr → Nat → Prop
  | missing {r : Nat} (hs : ScanEnds c.readOk m.disk path files 1 m.reads (some (none, r))) :
      ReadEnds c files path data max m (.error .fileNotFound, data) r
  | read (pre post : List File) (f : File) (d' : Option Dynarr) (hf : files = pre ++ f :: post)
      (hpre : ∀ g ∈ pre, ¬ g.Named path) (hm : f.Named path)
      (hr : ∀ i ≤ pre.length + copyReads f.payload.length (readLength f.length max),
        c.readOk (m.reads + i) = true)
      (hd : d'.map Dynarr.elems = data.map fun _ => f.read (readLength f.length max) (given data)) :
      ReadEnds c files path data max m (.ok (f.read (readLength f.length max) (given data)), d')
        (m.reads + pre.length + 1 + copyReads f.payload.length (readLength f.length max))
  | failed (pre post : List File) (f : File) (d' : Option Dynarr) (hf : files = pre ++ f :: post)
      (hpre : ∀ g ∈ pre, ¬ g.Named path) (hm : f.Named path) (i : Nat)
      (hr : ∀ i ≤ pre.length, c.readOk (m.reads + i) = true)
      (hi : i < copyReads f.payload.length (readLength f.length max))
      (hbad : c.readOk (m.reads + pre.length + 1 + i) = false) :
      ReadEnds c files path data max m (.error .ioError, d') (m.reads + pre.length + 1 + i + 1)

/-- `resize` asks for memory when it has to grow. -/
theorem runs_resize (d : Dynarr) (n : Nat) (m : Machine) :
    Runs c.Generous (Dynarr.resize (honest c) d n) m
      (fun d' m' => Still m m' ∧ d'.elems = Dynarr.resized d.elems n) := by
  unfold Dynarr.resize
  split
  · refine (runs_operatorNew n m).bind ?_
    rintro _ m₁ hs
    exact Runs.pure ⟨hs, rfl⟩
  · exact Runs.pure ⟨Still.refl m, rfl⟩

/-- **`readFile` on a volume, from the start of a file.** -/
theorem runs_readFile {m : Machine} (hvol : Front fs m.disk files path) (hpath : chopPath path ≠ [])
    (data : Option Dynarr) (max : UInt64) :
    Runs c.Generous (readFile (honest c) fs path data 0 max) m
      (fun res m' => Quiet m m' ∧ ReadEnds c files path data max.toNat m res m'.reads) := by
  unfold readFile
  rw [if_neg (by simp [hvol.mounted]), if_neg hpath]
  refine (runs_operatorNew 4096 m).bind ?_
  rintro _ m₁ ⟨hq₁, hr₁⟩
  refine (runs_findFileHeader (m := m₁) (by rw [hq₁.disk]; exact hvol)).bind ?_
  rintro o m₂ ⟨hq₂, hs⟩
  rw [hq₁.disk, hr₁] at hs
  generalize hr₂ : m₂.reads = r at hs
  have hq := hq₁.trans hq₂
  cases hs with
  | absent hm hr =>
      apply Runs.pure
      rw [hr₂]
      exact ⟨hq, .missing (.absent hm hr)⟩
  | failed pre post f hf hpre hr hbad =>
      apply Runs.pure
      rw [hr₂]
      exact ⟨hq, .missing (.failed pre post f hf hpre hr hbad)⟩
  | found pre post f hf hpre hm hr =>
      subst hf
      obtain ⟨b, hlaid, hb, _⟩ := hvol.laid
      obtain ⟨hh, hp, hrest⟩ := hlaid.file
      have hend := hrest.end_eq
      have hlt := fs.partitionHeader.used.toNat_lt
      have hlen := hh.totalSize_eq
      have hle' := readLength_le f.length max.toNat
      refine Runs.ite (fun h0 => ?_) (fun h0 => ?_)
      · -- an empty file: nothing is read
        have hzero : f.length = 0 := by
          rw [UInt64.le_iff_toNat_le, hlen] at h0
          exact Nat.le_zero.mp h0
        have hread0 : readLength f.length max.toNat = 0 := by omega
        have hnil : f.read (readLength f.length max.toNat) (given data) = [] := by
          simp [hread0, File.read, Dynarr.resized]
        have hcount : m₂.reads = m.reads + pre.length + 1
            + copyReads f.payload.length (readLength f.length max.toNat) := by
          rw [hr₂, hread0, copyReads, blocksFor_zero (by decide), Nat.zero_min, Nat.add_zero]
        apply Runs.pure
        refine ⟨hq, ?_⟩
        rw [← hnil, hcount]
        refine .read pre post f (data.map Dynarr.clear) rfl hpre hm ?_ ?_
        · intro i hi
          rw [hread0, copyReads, blocksFor_zero (by decide), Nat.zero_min] at hi
          exact hr i hi
        · rw [hnil, Option.map_map]
          rfl
      · have hcount : (if 0 < max ∧ max < AbtrFSDiskHeader.totalSize ⟨m.disk (1 + spanAll pre)⟩ - 0 then max
            else AbtrFSDiskHeader.totalSize ⟨m.disk (1 + spanAll pre)⟩ - 0).toNat
              = readLength f.length max.toNat := by
          unfold readLength
          rw [← hlen]
          simp only [UInt64.sub_zero, UInt64.lt_iff_toNat_lt, UInt64.toNat_zero]
          split <;> rfl
        simp only [hcount]
        refine (runs_resize _ _ _).bind ?_
        rintro target m₃ ⟨⟨hq₃, hr₃⟩, htarget⟩
        refine (runs_operatorNew 4096 m₃).bind ?_
        rintro _ m₄ ⟨hq₄, hr₄⟩
        have hq' := hq.trans (hq₃.trans hq₄)
        unfold File.span at hend
        have hpo := hh.payloadOffset
        have hsc := hh.sectionCount
        have hloop : Runs c.Generous (readBlocks (honest c) fs
            (AbtrFSDiskHeader.payloadOffset ⟨m.disk (1 + spanAll pre)⟩)
            (AbtrFSDiskHeader.sectionCount ⟨m.disk (1 + spanAll pre)⟩)
            (readLength f.length max.toNat) (0 / 4096) (0 % 4096 : UInt64).toNat
            (readLength f.length max.toNat) Bytes.zero) m₄
            (CopyEnds c f.payload (readLength f.length max.toNat) m₄) := by
          obtain ⟨res, m₅, hrun, hends⟩ := run_readBlocks (c := c) hvol.handle
            (AbtrFSDiskHeader.payloadOffset ⟨m.disk (1 + spanAll pre)⟩)
            (AbtrFSDiskHeader.sectionCount ⟨m.disk (1 + spanAll pre)⟩) f.payload
            (readLength f.length max.toNat) (0 / 4096) (readLength f.length max.toNat) Bytes.zero m₄
            (by rw [hsc]; exact Nat.zero_add _) (by rw [hpo, hsc]; omega)
            (by rw [hpo, hq'.disk]; exact hp) (Nat.le_refl _)
          exact Runs.of_ok hrun hends
        refine hloop.bind ?_
        have hr₄' : m₄.reads = m.reads + pre.length + 1 := by omega
        rintro res m₅ ⟨hq₅, ⟨hres, hreads, hcount₅⟩ | ⟨hres, i, hi, hbad, hcount₅⟩⟩
        · have helems : (target.assign res.2).elems
              = f.read (readLength f.length max.toNat) (given data) := by
            show res.2.take target.elems.length ++ target.elems.drop res.2.length = _
            rw [htarget, hres, Dynarr.length_resized, List.take_take, Nat.min_self]
            rfl
          have hall : ∀ i ≤ pre.length + copyReads f.payload.length (readLength f.length max.toNat),
              c.readOk (m.reads + i) = true := by
            intro i hi
            by_cases hip : i ≤ pre.length
            · exact hr i hip
            · have := hreads (i - pre.length - 1) (by omega)
              rwa [show m₄.reads + (i - pre.length - 1) = m.reads + i by omega] at this
          rw [if_pos (by rw [hres])]
          refine (runs_operatorNew _ m₅).bind ?_
          rintro _ m₆ ⟨hq₆, hr₆⟩
          apply Runs.pure
          refine ⟨hq'.trans (hq₅.trans hq₆), ?_⟩
          rw [helems, hr₆, hcount₅, hr₄']
          refine .read pre post f _ rfl hpre hm hall ?_
          rw [Option.map_map]
          simp only [Function.comp_def, helems]
        · rw [if_neg (by rw [hres]; decide)]
          apply Runs.pure
          refine ⟨hq'.trans hq₅, ?_⟩
          rw [hr₄'] at hbad hcount₅
          rw [hcount₅]
          exact .failed pre post f _ rfl hpre hm i hr hi hbad

/-! ## A device that does not fail -/

/-- What reading a file back gives, by the files of the volume alone. -/
def readResult (files : List File) (path : Path) : Except ErrorCode (List UInt8) :=
  if chopPath path = [] then .error .invalidPath
  else match files.find? (fun f => decide (f.Named path)) with
    | none => .error .fileNotFound
    | some f => .ok f.content

/-- `read_file(path, nullptr, 0, 0)` comes back with `v` if it comes back, and it does when memory lasts. -/
def Reads (c : Conditions) (fs : AbtrFS) (m : Machine) (path : Path)
    (v : Except ErrorCode (List UInt8)) : Prop :=
  Runs c.Generous (readFile (honest c) fs path none 0 0) m (fun res _ => res.1 = v)

/-- A read that must come back comes back with one answer. -/
theorem Reads.unique {m : Machine} {v v' : Except ErrorCode (List UInt8)} (hG : c.Generous)
    (h : Reads c fs m path v) (h' : Reads c fs m path v') : v = v' := by
  obtain ⟨res, m', hrun, hres⟩ := h.returns hG
  rw [← hres]
  exact h'.returned hrun

theorem readLength_zero (len : Nat) : readLength len 0 = len := if_neg (by omega)

theorem find_first {pre post : List File} {f : File} (hpre : ∀ g ∈ pre, ¬ g.Named path)
    (hm : f.Named path) :
    (pre ++ f :: post).find? (fun g => decide (g.Named path)) = some f := by
  rw [List.find?_append, List.find?_eq_none.mpr (fun g hg => by simpa using hpre g hg)]
  simp [hm]

theorem find_absent (hm : ∀ f ∈ files, ¬ f.Named path) :
    files.find? (fun g => decide (g.Named path)) = none :=
  List.find?_eq_none.mpr fun g hg => by simpa using hm g hg

/-- **Reading back from a volume** on a device whose reads do not fail. -/
theorem reads_front {m : Machine} (hvol : Front fs m.disk files path) (hr : ∀ k, c.readOk k = true) :
    Reads c fs m path (readResult files path) := by
  unfold Reads readResult
  by_cases hpath : chopPath path = []
  · rw [if_pos hpath]
    unfold readFile
    rw [if_neg (by simp [hvol.mounted]), if_pos hpath]
    exact Runs.pure rfl
  · rw [if_neg hpath]
    refine (runs_readFile hvol hpath none 0).imp ?_
    rintro res m' ⟨_, hends⟩
    generalize m'.reads = r at hends
    cases hends with
    | missing hs =>
        cases hs with
        | absent hm _ => rw [find_absent hm]
        | failed pre post f hf hpre _ hbad =>
            rw [hr] at hbad
            cases hbad
    | read pre post f d' hf hpre hm _ _ =>
        rw [hf, find_first hpre hm]
        show Except.ok (f.read (readLength f.length 0) []) = .ok f.content
        rw [readLength_zero, File.read_content]
    | failed pre post f d' hf hpre hm i _ _ hbad =>
        rw [hr] at hbad
        cases hbad

theorem reads_volume {m : Machine} (hvol : Volume fs m.disk files) (hr : ∀ k, c.readOk k = true)
    (path : Path) : Reads c fs m path (readResult files path) :=
  reads_front (hvol.front path) hr

end AlopexOS
