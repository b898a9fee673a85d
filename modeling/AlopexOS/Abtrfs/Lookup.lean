import AlopexOS.Abtrfs.ReadBack

/-!
# `Abtrfs.Lookup` — finding a stored path again

The writer stores as much of a path as fits into the header, 255 bytes of it. The walk compares 255 bytes
too, but takes two names for equal only when it meets their NUL on the way. So a path of up to 254 bytes
is found again after every write that succeeds, and a longer one never is.

## Contents
- **What the walk can find.**
- **A path that is found**: every operation on it is about the same file.
- **After a write** that succeeded.
- **When every write can be found again.**
-/

namespace AlopexOS

open Packed ByteString CString Prog

variable {c : Conditions} {fs fs' : AbtrFS} {path : Path} {files pre post : List File} {f : File}
  {data : List UInt8} {off : UInt64} {m m' : Machine}

/-! ## What the walk can find -/

theorem gives_walk {σ : Type} {P : Platform σ} (used : UInt64) (n : Nat) (curr : UInt64) (buffer : Block) :
    Gives (fun o => ∀ h, o = some h → path.str = h.str ∧ path.str.length ≤ 254)
      (walk P fs path used n curr buffer) := by
  induction n generalizing curr buffer with
  | zero => exact Gives.fail .hang
  | succ n ih =>
      have hnone : ∀ h, (none : Option AbtrFSDiskHeader) = some h → path.str = h.str ∧ path.str.length ≤ 254 :=
        fun h hh => by cases hh
      unfold walk
      refine Gives.ite (Gives.bind fun r => Gives.ite ?_ (Gives.pure hnone)) (Gives.pure hnone)
      dsimp only
      split
      · rename_i hmatch
        apply Gives.pure
        intro h hh
        obtain rfl := Option.some.inj hh
        exact (isPathEqual_iff path _).mp hmatch.2
      · exact ih _ _

/-- **The header that is found carries the path**, and all of it, on every machine. -/
theorem gives_findFileHeader {σ : Type} {P : Platform σ} :
    Gives (fun o => ∀ h, o = some h → path.str = h.str ∧ path.str.length ≤ 254)
      (findFileHeader P fs path) :=
  Gives.bind fun _ => gives_walk _ _ _ _

/-- Paths that differ never find one header. -/
theorem findFileHeader_ne {σ : Type} {P : Platform σ} {p q : Path} {s s' t t' : σ}
    {h h' : AbtrFSDiskHeader} (hp : (findFileHeader P fs p).run s = (.ok (some h), s'))
    (hq : (findFileHeader P fs q).run t = (.ok (some h'), t')) (hne : p.str ≠ q.str) : h ≠ h' := by
  have hp' := (gives_findFileHeader _ _ _ hp h rfl).1
  have hq' := (gives_findFileHeader _ _ _ hq h' rfl).1
  rintro rfl
  exact hne (hp'.trans hq'.symm)

/-! ## A path that is found -/

/-- Every operation on the path is about the file `f` with its header at `a`: the walk comes to this
    header, a read gives the content of this file, and a write goes over its payload. -/
structure Resolves (c : Conditions) (fs : AbtrFS) (m : Machine) (path : Path) (f : File) (a : Nat) :
    Prop where
  isHeader : IsHeader (m.disk a) f a
  found : Runs c.Generous (findFileHeader (honest c) fs path) m (fun o _ => o = some ⟨m.disk a⟩)
  present : Runs c.Generous (exists' (honest c) fs path) m (fun e _ => e = .success)
  read : Reads c fs m path (.ok f.content)
  update : ∀ (data : List UInt8) (off : UInt64), off.toNat + data.length < 2 ^ 64 →
    Runs c.Generous (writeFile (honest c) fs path data off) m
      (UpdateEnds c (fs.withName path) data off f a (fun old => old = f.content) m)

/-- **The first file a path names is the one it resolves to.** -/
theorem Front.resolves (hvol : Front fs m.disk (pre ++ f :: post) path)
    (hfree : fs.partitionHeader.freeBlocksCount.toNat ≤ fs.partitionHeader.totalBlocks.toNat)
    (hseg : chopPath path ≠ []) (hpre : ∀ g ∈ pre, ¬ g.Named path) (hm : f.Named path)
    (hread : ∀ k, c.readOk k = true) : Resolves c fs m path f (1 + spanAll pre) := by
  have hfound : Runs c.Generous (findFileHeader (honest c) fs path) m
      (fun o _ => o = some ⟨m.disk (1 + spanAll pre)⟩) := by
    refine (runs_findFileHeader hvol).imp ?_
    rintro o m₁ ⟨_, hs⟩
    exact hs.eq_some hpre hm hread
  obtain ⟨b, hlaid, _⟩ := hvol.laid
  refine ⟨hlaid.file.1, hfound, ?_, ?_, ?_⟩
  · unfold exists'
    rw [if_neg (by simp [hvol.mounted]), if_neg hseg]
    refine (runs_operatorNew 4096 m).bind ?_
    rintro _ m₁ ⟨hq, _⟩
    have hvol₁ : Front fs m₁.disk (pre ++ f :: post) path := by
      rw [hq.disk]
      exact hvol
    refine (runs_findFileHeader hvol₁).bind ?_
    rintro o m₂ ⟨_, hs⟩
    rw [hs.eq_some hpre hm hread]
    exact Runs.pure rfl
  · have := reads_front hvol hread
    rwa [readResult, if_neg hseg, find_first hpre hm] at this
  · intro data off hoff
    exact runs_writeFile_front hvol hfree hseg hpre hm hoff hread

/-! ## After a write -/

/-- The blocks that a new file of `n` bytes is given; near the end of the 64-bit range the count wraps. -/
def blocksGiven (n : Nat) : Nat := if n + 4096 ≤ 2 ^ 64 then blocksFor 4096 n else 0

theorem toNat_requiredBlocks_given (n : UInt64) : (requiredBlocks n).toNat = blocksGiven n.toNat := by
  unfold blocksGiven
  split
  · exact toNat_requiredBlocks ‹_›
  · exact toNat_requiredBlocks_wrap ‹_›

theorem toNat_finalSize_none (hoff : off.toNat + data.length < 2 ^ 64) :
    (finalSize none data off).toNat = off.toNat + data.length := by
  rw [toNat_finalSize none hoff]
  exact Nat.zero_max _

/-- **What is behind a call that succeeds**: its end does not wrap, it claimed its blocks, and it made all
    of its writes. -/
theorem wrote_of_success (hvol : Front fs m.disk files path) (hseg : chopPath path ≠ [])
    (hrun : (writeFile (honest c) fs path data off).run m = (.ok (.success, fs'), m')) :
    off.toNat + data.length < 2 ^ 64 ∧
    ∃ o r h x, ScanEnds c.readOk m.disk path files 1 m.reads (some (o, r))
      ∧ finalSize o data off ≠ 0
      ∧ claimBlocks fs.partitionHeader o (requiredBlocks (finalSize o data off)) = some h
      ∧ Wrote c (callWrites (fs.withName path) path data off o x h)
          (callWrites (fs.withName path) path data off o x h).length m m'
      ∧ fs' = { fs.withName path with partitionHeader := h } := by
  obtain ⟨o, r, hs, hends⟩ := (runs_writeFile (c := c) hvol hseg).caught_returned hrun
  generalize hres : some (ErrorCode.success, fs') = res at hends
  cases hends with
  | empty _ _ => cases hres
  | wild _ _ _ _ _ => cases hres
  | full _ _ _ _ _ _ => cases hres
  | wrote h0 h _ x k hc _ hx hw =>
      have hk : k = (callWrites (fs.withName path) path data off o x h).length := by
        by_contra hne
        rw [if_neg hne] at hres
        cases hres
      rw [if_pos hk] at hres
      obtain ⟨_, hfs⟩ := Prod.mk.inj (Option.some.inj hres)
      exact ⟨lt_of_expandedData hx, o, r, h, x, hs, h0, hc, hk ▸ hw, hfs⟩

/-- A creation whose count of blocks wraps writes a header and no payload. -/
theorem callWrites_wrapped (hoff : off.toNat + data.length < 2 ^ 64)
    (hwrap : ¬ off.toNat + data.length + 4096 ≤ 2 ^ 64) (x : List UInt8) (h : PartitionHeader) :
    onDisk (callWrites fs path data off none x h)
      = [(fs.partitionHeader.used.toNat, newHeader fs path data off), (0, h.bytes)] := by
  have hreq : (requiredBlocks (finalSize none data off)).toNat = 0 := by
    rw [toNat_requiredBlocks_given, toNat_finalSize_none hoff, blocksGiven, if_neg hwrap]
  simp only [callWrites, plannedWrites, Option.isNone_none, if_true, hreq, List.range_zero, List.map_nil,
    List.append_nil, List.cons_append, List.nil_append, onDisk, List.map_cons]
  rfl

/-- It leaves a file without blocks. -/
theorem volume_wrapped {h : PartitionHeader} {x : List UInt8} (hvol : Volume fs m.disk files)
    (hoff : off.toNat + data.length < 2 ^ 64) (hwrap : ¬ off.toNat + data.length + 4096 ≤ 2 ^ 64)
    (hc : claimBlocks fs.partitionHeader none (requiredBlocks (finalSize none data off)) = some h)
    (hw : Wrote c (callWrites fs path data off none x h)
      (callWrites fs path data off none x h).length m m') :
    ∃ f, f.name = path.str.take 255 ∧ f.content = []
      ∧ Volume { fs with partitionHeader := h } m'.disk (files ++ [f]) := by
  have hreq : (requiredBlocks (finalSize none data off)).toNat = 0 := by
    rw [toNat_requiredBlocks_given, toNat_finalSize_none hoff, blocksGiven, if_neg hwrap]
  obtain ⟨_, hle, _, hused⟩ := claimBlocks_new_eq_some hvol.free_le (requiredBlocks_le _) hc
  rw [hreq, Nat.add_zero] at hused
  have hend := hvol.laid.end_eq
  have hlt := h.used.toNat_lt
  have hdisk : m'.disk = setBlock (setBlock m.disk
      (fs.partitionHeader.used.toNat, newHeader fs path data off)) (0, h.bytes) := by
    rw [hw.disk, List.take_of_length_le (Nat.le_of_eq (by rw [onDisk, List.length_map])),
      callWrites_wrapped hoff hwrap]
    rfl
  have hkept : ∀ i, 1 ≤ i → i < fs.partitionHeader.used.toNat → m'.disk i = m.disk i := by
    intro i hi hlt
    rw [hdisk, setBlock, if_neg (show ¬ i = 0 by omega), setBlock,
      if_neg (show ¬ i = fs.partitionHeader.used.toNat by omega)]
  have hheader : m'.disk fs.partitionHeader.used.toNat = newHeader fs path data off := by
    rw [hdisk, setBlock, if_neg (show ¬ fs.partitionHeader.used.toNat = 0 by omega), setBlock, if_pos rfl]
  refine ⟨⟨path.str.take 255, [], lastLen 4096 (off.toNat + data.length)⟩, rfl, rfl, hvol.mounted,
    hvol.handle, hle, ?_⟩
  show Laid m'.disk 1 (files ++ [_]) h.used.toNat
  rw [Laid.append_iff, ← hend]
  refine ⟨hvol.laid.congr hkept, ?_, trivial, hused.symm⟩
  rw [hheader]
  apply isHeader_fillHeader_of path (cstr_eq_take (by decide)).symm hreq
  · rw [toNat_finalSize_none hoff]
  · omega

/-- **A creation leaves one more file**, whose name is as much of the path as fits. -/
theorem volume_of_success (hvol : Volume fs m.disk files) (hseg : chopPath path ≠ [])
    (hm : ∀ f ∈ files, ¬ f.Named path)
    (hrun : (writeFile (honest c) fs path data off).run m = (.ok (.success, fs'), m')) :
    ∃ f, f.name = path.str.take 255
      ∧ f.content = (if off.toNat + data.length + 4096 ≤ 2 ^ 64 then newContent off data else [])
      ∧ Volume fs' m'.disk (files ++ [f]) := by
  by_cases hoff : off.toNat + data.length + 4096 ≤ 2 ^ 64
  · have hends := (runs_writeFile_absent (c := c) hvol hseg hm hoff).returned hrun
    generalize hres : (ErrorCode.success, fs') = res at hends
    cases hends with
    | empty _ _ => cases hres
    | full _ _ _ => cases hres
    | wrote hpos _ k hc _ _ _ =>
        have hk : k = blocksFor 4096 (off.toNat + data.length) + 2 := by
          by_contra hne
          rw [if_neg hne] at hres
          cases hres
        obtain ⟨_, rfl⟩ := Prod.mk.inj hres
        refine ⟨created path (newContent off data), name_created_eq_take _ _, ?_,
          hc.volume (hvol.withName path) (by rw [length_newContent]; omega)⟩
        rw [if_pos hoff]
        exact content_created path (by rw [length_newContent]; exact hpos) (by rw [length_newContent]; omega)
  · obtain ⟨hoff', o, r, h, x, hs, _, hc, hw, rfl⟩ := wrote_of_success (hvol.front path) hseg hrun
    obtain rfl := hs.eq_none hm
    obtain ⟨f, hname, hcontent, hvol'⟩ := volume_wrapped (hvol.withName path) hoff' hoff hc hw
    exact ⟨f, hname, by rw [if_neg hoff, hcontent], hvol'⟩

/-- **After a write over a file** the path resolves to it. -/
theorem resolves_updated (hvol : Volume fs m.disk (pre ++ f :: post)) (hseg : chopPath path ≠ [])
    (hpre : ∀ g ∈ pre, ¬ g.Named path) (hm : f.Named path) (hread : ∀ k, c.readOk k = true)
    (hrun : (writeFile (honest c) fs path data off).run m = (.ok (.success, fs'), m')) :
    ∃ f', Resolves c fs' m' path f' (1 + spanAll pre) := by
  have hoff := (wrote_of_success (hvol.front path) hseg hrun).1
  have hends := (runs_writeFile_present (c := c) hvol hseg hpre hm hoff hread).returned hrun
  generalize hres : (ErrorCode.success, fs') = res at hends
  cases hends with
  | empty _ _ => cases hres
  | full _ _ _ => cases hres
  | wrote _ _ h final old x k _ _ _ hu _ _ =>
      obtain ⟨_, rfl⟩ := Prod.mk.inj hres
      have hm' : (f.overwritten x (min k (newBlocks f data off))).Named path := hm
      exact ⟨_, (front_updated hvol hm hu).resolves hu.free_le hseg hpre hm' hread⟩

/-- **After a creation** it resolves to the new file, when the walk can read its name. -/
theorem resolves_created (hvol : Volume fs m.disk files) (hseg : chopPath path ≠ [])
    (hm : ∀ f ∈ files, ¬ f.Named path) (hlen : path.str.length ≤ 254) (hread : ∀ k, c.readOk k = true)
    (hrun : (writeFile (honest c) fs path data off).run m = (.ok (.success, fs'), m')) :
    ∃ f, Resolves c fs' m' path f (1 + spanAll files) := by
  obtain ⟨f, hname, _, hvol'⟩ := volume_of_success hvol hseg hm hrun
  rw [List.take_of_length_le (Nat.le_succ_of_le hlen)] at hname
  exact ⟨f, (hvol'.front path).resolves hvol'.free_le hseg hm ⟨hname.symm, hlen⟩ hread⟩

/-! ## When every write can be found again -/

/-- Whenever the write succeeds, the path resolves to one file afterwards. -/
def FoundAgain (fs : AbtrFS) (m : Machine) (path : Path) (data : List UInt8) (off : UInt64) : Prop :=
  ∀ c : Conditions, (∀ k, c.readOk k = true) → ∀ fs' m',
    (writeFile (honest c) fs path data off).run m = (.ok (.success, fs'), m') →
      ∃ f a, Resolves c fs' m' path f a

/-- There is nothing to write, or no room for another file. -/
def NothingFits (fs : AbtrFS) (data : List UInt8) (off : UInt64) : Prop :=
  off.toNat + data.length = 0
    ∨ fs.partitionHeader.freeBlocksCount.toNat < 1 + blocksGiven (off.toNat + data.length)

/-- No file can be created: there is nothing to write, or the end of the write wraps, or there is no
    room. -/
def NotCreated (fs : AbtrFS) (data : List UInt8) (off : UInt64) : Prop :=
  off.toNat + data.length = 0 ∨ 2 ^ 64 ≤ off.toNat + data.length
    ∨ fs.partitionHeader.freeBlocksCount.toNat < 1 + blocksGiven (off.toNat + data.length)

theorem notCreated_iff (hoff : off.toNat + data.length < 2 ^ 64) :
    NotCreated fs data off ↔ NothingFits fs data off := by
  simp only [NotCreated, NothingFits, Nat.not_le_of_lt hoff, false_or]

/-- **Else one is created** on a machine on which nothing fails. -/
theorem creates (hvol : Volume fs m.disk files) (hseg : chopPath path ≠ [])
    (hm : ∀ f ∈ files, ¬ f.Named path) (hcan : ¬ NotCreated fs data off) :
    ∃ fs' m', (writeFile (honest (Conditions.ample fun _ => true)) fs path data off).run m
      = (.ok (.success, fs'), m') := by
  simp only [NotCreated, not_or, Nat.not_le, Nat.not_lt] at hcan
  obtain ⟨hpos, hoff, hroom⟩ := hcan
  have hfinal := toNat_finalSize_none hoff
  have hends := runs_writeFile_of_lt (c := Conditions.ample fun _ => true) (hvol.front path) hseg hoff
  obtain ⟨res, m', hrun, o, r, hs, hends⟩ := hends.returns (Conditions.ample_generous _)
  refine ⟨res.2, m', ?_⟩
  rw [hrun]
  obtain rfl := hs.eq_none hm
  generalize hres : some res = res' at hends
  cases hends with
  | empty h0 _ =>
      rw [h0] at hfinal
      exact absurd hfinal.symm hpos
  | wild _ _ _ _ _ => cases hres
  | full _ _ _ _ hc _ =>
      rw [claimBlocks_new_eq_none (hvol.withName path).free_le (requiredBlocks_le _),
        toNat_requiredBlocks_given, hfinal] at hc
      exact absurd hc (Nat.not_lt_of_le hroom)
  | wrote _ h _ x k _ _ _ hw =>
      have hk : k = (callWrites (fs.withName path) path data off none x h).length := by
        by_contra hne
        have hle := hw.le
        have := hw.stopped (by omega)
        cases this
      rw [if_pos hk] at hres
      rw [Option.some.inj hres]

/-- If none can be, no call succeeds. -/
theorem not_created (hvol : Volume fs m.disk files) (hseg : chopPath path ≠ [])
    (hm : ∀ f ∈ files, ¬ f.Named path) (hcan : NotCreated fs data off)
    (hrun : (writeFile (honest c) fs path data off).run m = (.ok (.success, fs'), m')) : False := by
  obtain ⟨hoff, o, r, h, x, hs, h0, hc, _, _⟩ := wrote_of_success (hvol.front path) hseg hrun
  obtain rfl := hs.eq_none hm
  have hroom := (claimBlocks_new_eq_some (hvol.withName path).free_le (requiredBlocks_le _) hc).2.2.1
  rw [toNat_requiredBlocks_given, toNat_finalSize_none hoff] at hroom
  rcases hcan with hzero | hwrap | hfull
  · rw [Word.ne_zero_iff, toNat_finalSize_none hoff] at h0
    omega
  · omega
  · exact absurd hfull (Nat.not_lt_of_le hroom)

/-- **When a path is found again** after every write that succeeds, of data whose end does not wrap. -/
theorem foundAgain_iff (hvol : WellLaidOut fs m.disk files) (path : Path) (data : List UInt8) (off : UInt64)
    (hoff : off.toNat + data.length < 2 ^ 64) :
    (FoundAgain fs m path data off ↔
      path.str.length ≤ 254 ∨ (∀ b ∈ path.str, b = slash) ∨ NothingFits fs data off)
    ∧ ∀ (c : Conditions) (p q : Path) (s s' t t' : Machine) (h h' : AbtrFSDiskHeader),
        (findFileHeader (honest c) fs p).run s = (.ok (some h), s') →
        (findFileHeader (honest c) fs q).run t = (.ok (some h'), t') → p.str ≠ q.str → h ≠ h' := by
  refine ⟨?_, fun c p q s s' t t' h h' hp hq hne => findFileHeader_ne hp hq hne⟩
  rw [← notCreated_iff hoff]
  by_cases hslash : ∀ b ∈ path.str, b = slash
  · -- nothing is written under a path without a segment
    refine iff_of_true ?_ (Or.inr (Or.inl hslash))
    intro c _ fs' m' hrun
    rw [writeFile, if_neg (by simp [hvol.mounted]), if_pos ((chopPath_eq_nil path).mpr hslash)] at hrun
    cases hrun
  have hseg : chopPath path ≠ [] := fun h => hslash ((chopPath_eq_nil path).mp h)
  simp only [hslash, false_or]
  by_cases hlen : path.str.length ≤ 254
  · refine iff_of_true ?_ (Or.inl hlen)
    intro c hread fs' m' hrun
    by_cases hnamed : ∃ f ∈ files, f.Named path
    · obtain ⟨f, hf, hm⟩ := hnamed
      obtain ⟨pre, post, rfl⟩ := List.append_of_mem hf
      have hpre := not_named_of_distinct hvol.distinct hm.1
      obtain ⟨f', hres⟩ := resolves_updated hvol.toVolume hseg hpre hm hread hrun
      exact ⟨f', _, hres⟩
    · have hno : ∀ f ∈ files, ¬ f.Named path := fun f hf hm => hnamed ⟨f, hf, hm⟩
      obtain ⟨f, hres⟩ := resolves_created hvol.toVolume hseg hno hlen hread hrun
      exact ⟨f, _, hres⟩
  · simp only [hlen, false_or]
    have hno : ∀ f ∈ files, ¬ f.Named path := fun f _ hm => hlen hm.2
    constructor
    · intro hagain
      by_contra hcan
      obtain ⟨fs', m', hrun⟩ := creates hvol.toVolume hseg hno hcan
      -- the call succeeds, and the walk finds no header for the path
      obtain ⟨f, a, hres⟩ := hagain _ (fun _ => rfl) fs' m' hrun
      obtain ⟨o, s, hfind, rfl⟩ := hres.found.returns (Conditions.ample_generous _)
      exact hlen (gives_findFileHeader _ _ _ hfind _ rfl).2
    · intro hcan c hread fs' m' hrun
      exfalso
      exact not_created hvol.toVolume hseg hno hcan hrun

/-- It is about calls there are: a write under a short path on the volume with the file `b`. -/
theorem foundAgain_a :
    FoundAgain (layFs [(pathB, [7])]) (Machine.start (layDisk [(pathB, [7])])) pathA [1] 0 :=
  (foundAgain_iff wellLaidOut_b pathA [1] 0 (by decide)).1.mpr (Or.inl (by rw [str_pathA]; decide))

/-- A path that no file answers to is not there. -/
theorem Volume.missing (hvol : Volume fs m.disk files) (hseg : chopPath path ≠ [])
    (hm : ∀ f ∈ files, ¬ f.Named path) :
    Runs c.Generous (exists' (honest c) fs path) m (fun e _ => e = .fileNotFound) := by
  unfold exists'
  rw [if_neg (by simp [hvol.mounted]), if_neg hseg]
  refine (runs_operatorNew 4096 m).bind ?_
  rintro _ m₁ ⟨hq, _⟩
  have hvol₁ : Volume fs m₁.disk files := by
    rw [hq.disk]
    exact hvol
  refine (runs_findFileHeader (hvol₁.front path)).bind ?_
  rintro o m₂ ⟨_, hs⟩
  rw [hs.eq_none hm]
  exact Runs.pure rfl

/-- **A path of 255 bytes is lost**: the write succeeds, and the file is not there. -/
theorem longPath_lost :
    WellLaidOut (layFs []) (layDisk []) []
    ∧ (∃ fs' m', (writeFile (honest (Conditions.ample fun _ => true)) (layFs []) longPath [1] 0).run
          (Machine.start (layDisk [])) = (.ok (.success, fs'), m')
        ∧ Runs True (exists' (honest (Conditions.ample fun _ => true)) fs' longPath) m'
            (fun e _ => e = .fileNotFound))
    ∧ ¬ FoundAgain (layFs []) (Machine.start (layDisk [])) longPath [1] 0 := by
  have hvol : WellLaidOut (layFs []) (layDisk []) [] := wellLaidOut_layDisk (by simp) (by decide) .nil
  have hlong : longPath.str.length = 255 := by rw [str_longPath, List.length_replicate]
  have hno : ∀ (fs : List File), ∀ f ∈ fs, ¬ f.Named longPath := fun _ f _ hm => by
    have := hm.2
    omega
  have hseg : chopPath longPath ≠ [] :=
    chopPath_ne_nil ⟨0x61, by rw [str_longPath]; exact List.mem_replicate.mpr ⟨by decide, rfl⟩, by decide⟩
  have hcan : ¬ NotCreated (layFs []) [1] 0 := by
    have hfree : (layFs []).partitionHeader.freeBlocksCount.toNat = 204799 := by decide +kernel
    unfold NotCreated
    rw [hfree]
    decide
  obtain ⟨fs', m', hrun⟩ := creates (m := Machine.start (layDisk [])) hvol.toVolume hseg (hno []) hcan
  obtain ⟨f, _, _, hvol'⟩ := volume_of_success (m := Machine.start (layDisk [])) hvol.toVolume hseg (hno [])
    hrun
  refine ⟨hvol, ⟨fs', m', hrun, ?_⟩, ?_⟩
  · exact (hvol'.missing hseg (hno _)).guard fun _ => Conditions.ample_generous _
  · intro hagain
    obtain ⟨f, a, hres⟩ := hagain _ (fun _ => rfl) fs' m' hrun
    obtain ⟨o, s, hfind, rfl⟩ := hres.found.returns (Conditions.ample_generous _)
    have := (gives_findFileHeader _ _ _ hfind _ rfl).2
    omega

end AlopexOS
