import AlopexOS.Abtrfs.Update

/-!
# `Abtrfs.ReadBack` — reading after an update

An update writes payload blocks and the partition header, and never the header of the file. So the file
keeps its length, and what reads back is the overlay exactly when the overlay is as long as the old
content, or when nothing was written at all.
-/

namespace AlopexOS

open Packed ByteString CString Prog

variable {c : Conditions} {fs : AbtrFS} {path : Path} {files pre post : List File} {data : List UInt8}
  {off : UInt64} {f : File} {x : List UInt8} {r : Nat} {m : Machine}

/-! ## The content of an overwritten file -/

theorem joinBlocks_append (bs bs' : List Block) :
    joinBlocks (bs ++ bs') = joinBlocks bs ++ joinBlocks bs' := List.flatMap_append

theorem File.Ok.overwritten (h : f.Ok) (x : List UInt8) (j : Nat) : (f.overwritten x j).Ok where
  payload_pos := by
    rw [length_payload_overwritten]
    exact h.payload_pos
  size_pos := h.size_pos
  size_le := h.size_le
  name_le := h.name_le

/-- **The file has as much of a content as the old one was long** once all its blocks are written. -/
theorem content_overwritten (h : f.Ok) (hx : f.length ≤ x.length) (hr : f.length ≤ r * 4096) :
    (f.overwritten x r).content = x.take f.length := by
  have hmax := h.length_le
  have hlen : (joinBlocks ((List.range (min f.payload.length r)).map (chunk 4096 x))).length
      = min f.payload.length r * 4096 := by
    rw [length_joinBlocks, List.length_map, List.length_range]
  have hjoin : f.length ≤ (joinBlocks ((List.range (min f.payload.length r)).map (chunk 4096 x))).length := by
    omega
  rw [(h.overwritten x r).content_eq, length_overwritten]
  show (joinBlocks (((List.range r).map (chunk 4096 x)).take f.payload.length ++ _)).take f.length = _
  rw [← List.map_take, List.take_range, joinBlocks_append, List.take_append_of_le_length hjoin]
  apply take_joinBlocks_chunk (by decide) hx
  simpa using hjoin

/-- A file of which no block was written. -/
theorem overwritten_zero (f : File) (x : List UInt8) : f.overwritten x 0 = f := by
  simp [File.overwritten]

/-! ## Reading back -/

/-- Whenever the write succeeds, the overlay on the old content reads back, whatever memory there is and
    whichever writes fail. -/
def ReadsBack (fs : AbtrFS) (m : Machine) (path : Path) (data : List UInt8) (off : UInt64)
    (content : List UInt8) : Prop :=
  ∀ c : Conditions, (∀ k, c.readOk k = true) → ∀ fs' m',
    (writeFile (honest c) fs path data off).run m = (.ok (.success, fs'), m') →
      Reads c fs' m' path (.ok (overlay content data off.toNat))

/-- The write leaves the length of the file as it is and fits the 64-bit count of blocks (or changes no
    byte). -/
def KeepsLength (f : File) (data : List UInt8) (off : UInt64) : Prop :=
  off.toNat + data.length ≤ f.content.length
    ∧ (f.content.length + 4096 ≤ 2 ^ 64 ∨ overlay f.content data off.toNat = f.content)

/-- After an update the blocks up to the end of the file are in order, whatever is behind them. -/
theorem front_updated {m' : Machine} {h : PartitionHeader} {k : Nat} (hvol : Volume fs m.disk (pre ++ f :: post))
    (hm : f.Named path) (hu : Update (fs.withName path) f (1 + spanAll pre) r x k h m.disk m'.disk) :
    Front { fs.withName path with partitionHeader := h } m'.disk (pre ++ [f.overwritten x (min k r)]) path := by
  have hfront := hu.laid_front hvol.laid rfl
  obtain ⟨_, _, hrest⟩ := hvol.laid.file
  have hend := hrest.end_eq
  have hused : h.used.toNat = fs.partitionHeader.used.toNat + (r - f.payload.length) := hu.used
  have hm' : (f.overwritten x (min k r)).Named path := hm
  refine ⟨hvol.mounted, hvol.handle, _, hfront, ?_, Or.inr ⟨_, by simp, hm'⟩⟩
  show _ ≤ h.used.toNat
  omega

/-- The file as it reads back after a successful update. -/
theorem reads_updated {m' : Machine} {h : PartitionHeader} {k : Nat} (hvol : Volume fs m.disk (pre ++ f :: post))
    (hpre : ∀ g ∈ pre, ¬ g.Named path) (hm : f.Named path) (hseg : chopPath path ≠ [])
    (hread : ∀ i, c.readOk i = true)
    (hu : Update (fs.withName path) f (1 + spanAll pre) r x k h m.disk m'.disk) :
    Reads c { fs.withName path with partitionHeader := h } m' path
      (.ok (f.overwritten x (min k r)).content) := by
  have hm' : (f.overwritten x (min k r)).Named path := hm
  have := reads_front (front_updated hvol hm hu) hread
  rwa [readResult, if_neg hseg, find_first hpre hm'] at this

theorem newLength_of_keeps (hkeep : off.toNat + data.length ≤ f.length) :
    newLength f data off = f.length := Nat.max_eq_left hkeep

/-- A write that keeps the length needs no more blocks than the file has. -/
theorem newBlocks_of_keeps (hok : f.Ok) (hkeep : off.toNat + data.length ≤ f.length) :
    newBlocks f data off ≤ f.payload.length := by
  unfold newBlocks
  rw [newLength_of_keeps hkeep]
  split
  · exact (blocksFor_le_iff (by decide)).mpr hok.length_le
  · exact Nat.zero_le _

/-- A write past the end takes the blocks up to where it ends. -/
theorem newBlocks_of_grows (hgrow : f.length < off.toNat + data.length)
    (hoff : off.toNat + data.length < 2 ^ 63) :
    newBlocks f data off = blocksFor 4096 (off.toNat + data.length) := by
  have hlen : newLength f data off = off.toNat + data.length := Nat.max_eq_right (Nat.le_of_lt hgrow)
  unfold newBlocks
  rw [hlen]
  exact if_pos (by omega)

/-- An update of a file that is found reads back exactly when it keeps the length or is refused. -/
theorem readsBack_found (hvol : WellLaidOut fs m.disk (pre ++ f :: post))
    (hpre : ∀ g ∈ pre, ¬ g.Named path) (hm : f.Named path) (hseg : chopPath path ≠ [])
    (hoff : off.toNat + data.length < 2 ^ 63) :
    ReadsBack fs m path data off f.content ↔
      KeepsLength f data off ∨ fs.partitionHeader.freeBlocksCount.toNat
        < blocksFor 4096 (off.toNat + data.length) - f.payload.length := by
  have hok : f.Ok := hvol.ok f (by simp)
  have hmax := hok.length_le
  unfold KeepsLength
  rw [File.length_content]
  constructor
  · intro hback
    have hoff' : off.toNat + data.length < 2 ^ 64 := by omega
    -- on a machine on which nothing fails the call comes back
    obtain ⟨res, m', hrun, hends⟩ := (runs_writeFile_present (c := Conditions.ample fun _ => true)
      hvol.toVolume hseg hpre hm hoff' fun _ => rfl).returns (Conditions.ample_generous _)
    cases hends with
    | empty h0 _ =>
        unfold newLength at h0
        exact Or.inl (by omega)
    | full _ hfull _ =>
        by_cases hlen : off.toNat + data.length ≤ f.length
        · have := newBlocks_of_keeps hok hlen
          omega
        · rw [newBlocks_of_grows (by omega) hoff] at hfull
          exact Or.inr hfull
    | wrote _ _ h final old x k hR hfinal hx hu hallOk hstop =>
        have hk : k = newBlocks f data off + 1 := by
          have hle := hu.le
          by_contra hne
          have := hstop (by omega)
          cases this
        rw [if_pos hk] at hrun
        have hread := hback _ (fun _ => rfl) _ _ hrun
        have heq := (hread.unique (Conditions.ample_generous _)
          (reads_updated hvol.toVolume hpre hm hseg (fun _ => rfl) hu))
        have heq := Except.ok.inj heq
        have hlen := congrArg List.length heq
        rw [length_overlay, File.length_content, File.length_content, length_overwritten] at hlen
        refine Or.inl ⟨by omega, ?_⟩
        by_cases hfit : f.length + 4096 ≤ 2 ^ 64
        · exact Or.inl hfit
        · right
          have h0 : newBlocks f data off = 0 := by
            unfold newBlocks
            rw [newLength_of_keeps (by omega), if_neg hfit]
          rw [heq, hk, h0, Nat.min_eq_right (by omega), overwritten_zero]
  · rintro hcond c hread fs' m' hrun
    have hends := (runs_writeFile_present (c := c) hvol.toVolume hseg hpre hm (by omega) hread).returned hrun
    generalize hres : (ErrorCode.success, fs') = res at hends
    cases hends with
    | empty _ _ => cases hres
    | full _ _ _ => cases hres
    | wrote _ hfit h final old x k hR hfinal hx hu _ _ =>
        by_cases hk : k = newBlocks f data off + 1
        · rw [if_pos hk] at hres
          obtain ⟨_, rfl⟩ := Prod.mk.inj hres
          have hread' := reads_updated hvol.toVolume hpre hm hseg hread hu
          rw [hk, Nat.min_eq_right (Nat.le_succ _)] at hread'
          have hover : x = overlay f.content data off.toNat := by
            have hexp : expandedData final f.content data off = some (overlay f.content data off.toNat) :=
              expandedData_eq_overlay _ (by rw [hfinal, newLength, File.length_content])
            rw [hR, hexp] at hx
            exact (Option.some.inj hx).symm
          rcases hcond with ⟨hkeep, hwhole⟩ | hfull
          · have hxlen : x.length = f.length := by
              rw [hover, length_overlay, File.length_content]
              exact Nat.max_eq_left hkeep
            by_cases hcount : f.length + 4096 ≤ 2 ^ 64
            · have hblocks : newBlocks f data off = blocksFor 4096 f.length := by
                unfold newBlocks
                rw [newLength_of_keeps hkeep, if_pos hcount]
              rw [hblocks, content_overwritten hok (Nat.le_of_eq hxlen.symm) (le_blocksFor_mul (by decide) _),
                ← hxlen, List.take_length, hover] at hread'
              exact hread'
            · have hblocks : newBlocks f data off = 0 := by
                unfold newBlocks
                rw [newLength_of_keeps hkeep, if_neg hcount]
              rw [hblocks, overwritten_zero] at hread'
              rw [hwhole.resolve_left hcount]
              exact hread'
          · -- room was missing, so the call would have been refused
            have hgrow : f.length < off.toNat + data.length := by
              have hmore : ¬ blocksFor 4096 (off.toNat + data.length) ≤ f.payload.length := by omega
              rw [blocksFor_le_iff (by decide)] at hmore
              omega
            rw [newBlocks_of_grows hgrow hoff] at hfit
            exact absurd hfit (Nat.not_le_of_lt hfull)
        · rw [if_neg hk] at hres
          cases hres

/-- A path too long for the walk finds no file: the call creates one that no path finds. -/
theorem readsBack_long (hvol : WellLaidOut fs m.disk files) (hlong : 254 < path.str.length)
    (hseg : chopPath path ≠ []) (hoff : off.toNat + data.length < 2 ^ 63) (content : List UInt8) :
    ReadsBack fs m path data off content ↔
      off.toNat + data.length = 0 ∨ fs.partitionHeader.freeBlocksCount.toNat
        < 1 + blocksFor 4096 (off.toNat + data.length) := by
  have hno : ∀ (gs : List File), ∀ g ∈ gs, ¬ g.Named path := fun _ g _ hg =>
    absurd hg.2 (Nat.not_le_of_lt hlong)
  constructor
  · intro hback
    have hoff' : off.toNat + data.length + 4096 ≤ 2 ^ 64 := by omega
    obtain ⟨res, m', hrun, hends⟩ := (runs_writeFile_absent (c := Conditions.ample fun _ => true)
      hvol.toVolume hseg (hno files) hoff').returns (Conditions.ample_generous _)
    cases hends with
    | empty h0 _ => exact Or.inl h0
    | full _ hfull _ => exact Or.inr hfull
    | wrote _ _ k hc _ hstop _ =>
        have hk : k = blocksFor 4096 (off.toNat + data.length) + 2 := by
          have hle := hc.le
          rw [length_newContent] at hle
          by_contra hne
          have := hstop (by omega)
          cases this
        rw [if_pos hk] at hrun
        have hread := hback _ (fun _ => rfl) _ _ hrun
        have hvol' := hc.volume (hvol.toVolume.withName path) (by rw [length_newContent]; omega)
        have hmiss : Reads (Conditions.ample fun _ => true) _ m' path _ :=
          reads_volume hvol' (fun _ => rfl) path
        rw [readResult_absent hseg (hno _)] at hmiss
        have := hread.unique (Conditions.ample_generous _) hmiss
        cases this
  · rintro hcond c hread fs' m' hrun
    have hends := (runs_writeFile_absent (c := c) hvol.toVolume hseg (hno files) (by omega)).returned hrun
    generalize hres : (ErrorCode.success, fs') = res at hends
    cases hends with
    | empty _ _ => cases hres
    | full _ _ _ => cases hres
    | wrote hpos hfit _ _ _ _ _ =>
        have hfit' : 1 + blocksFor 4096 (off.toNat + data.length)
            ≤ fs.partitionHeader.freeBlocksCount.toNat := hfit
        omega

/-- A write, and then a read of all of the file `q`. -/
def writeThenRead {σ : Type} (P : Platform σ) (fs : AbtrFS) (path : Path) (data : List UInt8)
    (off : UInt64) (q : Path) : Prog σ (ErrorCode × Except ErrorCode (List UInt8)) := do
  let w ← writeFile P fs path data off
  let r ← readFile P w.2 q none 0 0
  pure (w.1, r.1)

/-- The first file with a name is the only one. -/
theorem not_named_of_distinct (hdist : (pre ++ f :: post).Pairwise fun g g' => g.name ≠ g'.name)
    (hp : path.str = f.name) : ∀ g ∈ pre, ¬ g.Named path := by
  intro g hg hn
  rw [List.pairwise_append] at hdist
  exact hdist.2.2 g hg f (by simp) (by rw [← hn.1, hp])

/-- **When an update reads back.** -/
theorem readsBack_iff (hvol : WellLaidOut fs m.disk files) (hf : f ∈ files) (hp : path.str = f.name)
    (hoff : off.toNat + data.length < 2 ^ 63) :
    ReadsBack fs m path data off f.content ↔
      (∀ b ∈ path.str, b = slash)
      ∨ (path.str.length ≤ 254 ∧ (KeepsLength f data off
          ∨ fs.partitionHeader.freeBlocksCount.toNat
              < blocksFor 4096 (off.toNat + data.length) - f.payload.length))
      ∨ (254 < path.str.length ∧ (off.toNat + data.length = 0
          ∨ fs.partitionHeader.freeBlocksCount.toNat
              < 1 + blocksFor 4096 (off.toNat + data.length))) := by
  by_cases hslash : ∀ b ∈ path.str, b = slash
  · -- nothing is written under a path without a segment
    refine iff_of_true ?_ (Or.inl hslash)
    intro c _ fs' m' hrun
    rw [writeFile, if_neg (by simp [hvol.mounted]), if_pos ((chopPath_eq_nil path).mpr hslash)] at hrun
    cases hrun
  · have hseg : chopPath path ≠ [] := fun h => hslash ((chopPath_eq_nil path).mp h)
    simp only [hslash, false_or]
    by_cases hlen : path.str.length ≤ 254
    · obtain ⟨pre, post, rfl⟩ := List.append_of_mem hf
      rw [readsBack_found hvol (not_named_of_distinct hvol.distinct hp) ⟨hp, hlen⟩ hseg hoff]
      simp only [hlen, true_and, Nat.not_lt_of_le hlen, false_and, or_false]
    · rw [readsBack_long hvol (Nat.lt_of_not_le hlen) hseg hoff]
      simp only [hlen, false_and, Nat.lt_of_not_le hlen, true_and, false_or]

/-- The volume with one file, `a`, of one byte. -/
def oneByte : List (Path × List UInt8) := [(pathA, [1])]

theorem wellLaidOut_oneByte : WellLaidOut (layFs oneByte) (layDisk oneByte) (layFiles oneByte) :=
  wellLaidOut_layDisk (by simp [oneByte]) (by decide) (List.pairwise_singleton _ _)

theorem content_oneByte : (created pathA [1]).content = [1] := content_created _ (by decide) (by decide)

theorem name_pathA (x : List UInt8) : (created pathA x).name = [0x61] := by
  rw [name_created (by rw [str_pathA]; decide), str_pathA]

/-- A write inside the file reads back. -/
theorem readsBack_inside :
    ReadsBack (layFs oneByte) (Machine.start (layDisk oneByte)) pathA [2] 0 (created pathA [1]).content :=
  (readsBack_iff wellLaidOut_oneByte (by simp [layFiles, oneByte]) (by rw [str_pathA, name_pathA])
    (by decide)).mpr (Or.inr (Or.inl ⟨by rw [str_pathA]; decide, Or.inl ⟨by rw [content_oneByte]; decide,
      Or.inl (by rw [content_oneByte]; decide)⟩⟩))

/-- **An append is lost.** The call succeeds, and the old content reads back. -/
theorem append_lost :
    WellLaidOut (layFs oneByte) (layDisk oneByte) (layFiles oneByte)
    ∧ (created pathA [1]) ∈ layFiles oneByte ∧ pathA.str = (created pathA [1]).name
    ∧ ((writeThenRead (honest workingMachine) (layFs oneByte) pathA [2] 1 pathA).run
        (Machine.start (layDisk oneByte))).1 = .ok (.success, .ok [1])
    ∧ overlay (created pathA [1]).content [2] 1 = [1, 2] := by
  refine ⟨wellLaidOut_oneByte, by simp [layFiles, oneByte], by rw [str_pathA, name_pathA], ?_, ?_⟩
  · decide +kernel
  · rw [content_oneByte]
    decide

end AlopexOS
