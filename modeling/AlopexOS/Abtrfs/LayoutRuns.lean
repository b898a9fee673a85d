import AlopexOS.Abtrfs.Update
import AlopexOS.Abtrfs.Walk
import AlopexOS.Abtrfs.Extents
import AlopexOS.Abtrfs.FailedWrites

/-!
# `Abtrfs.LayoutRuns` — the layout of a volume over runs

From a fresh `format` on, the used blocks should be the files in the order they were created, each a
header and the payload blocks that it counts, and the header walk should visit the blocks that were
written as headers and no other. Three places of `writeFile` have a part in that, and two of its paths
break it: a file that grows is counted by the partition header but not by its own header, and a new file
is counted before its header is written. Every run without these keeps the layout, whatever else fails.

## Contents
- **`InLayout`**, the layout as a statement about the headers written so far.
- **From files**: a volume whose files start where headers were written is in that layout.
- **Steps and runs.** `Orderly`, what a call must not do, and `inLayout_of_run`.
-/

namespace AlopexOS

open Packed ByteString CString Prog

variable {c : Conditions} {fs fs' : AbtrFS} {path : Path} {files pre post : List File}
  {disk disk' : Nat → Block} {a b : Nat} {m m' : Machine}

/-! ## The layout -/

/-- The blocks from `a` to `b` are the headers at `hs`, each with as many blocks behind it as it counts. -/
def Tiled (disk : Nat → Block) : Nat → List Nat → Nat → Prop
  | a, [], b => a = b
  | a, h :: hs, b =>
      h = a ∧ Tiled disk (a + (1 + (AbtrFSDiskHeader.sectionCount ⟨disk a⟩).toNat)) hs b

/-- The used blocks are the files whose headers were written, in this order; the walk reads their
    headers, all of them when it finds nothing, and what it finds is one of them. -/
structure InLayout (fs : AbtrFS) (disk : Nat → Block) (headers : List (Nat × Block)) : Prop where
  kept : ∀ w ∈ headers, disk w.1 = w.2
  tiled : Tiled disk 1 (headers.map Prod.fst) fs.partitionHeader.used.toNat
  used : fs.partitionHeader.used.toNat
    = 1 + (headers.map fun w => 1 + (AbtrFSDiskHeader.sectionCount ⟨disk w.1⟩).toNat).sum
  walked : ∀ (path : Path) (bound : Nat), 2 ^ 64 ≤ bound → ∃ o trace,
    (findFileHeader (answering disk bound) fs path).run [] = (.ok o, trace)
      ∧ trace.map UInt64.toNat <+: headers.map Prod.fst
      ∧ (o = none → trace.map UInt64.toNat = headers.map Prod.fst)
      ∧ ∀ header, o = some header → ∃ w ∈ headers, header = ⟨w.2⟩

/-! ## From files -/

/-- Where the headers of a run of files are. -/
def starts : Nat → List File → List Nat
  | _, [] => []
  | a, f :: fs => a :: starts (a + f.span) fs

theorem starts_append (a : Nat) (fs gs : List File) :
    starts a (fs ++ gs) = starts a fs ++ starts (a + spanAll fs) gs := by
  induction fs generalizing a with
  | nil => rfl
  | cons f fs ih =>
      simp only [List.cons_append, starts, ih, spanAll_cons, Nat.add_assoc]

theorem mem_starts {files : List File} (h : b ∈ starts a files) : a ≤ b ∧ b < a + spanAll files := by
  induction files generalizing a with
  | nil => cases h
  | cons f fs ih =>
      have hspan : 0 < f.span := by
        unfold File.span
        omega
      rw [spanAll_cons]
      rcases List.mem_cons.mp h with rfl | h
      · omega
      · have := ih h
        omega

theorem Laid.tiled (hl : Laid disk a files b) : Tiled disk a (starts a files) b := by
  induction files generalizing a with
  | nil => exact hl
  | cons f fs ih =>
      obtain ⟨hh, _, hrest⟩ := hl
      refine ⟨rfl, ?_⟩
      rw [hh.sectionCount]
      exact ih hrest

theorem Tiled.sum {hs : List Nat} (h : Tiled disk a hs b) :
    b = a + (hs.map fun s => 1 + (AbtrFSDiskHeader.sectionCount ⟨disk s⟩).toNat).sum := by
  induction hs generalizing a with
  | nil => exact h.symm
  | cons s hs ih =>
      obtain ⟨rfl, hrest⟩ := h
      rw [ih hrest, List.map_cons, List.sum_cons, Nat.add_assoc]

/-- **The walk over a run of files** reads the headers in turn. -/
theorem run_walk_laid {bound : Nat} {used : UInt64} (hv : fs.deviceHandle ≠ invalidHandle) (n : Nat)
    (curr : UInt64) (buffer : Block) (trace : List UInt64) (hl : Laid disk a files b)
    (hcurr : curr.toNat = a) (hused : used.toNat = b) (hn : files.length < n) :
    ∃ o new, (walk (answering disk bound) fs path used n curr buffer).run trace = (.ok o, trace ++ new)
      ∧ new.map UInt64.toNat <+: starts a files
      ∧ (o = none → new.map UInt64.toNat = starts a files)
      ∧ ∀ header, o = some header → ∃ s ∈ starts a files, header = ⟨disk s⟩ := by
  induction files generalizing curr a n buffer trace with
  | nil =>
      obtain ⟨n, rfl⟩ : ∃ k, n = k + 1 := ⟨n - 1, by omega⟩
      have hab : a = b := hl
      have hge : ¬ curr < used := by
        rw [UInt64.lt_iff_toNat_lt]
        omega
      rw [run_walk_end n hge]
      exact ⟨none, [], by rw [List.append_nil], List.prefix_refl _, fun _ => rfl, nofun⟩
  | cons f fs ih =>
      obtain ⟨n, rfl⟩ : ∃ k, n = k + 1 := ⟨n - 1, by omega⟩
      obtain ⟨hh, _, hrest⟩ := hl
      have hend := hrest.end_eq
      have hlt64 := used.toNat_lt
      have hspan : 0 < f.span := by
        unfold File.span
        omega
      have hlt : curr < used := by
        rw [UInt64.lt_iff_toNat_lt]
        omega
      rw [run_walk_succ hv n hlt, hcurr]
      by_cases hs : IsSought disk path a
      · rw [if_pos hs]
        refine ⟨_, [curr], rfl, ?_, nofun, ?_⟩
        · rw [List.map_singleton, hcurr]
          exact ⟨starts (a + f.span) fs, rfl⟩
        · intro header heq
          exact ⟨a, List.mem_cons_self, (Option.some.inj heq).symm⟩
      · rw [if_neg hs]
        have hnext := toNat_add_skip curr (disk a)
        rw [hh.stride_eq, hcurr, Nat.mod_eq_of_lt (by omega)] at hnext
        obtain ⟨o, new, hrun, hpre, hall, hfound⟩ := ih n _ (disk a) (trace ++ [curr]) hrest hnext
          (Nat.lt_of_succ_lt_succ hn)
        refine ⟨o, curr :: new, by rw [hrun, List.append_assoc]; rfl, ?_, ?_, ?_⟩
        · rw [List.map_cons, hcurr]
          exact List.prefix_cons_inj a |>.mpr hpre
        · intro ho
          rw [List.map_cons, hcurr, hall ho]
          rfl
        · intro header ho
          obtain ⟨s, hmem, heq⟩ := hfound header ho
          exact ⟨s, List.mem_cons_of_mem _ hmem, heq⟩

/-- A volume whose files start where the headers were written. -/
structure Founded (fs : AbtrFS) (disk : Nat → Block) (headers : List (Nat × Block)) (files : List File) :
    Prop extends Volume fs disk files where
  headers_eq : headers.map Prod.fst = starts 1 files
  kept : ∀ w ∈ headers, disk w.1 = w.2

/-- **It is in the layout.** -/
theorem Founded.inLayout {headers : List (Nat × Block)} (h : Founded fs disk headers files) :
    InLayout fs disk headers := by
  have htiled := h.laid.tiled
  rw [← h.headers_eq] at htiled
  refine ⟨h.kept, htiled, ?_, fun path bound hbound => ?_⟩
  · have hsum := htiled.sum
    rw [List.map_map] at hsum
    exact hsum
  · have hlen := length_le_spanAll files
    have hend := h.laid.end_eq
    have hlt := fs.partitionHeader.used.toNat_lt
    obtain ⟨o, new, hrun, hpre, hall, hfound⟩ := @run_walk_laid fs path files disk 1 _ bound _ h.handle
      bound 1 AbtrFSDiskHeader.init.bytes [] h.laid rfl rfl (by omega)
    rw [← h.headers_eq] at hpre hall hfound
    refine ⟨o, new, ?_, hpre, hall, fun header ho => ?_⟩
    · rw [run_findFileHeader_answering, hrun]
      rfl
    · obtain ⟨s, hmem, rfl⟩ := hfound header ho
      obtain ⟨w, hw, rfl⟩ := List.mem_map.mp hmem
      exact ⟨w, hw, by rw [h.kept w hw]⟩

/-! ## Steps and runs -/

/-- A file with the payload that the disk has behind its header. -/
def File.storedAt (f : File) (disk : Nat → Block) (a : Nat) : File :=
  { f with payload := (List.range f.payload.length).map fun i => disk (a + 1 + i) }

@[simp] theorem length_payload_storedAt (f : File) (disk : Nat → Block) (a : Nat) :
    (f.storedAt disk a).payload.length = f.payload.length := by
  simp [File.storedAt]

theorem IsHeader.storedAt {blk : Block} {f : File} (h : IsHeader blk f a) (disk : Nat → Block) (a' : Nat) :
    IsHeader blk (f.storedAt disk a') a :=
  ⟨h.isFile, by rw [length_payload_storedAt]; exact h.sectionCount, h.size, h.payloadOffset, h.str⟩

/-- **A new file is in place as soon as its header is written**, whatever its payload blocks hold. -/
theorem Creation.laid_partial {x : List UInt8} {k : Nat} {h : PartitionHeader} {header : Block}
    (hc : Creation fs path x k h header disk disk')
    (hl : Laid disk 1 files fs.partitionHeader.used.toNat) (hk : 0 < k) :
    Laid disk' 1 (files ++ [(created path x).storedAt disk' fs.partitionHeader.used.toNat])
      h.used.toNat := by
  refine hc.laid_append hl hk (hc.isHeader.storedAt disk' _) ?_ (length_payload_storedAt _ _ _)
  rw [holds_iff]
  intro i hi
  simp [File.storedAt]

variable {headers : List (Nat × Block)}

/-- A call that writes nothing and claims nothing. -/
theorem Founded.quiet (hf : Founded fs m.disk headers files) (hq : Quiet m m') (path : Path) :
    Founded (fs.withName path) m'.disk headers files := by
  rw [hq.disk]
  exact ⟨hf.toVolume.withName path, hf.headers_eq, hf.kept⟩

theorem Founded.withName (hf : Founded fs disk headers files) (path : Path) :
    Founded (fs.withName path) disk headers files := ⟨hf.toVolume.withName path, hf.headers_eq, hf.kept⟩

/-- The headers are among the used blocks. -/
theorem Founded.header_lt (hf : Founded fs disk headers files) {w : Nat × Block} (hw : w ∈ headers) :
    1 ≤ w.1 ∧ w.1 < fs.partitionHeader.used.toNat := by
  have hmem : w.1 ∈ starts 1 files := by
    rw [← hf.headers_eq]
    exact List.mem_map_of_mem hw
  have hend := hf.laid.end_eq
  have := mem_starts hmem
  omega

/-- A new file whose header was written. -/
theorem Founded.create {x : List UInt8} {k : Nat} {h : PartitionHeader} {header : Block}
    (hf : Founded fs disk headers files) (hc : Creation fs path x k h header disk disk') (hk : 0 < k) :
    Founded { fs with partitionHeader := h } disk'
      (headers ++ [(fs.partitionHeader.used.toNat, header)])
      (files ++ [(created path x).storedAt disk' fs.partitionHeader.used.toNat]) := by
  have hend := hf.laid.end_eq
  refine ⟨⟨hf.mounted, hf.handle, hc.free_le, hc.laid_partial hf.laid hk⟩, ?_, ?_⟩
  · rw [List.map_append, hf.headers_eq, starts_append, ← hend]
    rfl
  · refine List.forall_mem_append.mpr ⟨fun w hw => ?_, List.forall_mem_singleton.mpr ?_⟩
    · -- the blocks of the new file lie behind the old headers
      have hlt := hf.header_lt hw
      rw [hc.disk, applyWrites_new (by omega), if_neg (by omega), if_neg (by omega), hf.kept w hw]
    · exact hc.headerBlock (by omega) hk

/-- A file that is overwritten inside its payload. -/
theorem Founded.update {f : File} {r k : Nat} {x : List UInt8} {h : PartitionHeader}
    (hf : Founded fs disk headers (pre ++ f :: post))
    (hu : Update fs f (1 + spanAll pre) r x k h disk disk') (hr : r ≤ f.payload.length) :
    Founded { fs with partitionHeader := h } disk' headers (pre ++ f.overwritten x (min k r) :: post) := by
  have hlaid := hu.laid_whole hf.laid rfl (by omega)
  have hused := hu.used
  rw [Nat.sub_eq_zero_of_le hr, Nat.add_zero] at hused
  refine ⟨⟨hf.mounted, hf.handle, hu.free_le, ?_⟩, ?_, fun w hw => ?_⟩
  · show Laid _ 1 _ h.used.toNat
    rw [hused]
    exact hlaid
  · rw [hf.headers_eq, starts_append, starts_append]
    simp only [starts, span_overwritten]
  · have hmem : w.1 ∈ starts 1 (pre ++ f :: post) := by
      rw [← hf.headers_eq]
      exact List.mem_map_of_mem hw
    have hpos := (hf.header_lt hw).1
    rw [← hf.kept w hw]
    rw [starts_append, List.mem_append] at hmem
    -- a header is at most that of the file, or behind its payload
    rcases hmem with hin | hin
    · have := mem_starts hin
      exact hu.kept (by omega) (by omega)
    · rcases List.mem_cons.mp hin with heq | hin
      · exact hu.kept (by omega) (by omega)
      · have := (mem_starts hin).1
        unfold File.span at this
        exact hu.kept_behind (by omega)

/-- The header block that a call wrote, when it makes a new file and its first write goes well. -/
def headerWritten (c : Conditions) (fs : AbtrFS) (call : WriteCall) (m m' : Machine) :
    Option (Nat × Block) :=
  match (takesCreateBranch (honest c) fs call).run m with
  | (.ok true, _) => (m'.log.drop m.log.length).head?
  | _ => none

/-- One call of `write_file` returns. -/
structure LayoutStep (c : Conditions) (x : AbtrFS × Machine) (a : WriteCall × Option (Nat × Block))
    (y : AbtrFS × Machine) : Prop where
  named : 1 ≤ a.1.path.str.length ∧ a.1.path.str.length ≤ 254
  small : a.1.offset.toNat + a.1.data.length < 2 ^ 63
  returns : ∃ e, (writeFile (honest c) x.1 a.1.path a.1.data a.1.offset).run x.2 = (.ok (e, y.1), y.2)
  header : a.2 = headerWritten c x.1 a.1 x.2 y.2

/-- A call that makes a new file has its first write done, and one that finds a file needs no more blocks
    than the header counts, or does not get them. -/
def Orderly (c : Conditions) (x : AbtrFS × Machine) (call : WriteCall) : Prop :=
  ∀ n found r, lookUp c.readOk x.1 x.2.disk call.path n x.2.reads = some (found, r) →
    match found with
    | none => call.final none ≠ 0 →
        claimBlocks x.1.partitionHeader none (requiredBlocks (call.final none)) ≠ none →
          c.writeOk x.2.writes = true
    | some header => requiredBlocks (call.final (some header)) ≤ header.sectionCount
        ∨ claimBlocks x.1.partitionHeader (some header) (requiredBlocks (call.final (some header))) = none

variable {x y : AbtrFS × Machine} {l : WriteCall × Option (Nat × Block)}

/-- A call whose walk finds nothing. -/
theorem Founded.step_new {call : WriteCall} {e : ErrorCode} {branch : Bool}
    (hf : Founded fs m.disk headers files) (hsmall : call.offset.toNat + call.data.length < 2 ^ 63)
    (hends : CreateEnds c (fs.withName call.path) call.path call.data call.offset m (e, fs') m')
    (hbranch : branch = true ↔ call.final none ≠ 0
      ∧ claimBlocks fs.partitionHeader none (requiredBlocks (call.final none)) ≠ none)
    (ho : branch = true → c.writeOk m.writes = true) :
    ∃ files', Founded fs' m'.disk
      (headers ++ (if branch = true then (m'.log.drop m.log.length).head? else none).toList) files' := by
  have hfinal : (call.final none).toNat = call.offset.toNat + call.data.length :=
    toNat_finalSize_new (by omega)
  have hreq : (requiredBlocks (call.final none)).toNat
      = blocksFor 4096 (call.offset.toNat + call.data.length) := toNat_requiredBlocks_new (by omega)
  have hreqle := requiredBlocks_le (call.final none)
  rw [Word.ne_zero_iff, hfinal, ne_eq, claimBlocks_new_eq_none hf.free_le hreqle, hreq] at hbranch
  generalize hres : (e, fs') = res at hends
  cases hends with
  | empty h0 hq =>
      obtain ⟨_, rfl⟩ := Prod.mk.inj hres
      rw [if_neg fun hb => Nat.ne_of_gt (hbranch.mp hb).1 h0]
      exact ⟨files, by rw [Option.toList_none, List.append_nil]; exact hf.quiet hq _⟩
  | full hpos hfull hq =>
      obtain ⟨_, rfl⟩ := Prod.mk.inj hres
      rw [if_neg fun hb => (hbranch.mp hb).2 hfull]
      exact ⟨files, by rw [Option.toList_none, List.append_nil]; exact hf.quiet hq _⟩
  | wrote hpos hfit k hc hok hstop hlog =>
      obtain ⟨_, rfl⟩ := Prod.mk.inj hres
      have hb : branch = true := hbranch.mpr ⟨hpos, Nat.not_lt_of_le hfit⟩
      -- the first write went well, so the header is on the disk
      have hk : 0 < k := by
        by_contra h0
        have hbad := hstop (by omega)
        rw [Nat.eq_zero_of_not_pos h0, Nat.add_zero, ho hb] at hbad
        cases hbad
      have hnew := (hf.withName call.path).create hc hk
      rw [if_pos hb, hlog, List.drop_left]
      obtain ⟨k, rfl⟩ : ∃ j, k = j + 1 := ⟨k - 1, by omega⟩
      exact ⟨_, hnew⟩

/-- **One orderly call** leaves a volume whose files start where headers were written. -/
theorem Founded.step (hf : Founded x.1 x.2.disk headers files) (hs : LayoutStep c x l y)
    (ho : Orderly c x l.1) : ∃ files', Founded y.1 y.2.disk (headers ++ l.2.toList) files' := by
  obtain ⟨fs, m⟩ := x
  obtain ⟨fs', m'⟩ := y
  obtain ⟨call, written⟩ := l
  obtain ⟨_, hsmall, ⟨e, hrun⟩, hheader⟩ := hs
  dsimp only at hf hsmall hrun hheader ho ⊢
  rw [hheader, headerWritten]
  rcases writeFile_inv hrun with ⟨rfl, rfl, hno, _⟩ | ⟨⟨_, hpath⟩, root, found, m₁, m₂, hran⟩
  · rw [hno]
    exact ⟨files, by rw [Option.toList_none, List.append_nil]; exact hf⟩
  · rw [hran.branch]
    obtain ⟨⟨hq₁, hr₁⟩, rfl⟩ := (runs_findOrCreateNode _ _ m).returned hran.tree
    have hvol := hf.toVolume.withName call.path
    have hfront : Front (fs.withName call.path) m₁.disk files call.path := by
      rw [hq₁.disk]
      exact hvol.front call.path
    obtain ⟨hq₂, hscan⟩ := (runs_findFileHeader hfront).returned hran.walk
    obtain ⟨_, r, hlook⟩ := (runs_findFileHeader_any _ _ m₁).returned hran.walk
    rw [hq₁.disk, hr₁] at hscan hlook
    have hq := hq₁.trans hq₂
    have hlook₂ : lookUp c.readOk (fs.withName call.path) m₂.disk call.path c.walkBound m.reads
        = some (found, r) := by
      rw [hq.disk]
      exact hlook
    have hends := ((runs_writeFound (R := fun old _ => found = none → old = []) hvol.handle
      fun m₃ hs₃ => runs_oldContent_any (by rw [hs₃.1.disk]; exact hlook₂)).caught_returned
        hran.rest).imp hq fun _ _ h => h
    have hord := ho _ found r hlook
    cases found with
    | none =>
        have hcreate := WriteEnds.new hvol.free_le (by omega) (fun old _ h => h rfl) hends
        generalize hb : ((none : Option AbtrFSDiskHeader).isNone && call.final none ≠ 0
          && (claimBlocks fs.partitionHeader none (requiredBlocks (call.final none))).isSome) = branch
        have hbranch : branch = true ↔ call.final none ≠ 0
            ∧ claimBlocks fs.partitionHeader none (requiredBlocks (call.final none)) ≠ none := by
          rw [← hb]
          simp [Option.isSome_iff_ne_none]
        have hnew := hf.step_new hsmall hcreate hbranch fun h => hord (hbranch.mp h).1 (hbranch.mp h).2
        cases branch with
        | true => exact hnew
        | false => exact hnew
    | some header =>
        generalize m₂.reads = r₂ at hscan
        cases hscan with
        | found pre post f hfiles hpre hm hr =>
            subst hfiles
            obtain ⟨hh, _, hrest⟩ := hf.laid.file
            have hend := hrest.end_eq
            have hoff : call.offset.toNat + call.data.length < 2 ^ 64 := by omega
            have hin : 1 + spanAll pre + f.span
                ≤ (fs.withName call.path).partitionHeader.used.toNat :=
              show _ ≤ fs.partitionHeader.used.toNat by omega
            have hup := hends.found (fun _ _ _ => trivial) hh hin hvol.free_le hoff
            -- no more blocks are needed than the header counts, or they are not to be had
            have hfits : newBlocks f call.data call.offset ≤ f.payload.length
                ∨ fs.partitionHeader.freeBlocksCount.toNat
                  < newBlocks f call.data call.offset - f.payload.length := by
              have hreq : (requiredBlocks (call.final (some ⟨m.disk (1 + spanAll pre)⟩))).toNat
                  = newBlocks f call.data call.offset := toNat_requiredBlocks_found hh hoff
              rcases hord with hle | hnone
              · rw [UInt64.le_iff_toNat_le, hreq, hh.sectionCount] at hle
                exact Or.inl hle
              · rw [claimBlocks_found_eq_none, hreq, hh.sectionCount] at hnone
                exact Or.inr hnone
            show ∃ files', Founded fs' m'.disk (headers ++ []) files'
            rw [List.append_nil]
            generalize hres : (e, fs') = res at hup
            cases hup with
            | empty _ hquiet =>
                obtain ⟨_, rfl⟩ := Prod.mk.inj hres
                exact ⟨_, hf.quiet hquiet _⟩
            | full _ _ hquiet =>
                obtain ⟨_, rfl⟩ := Prod.mk.inj hres
                exact ⟨_, hf.quiet hquiet _⟩
            | wrote _ hfit h _ _ x k _ _ _ hu _ _ =>
                obtain ⟨_, rfl⟩ := Prod.mk.inj hres
                have hfit' : newBlocks f call.data call.offset - f.payload.length
                    ≤ fs.partitionHeader.freeBlocksCount.toNat := hfit
                exact ⟨_, (hf.withName call.path).update hu (by omega)⟩

/-- The object `format` leaves has no files. -/
theorem founded_format {fs₀ : AbtrFS} {base hhdm : UInt64} {handle : Handle} {m₀ : Machine}
    (h : (format (honest c) fs₀ base hhdm handle).run m₀ = (.ok (true, fs), m)) :
    Founded fs m.disk [] [] := by
  obtain ⟨ok, m₁, hwrite, hrest⟩ := bind_eq_ok h
  have hv : handle ≠ invalidHandle := by
    rintro rfl
    simp [writeBlock, attach] at hwrite
    simp [hwrite.1] at hrest
  split at hrest
  · obtain ⟨hfs, rfl⟩ := Prod.mk.inj hrest
    obtain ⟨_, rfl⟩ := Prod.mk.inj (Except.ok.inj hfs)
    have hfree : formatHeader.freeBlocksCount.toNat ≤ formatHeader.totalBlocks.toNat := by
      decide +kernel
    have hused : formatHeader.used.toNat = 1 := by decide +kernel
    exact ⟨⟨rfl, hv, hfree, hused.symm⟩, rfl, by simp⟩
  · cases (Prod.mk.inj (Except.ok.inj (Prod.mk.inj hrest).1)).1

/-- **From a fresh volume on, every run of orderly calls keeps the layout.** -/
theorem inLayout_of_run {fs₀ fs₁ : AbtrFS} {base hhdm : UInt64} {handle : Handle} {m₀ m₁ : Machine}
    {calls : List (WriteCall × Option (Nat × Block))}
    (hformat : (format (honest c) fs₀ base hhdm handle).run m₀ = (.ok (true, fs₁), m₁))
    (h : Run (fun x l y => LayoutStep c x l y ∧ Orderly c x l.1) (fs₁, m₁) calls (fs, m)) :
    InLayout fs m.disk (calls.filterMap Prod.snd) := by
  suffices hf : ∃ files, Founded fs m.disk (calls.filterMap Prod.snd) files by
    obtain ⟨files, hf⟩ := hf
    exact hf.inLayout
  generalize hy : (fs, m) = y at h
  induction h generalizing fs m with
  | start =>
      obtain ⟨rfl, rfl⟩ := Prod.mk.inj hy
      exact ⟨[], founded_format hformat⟩
  | @step _ _ _ l h hs ih =>
      obtain ⟨files, hf⟩ := ih rfl
      obtain ⟨files', hf'⟩ := hf.step hs.1 hs.2
      subst hy
      refine ⟨files', ?_⟩
      have hlast : [l].filterMap Prod.snd = l.2.toList := by
        rcases l with ⟨call, _ | w⟩ <;> rfl
      rw [List.filterMap_append, hlast]
      exact hf'

/-! ## Two runs -/

/-- The calls one after the other, with what each of them did; `none` when one fails the test `ok` or does
    not return. -/
def runCalls (c : Conditions) (ok : AbtrFS × Machine → WriteCall → Bool) :
    List WriteCall → List (WriteCall × Option (Nat × Block)) → AbtrFS × Machine →
      Option (List (WriteCall × Option (Nat × Block)) × AbtrFS × Machine)
  | [], done, x => some (done, x)
  | call :: calls, done, x =>
      if ok x call = true then
        match (writeFile (honest c) x.1 call.path call.data call.offset).run x.2 with
        | (.ok (_, fs'), m') =>
            runCalls c ok calls (done ++ [(call, headerWritten c x.1 call x.2 m')]) (fs', m')
        | (.error _, _) => none
      else none

theorem run_of_runCalls {ok : AbtrFS × Machine → WriteCall → Bool} {s : AbtrFS × Machine}
    {calls : List WriteCall} {done done' : List (WriteCall × Option (Nat × Block))}
    (hall : ∀ call ∈ calls, (1 ≤ call.path.str.length ∧ call.path.str.length ≤ 254)
      ∧ call.offset.toNat + call.data.length < 2 ^ 63)
    (h : Run (fun x l y => LayoutStep c x l y ∧ ok x l.1 = true) s done x)
    (hr : runCalls c ok calls done x = some (done', y)) :
    Run (fun x l y => LayoutStep c x l y ∧ ok x l.1 = true) s done' y := by
  induction calls generalizing done x with
  | nil =>
      obtain ⟨rfl, rfl⟩ := Prod.mk.inj (Option.some.inj hr)
      exact h
  | cons call calls ih =>
      obtain ⟨hcall, hall⟩ := List.forall_mem_cons.mp hall
      simp only [runCalls] at hr
      split at hr
      · rename_i hok
        split at hr
        · rename_i e fs' m' hrun
          exact ih hall (h.step ⟨⟨hcall.1, hcall.2, ⟨e, hrun⟩, rfl⟩, hok⟩) hr
        · cases hr
      · cases hr

/-- The test for `Orderly` when the walk ends within `n` rounds. -/
def orderlyWithin (c : Conditions) (n : Nat) (x : AbtrFS × Machine) (call : WriteCall) : Bool :=
  match lookUp c.readOk x.1 x.2.disk call.path n x.2.reads with
  | some (none, _) => c.writeOk x.2.writes
  | some (some header, _) => requiredBlocks (call.final (some header)) ≤ header.sectionCount
  | none => false

theorem orderly_of_within {n : Nat} {call : WriteCall} (h : orderlyWithin c n x call = true) :
    Orderly c x call := by
  intro n' found r hlook
  unfold orderlyWithin at h
  split at h
  · rename_i hlook'
    have heq := (lookUp_mono hlook (Nat.le_max_left n' n)).symm.trans
      (lookUp_mono hlook' (Nat.le_max_right n' n))
    obtain ⟨rfl, _⟩ := Prod.mk.inj (Option.some.inj heq)
    exact fun _ _ => h
  · rename_i header _ hlook'
    have heq := (lookUp_mono hlook (Nat.le_max_left n' n)).symm.trans
      (lookUp_mono hlook' (Nat.le_max_right n' n))
    obtain ⟨rfl, _⟩ := Prod.mk.inj (Option.some.inj heq)
    exact Or.inl (by simpa using h)
  · cases h

/-- The disk and the object after `format`, on a machine that writes. -/
def formatted : AbtrFS × Machine :=
  ({ attach AbtrFS.init 0 0 0 with partitionHeader := formatHeader, isMounted := true },
    ⟨setBlock (fun _ => Bytes.zero) (0, formatHeader.bytes), 0, 0, 1, [(0, formatHeader.bytes)]⟩)

theorem run_format {c : Conditions} (hw : c.writeOk 0 = true) :
    (format (honest c) AbtrFS.init 0 0 0).run (Machine.start fun _ => Bytes.zero)
      = (.ok (true, formatted.1), formatted.2) := by
  have hv : ({ attach AbtrFS.init 0 0 0 with partitionHeader := formatHeader } : AbtrFS).deviceHandle
      ≠ invalidHandle := by decide
  simp only [format, run_bind, run_writeBlock hv, Machine.start, hw, if_true, andThen_ok, run_pure]
  rfl

/-- A file is made and then overwritten, and another one is made. -/
def steadyCalls : List WriteCall :=
  [⟨Path.ofBytes [0x61], [1], 0⟩, ⟨Path.ofBytes [0x61], [2, 3], 5⟩, ⟨Path.ofBytes [0x62], [4], 4096⟩]

/-- They keep the layout. -/
theorem steady_keeps_layout :
    ∃ (calls : List (WriteCall × Option (Nat × Block))) (fs : AbtrFS) (m : Machine),
      calls.length = 3 ∧ InLayout fs m.disk (calls.filterMap Prod.snd) := by
  have hcount : (runCalls workingMachine (orderlyWithin workingMachine 3) steadyCalls [] formatted).map
      (fun r => r.1.length) = some 3 := by decide +kernel
  obtain ⟨⟨calls, fs, m⟩, hrun, hlen⟩ := Option.map_eq_some_iff.mp hcount
  have hsteps := run_of_runCalls (by decide +kernel) .start hrun
  have horderly : Run (fun x l y => LayoutStep workingMachine x l y ∧ Orderly workingMachine x l.1)
      formatted calls (fs, m) := (hsteps.mono (I := fun _ => True)
        (fun _ _ _ h _ => ⟨⟨h.1, orderly_of_within h.2⟩, trivial⟩) trivial).1
  exact ⟨calls, fs, m, hlen, inLayout_of_run (run_format (c := workingMachine) rfl) horderly⟩

/-- A file is made, and then written to behind its only block. -/
def growingCalls : List WriteCall := [⟨Path.ofBytes [0x61], [1], 0⟩, ⟨Path.ofBytes [0x61], [2], 4096⟩]

/-- **A file that grows breaks the layout**: its header counts one block, the volume counts two. -/
theorem growth_breaks_layout :
    ∃ (c : Conditions) (calls : List (WriteCall × Option (Nat × Block))) (fs : AbtrFS) (m : Machine),
      (format (honest c) AbtrFS.init 0 0 0).run (Machine.start fun _ => Bytes.zero)
        = (.ok (true, formatted.1), formatted.2)
      ∧ Run (LayoutStep c) formatted calls (fs, m)
      ∧ ¬ InLayout fs m.disk (calls.filterMap Prod.snd) := by
  have hcount : (runCalls workingMachine (fun _ _ => true) growingCalls [] formatted).map (fun r =>
      (r.2.1.partitionHeader.used.toNat, (r.1.filterMap Prod.snd).map fun w =>
        1 + (AbtrFSDiskHeader.sectionCount ⟨r.2.2.disk w.1⟩).toNat)) = some (4, [2]) := by
    decide +kernel
  obtain ⟨⟨calls, fs, m⟩, hrun, hcount⟩ := Option.map_eq_some_iff.mp hcount
  obtain ⟨hused, hsum⟩ := Prod.mk.inj hcount
  have hsteps := run_of_runCalls (by decide +kernel) .start hrun
  refine ⟨workingMachine, calls, fs, m, run_format rfl, ?_, fun h => ?_⟩
  · exact (hsteps.mono (I := fun _ => True) (fun _ _ _ h _ => ⟨h.1, trivial⟩) trivial).1
  · have := h.used
    simp only at hused hsum
    rw [hused, hsum] at this
    cases this

end AlopexOS
