import AlopexOS.Abtrfs.Isolation

/-!
# `Abtrfs.ReadErrors` — reads that fail during a write

A failed read of the header walk counts as "no such file", and a failed read of the old content as an
empty one; in both cases `writeFile` goes on. What follows says for each pattern of failing reads whether
that can do harm: it does unless no read of the call fails, or the call is refused on other grounds.
-/

namespace AlopexOS

open Packed ByteString CString Prog

variable {c : Conditions} {fs : AbtrFS} {path : Path} {files pre post : List File} {data : List UInt8}
  {off : UInt64} {f : File} {m m' : Machine} {readOk : Nat → Bool} {disk : Nat → Block} {a r : Nat}

/-! ## The reads of a call -/

/-- A read between the two states failed. -/
def FailedRead (readOk : Nat → Bool) (m m' : Machine) : Prop :=
  ∃ i, m.reads ≤ i ∧ i < m'.reads ∧ readOk i = false

/-- When a read fails, the call returns an error and has written nothing, whatever memory there is and
    whichever writes fail. As long as memory lasts, it does return. -/
def NoDamage (readOk : Nat → Bool) (fs : AbtrFS) (m : Machine) (path : Path) (data : List UInt8)
    (off : UInt64) : Prop :=
  ∀ c : Conditions, c.readOk = readOk → ∀ out m',
    (writeFile (honest c) fs path data off).run m = (out, m') → FailedRead readOk m m' →
      (c.Generous → ∃ w, out = .ok w) ∧ out ≠ .error .wild ∧ ∀ res fs', out = .ok (res, fs') →
        res ≠ .success ∧ m'.log = m.log ∧ m'.disk = m.disk

/-- The header of the first file that the path names. -/
def lookup (disk : Nat → Block) (path : Path) : Nat → List File → Option AbtrFSDiskHeader
  | _, [] => none
  | a, f :: fs => if f.Named path then some ⟨disk a⟩ else lookup disk path (a + f.span) fs

/-- The headers up to that file, or all of them. -/
def headerReads (path : Path) : List File → Nat
  | [] => 0
  | f :: fs => if f.Named path then 1 else headerReads path fs + 1

/-- There is no room for the write. -/
def Refused (h : PartitionHeader) (found : Option AbtrFSDiskHeader) (data : List UInt8) (off : UInt64) :
    Prop :=
  off.toNat + data.length < 2 ^ 64
    ∧ claimBlocks h found (requiredBlocks (finalSize found data off)) = none

/-- From the read number `r` on no failure can do harm: there is no path to write to; or the walk succeeds,
    and then nothing is to be written, or the old content is read, or there is no room; or the walk fails,
    and a file that did not exist would be empty or have no room. -/
def ReadSafe (readOk : Nat → Bool) (fs : AbtrFS) (disk : Nat → Block) (files : List File) (path : Path)
    (data : List UInt8) (off : UInt64) (r : Nat) : Prop :=
  (∀ b ∈ path.str, b = slash)
  ∨ ((∀ i < headerReads path files, readOk (r + i) = true)
    ∧ ∀ f, files.find? (fun f => decide (f.Named path)) = some f →
      finalSize (lookup disk path 1 files) data off = 0
      ∨ (∀ i < headerReads path files + copyReads f.payload.length f.length,
          readOk (r + headerReads path files + i) = true)
      ∨ Refused fs.partitionHeader (lookup disk path 1 files) data off)
  ∨ ((∃ i < headerReads path files, readOk (r + i) = false)
    ∧ (finalSize none data off = 0 ∨ Refused fs.partitionHeader none data off))

theorem lookup_first (hpre : ∀ g ∈ pre, ¬ g.Named path) (hm : f.Named path) :
    lookup disk path a (pre ++ f :: post) = some ⟨disk (a + spanAll pre)⟩ := by
  induction pre generalizing a with
  | nil =>
      rw [List.nil_append, lookup, if_pos hm]
      rfl
  | cons g pre ih =>
      obtain ⟨hg, hpre⟩ := List.forall_mem_cons.mp hpre
      rw [List.cons_append, lookup, if_neg hg, ih hpre, spanAll_cons, Nat.add_assoc]

theorem headerReads_first (hpre : ∀ g ∈ pre, ¬ g.Named path) (hm : f.Named path) :
    headerReads path (pre ++ f :: post) = pre.length + 1 := by
  induction pre with
  | nil => rw [List.nil_append, headerReads, if_pos hm, List.length_nil]
  | cons g pre ih =>
      obtain ⟨hg, hpre⟩ := List.forall_mem_cons.mp hpre
      rw [List.cons_append, headerReads, if_neg hg, ih hpre, List.length_cons]

theorem headerReads_absent (hm : ∀ f ∈ files, ¬ f.Named path) : headerReads path files = files.length := by
  induction files with
  | nil => rfl
  | cons g files ih =>
      obtain ⟨hg, hm⟩ := List.forall_mem_cons.mp hm
      rw [headerReads, if_neg hg, ih hm, List.length_cons]

/-- A header behind files that the path does not name is read. -/
theorem lt_headerReads (hpre : ∀ g ∈ pre, ¬ g.Named path) :
    pre.length < headerReads path (pre ++ f :: post) := by
  induction pre with
  | nil =>
      rw [List.nil_append, headerReads, List.length_nil]
      split <;> omega
  | cons g pre ih =>
      obtain ⟨hg, hpre⟩ := List.forall_mem_cons.mp hpre
      rw [List.cons_append, headerReads, if_neg hg, List.length_cons]
      exact Nat.succ_lt_succ (ih hpre)

/-! ## The nested read -/

/-- The nested read of a file that the path names: its reads all succeed, or one of them fails. -/
theorem oldKnown_cases {header : AbtrFSDiskHeader} {old : List UInt8} {r' : Nat}
    (hpre : ∀ g ∈ pre, ¬ g.Named path) (hm : f.Named path)
    (hold : OldKnown c (pre ++ f :: post) path m r (some header) old r') :
    ((∀ i < pre.length + 1 + copyReads f.payload.length f.length, c.readOk (r + i) = true)
        ∧ r' = r + (pre.length + 1 + copyReads f.payload.length f.length))
      ∨ ∃ i, i < pre.length + 1 + copyReads f.payload.length f.length ∧ c.readOk (r + i) = false
        ∧ r + i < r' := by
  obtain ⟨m₁, res, _, rfl, hread, _⟩ := hold
  cases hread with
  | missing hs =>
      cases hs with
      | absent hno _ => exact absurd hm (hno f (by simp))
      | failed pre₂ post₂ f₂ hf₂ hpre₂ _ hbad =>
          -- the walk stopped before it came to the file
          have hle : pre₂.length < headerReads path (pre ++ f :: post) := by
            rw [hf₂]
            exact lt_headerReads hpre₂
          rw [headerReads_first hpre hm] at hle
          exact Or.inr ⟨pre₂.length, by omega, hbad, by omega⟩
  | read pre₂ post₂ f₂ _ hf₂ hpre₂ hm₂ hr _ =>
      obtain ⟨rfl, rfl, rfl⟩ := first_unique hf₂ hpre hm hpre₂ hm₂
      rw [readLength_zero] at hr ⊢
      exact Or.inl ⟨fun i hi => hr i (by omega), by omega⟩
  | failed pre₂ post₂ f₂ _ hf₂ hpre₂ hm₂ i _ hi hbad =>
      obtain ⟨rfl, rfl, rfl⟩ := first_unique hf₂ hpre hm hpre₂ hm₂
      rw [readLength_zero] at hi
      refine Or.inr ⟨pre.length + 1 + i, by omega, ?_, by omega⟩
      rwa [show m₁.reads + (pre.length + 1 + i) = m₁.reads + pre.length + 1 + i by omega]

/-! ## The condition -/

/-- How a call that came back ended, and one that left its array. -/
theorem outcome_cases {out : Except Fault (ErrorCode × AbtrFS)} (hvol : Volume fs m.disk files)
    (hseg : chopPath path ≠ []) (hrun : (writeFile (honest c) fs path data off).run m = (out, m')) :
    (out = .error .hang ∧ ¬ c.Generous) ∨ ∃ o r res, ScanEnds c.readOk m.disk path files 1 m.reads (some (o, r))
      ∧ WriteEnds c (fs.withName path) path data off o (OldKnown c files path m r o) m res m'
      ∧ ∀ w, res = some w → out = .ok w := by
  have hruns : Runs c.Generous (writeFile (honest c) fs path data off).caught m _ :=
    runs_writeFile (hvol.front path) hseg
  cases out with
  | ok w =>
      obtain ⟨o, r, hs, hends⟩ := hruns.caught_returned hrun
      exact Or.inr ⟨o, r, some w, hs, hends, fun w' hw => by rw [Option.some.inj hw]⟩
  | error e =>
      cases e with
      | hang =>
          refine Or.inl ⟨rfl, fun hG => ?_⟩
          rcases hruns.caught_returns hG with ⟨a, s, ha, _⟩ | ⟨s, ha, _⟩ <;> rw [hrun] at ha <;> cases ha
      | wild =>
          obtain ⟨o, r, hs, hends⟩ := hruns.caught_stopped hrun
          exact Or.inr ⟨o, r, none, hs, hends, fun _ hw => nomatch hw⟩

/-- A call that is refused neither leaves its array nor writes. -/
theorem Refused.not_wrote {found : Option AbtrFSDiskHeader} {R : List UInt8 → Nat → Prop}
    {res : Option (ErrorCode × AbtrFS)} (hc : Refused fs.partitionHeader found data off)
    (hends : WriteEnds c fs path data off found R m res m') :
    ∃ w, res = some w ∧ w.1 ≠ .success ∧ Quiet m m' := by
  cases hends with
  | empty _ hq => exact ⟨_, rfl, by simp, hq⟩
  | wild _ old _ hx _ => exact absurd hx (expandedData_ne_none hc.1 old)
  | full _ _ _ _ _ hq => exact ⟨_, rfl, by simp, hq⟩
  | wrote _ h _ _ _ hclaim _ _ _ =>
      rw [hc.2] at hclaim
      cases hclaim

/-- A call with nothing to write writes nothing. -/
theorem WriteEnds.of_empty {found : Option AbtrFSDiskHeader} {R : List UInt8 → Nat → Prop}
    {res : Option (ErrorCode × AbtrFS)} (h0 : finalSize found data off = 0)
    (hends : WriteEnds c fs path data off found R m res m') :
    ∃ w, res = some w ∧ w.1 ≠ .success ∧ Quiet m m' := by
  cases hends with
  | empty _ hq => exact ⟨_, rfl, by simp, hq⟩
  | wild h _ _ _ _ => exact absurd h0 h
  | full h _ _ _ _ _ => exact absurd h0 h
  | wrote h _ _ _ _ _ _ _ _ => exact absurd h0 h

/-- A call ends without a write, or it has read the old content. -/
theorem WriteEnds.quiet_or_known {found : Option AbtrFSDiskHeader} {R : List UInt8 → Nat → Prop}
    {res : Option (ErrorCode × AbtrFS)} (hends : WriteEnds c fs path data off found R m res m') :
    (∃ w, res = some w ∧ w.1 ≠ .success ∧ Quiet m m') ∨ ∃ old, R old m'.reads := by
  cases hends with
  | empty _ hq => exact Or.inl ⟨_, rfl, by simp, hq⟩
  | wild _ old hR _ _ => exact Or.inr ⟨old, hR⟩
  | full _ _ _ _ _ hq => exact Or.inl ⟨_, rfl, by simp, hq⟩
  | wrote _ _ old _ _ _ hR _ _ => exact Or.inr ⟨old, hR⟩

/-- **A safe pattern of failures does no damage.** -/
theorem ReadSafe.noDamage (hvol : Volume fs m.disk files)
    (h : ReadSafe readOk fs m.disk files path data off m.reads) :
    NoDamage readOk fs m path data off := by
  rintro c rfl out m' hrun ⟨i, hge, hlt, hbad⟩
  by_cases hslash : ∀ b ∈ path.str, b = slash
  · -- no read is made
    rw [writeFile, if_neg (by simp [hvol.mounted]), if_pos ((chopPath_eq_nil path).mpr hslash)] at hrun
    obtain ⟨_, rfl⟩ := Prod.mk.inj hrun
    exact absurd hlt (Nat.not_lt_of_le hge)
  have hseg : chopPath path ≠ [] := fun h => hslash ((chopPath_eq_nil path).mp h)
  rcases outcome_cases hvol hseg hrun with ⟨rfl, hG⟩ | ⟨o, r, res, hs, hends, hok⟩
  · exact ⟨fun h => absurd h hG, by simp, fun res fs' h => by cases h⟩
  have hquiet : (∃ w, res = some w ∧ w.1 ≠ .success ∧ Quiet m m') →
      (c.Generous → ∃ w, out = .ok w) ∧ out ≠ .error .wild ∧ ∀ res fs', out = .ok (res, fs') →
        res ≠ .success ∧ m'.log = m.log ∧ m'.disk = m.disk := by
    rintro ⟨w, rfl, hne, hq⟩
    rw [hok w rfl]
    refine ⟨fun _ => ⟨w, rfl⟩, by simp, fun res fs' h => ?_⟩
    obtain rfl := Except.ok.inj h
    exact ⟨hne, hq.log, hq.disk⟩
  rcases hends.quiet_or_known with hq | ⟨old, hold⟩
  · exact hquiet hq
  rcases h with hall | ⟨hheads, hfound⟩ | ⟨⟨j, hj, hjbad⟩, hcond⟩
  · exact absurd hall hslash
  · cases hs with
    | absent hm hr =>
        -- every read of the call was one of the walk
        obtain ⟨_, hcount⟩ := hold
        have := hr (i - m.reads) (by omega)
        rw [show m.reads + (i - m.reads) = i by omega, hbad] at this
        cases this
    | failed pre post f hf hpre _ hfail =>
        have := hheads pre.length (by rw [hf]; exact lt_headerReads hpre)
        rw [hfail] at this
        cases this
    | found pre post f hf hpre hm hr =>
        subst hf
        have hfind : (pre ++ f :: post).find? (fun g => decide (g.Named path)) = some f :=
          find_first hpre hm
        rw [lookup_first hpre hm, headerReads_first hpre hm] at hfound
        rcases hfound f hfind with h0 | hnested | hfull
        · exact hquiet (hends.of_empty h0)
        · rcases oldKnown_cases hpre hm hold with ⟨_, hcount⟩ | ⟨j, hj, hjbad, _⟩
          · -- the reads of the walk, and those of the nested read
            by_cases hwalk : i ≤ m.reads + pre.length
            · have := hr (i - m.reads) (by omega)
              rw [show m.reads + (i - m.reads) = i by omega, hbad] at this
              cases this
            · have := hnested (i - (m.reads + pre.length + 1)) (by omega)
              rw [show m.reads + (pre.length + 1) + (i - (m.reads + pre.length + 1)) = i by omega,
                hbad] at this
              cases this
          · have := hnested j hj
            rw [show m.reads + (pre.length + 1) + j = m.reads + pre.length + 1 + j by omega, hjbad] at this
            cases this
        · have hfull' : Refused (fs.withName path).partitionHeader _ data off := hfull
          exact hquiet (hfull'.not_wrote hends)
  · have hnone : o = none := by
      cases hs with
      | absent _ _ => rfl
      | failed _ _ _ _ _ _ _ => rfl
      | found pre post f hf hpre hm hr =>
          subst hf
          rw [headerReads_first hpre hm] at hj
          rw [hr j (by omega)] at hjbad
          cases hjbad
    subst hnone
    rcases hcond with h0 | hfull
    · exact hquiet (hends.of_empty h0)
    · have hfull' : Refused (fs.withName path).partitionHeader none data off := hfull
      exact hquiet (hfull'.not_wrote hends)

/-- After a failed read a call that does no damage had nothing to write or no room. -/
theorem NoDamage.refused {o : Option AbtrFSDiskHeader} {r : Nat}
    {out : Except Fault (ErrorCode × AbtrFS)} {res : Option (ErrorCode × AbtrFS)}
    (h : NoDamage readOk fs m path data off) (hlen : off.toNat + data.length < 2 ^ 64)
    (hc : c.readOk = readOk) (hwrite : ∀ i, c.writeOk i = true)
    (hrun : (writeFile (honest c) fs path data off).run m = (out, m'))
    (hends : WriteEnds c (fs.withName path) path data off o (OldKnown c files path m r o) m res m')
    (hok : ∀ w, res = some w → out = .ok w)
    (hfail : ∀ old, OldKnown c files path m r o old m'.reads → FailedRead readOk m m') :
    finalSize o data off = 0 ∨ Refused fs.partitionHeader o data off := by
  cases hends with
  | empty h0 _ => exact Or.inl h0
  | wild _ old _ hx _ => exact absurd hx (expandedData_ne_none hlen old)
  | full _ _ _ _ hclaim _ => exact Or.inr ⟨hlen, hclaim⟩
  | wrote _ p old x k _ hold _ hw =>
      -- every write was made, so the call succeeded
      have hk : k = (callWrites (fs.withName path) path data off o x p).length := by
        by_contra hne
        have := hw.stopped (Nat.lt_of_le_of_ne hw.le hne)
        rw [hwrite] at this
        cases this
      have hsuccess := (h c hc out m' hrun (hfail old hold)).2.2 _ _ (hok _ rfl)
      exact absurd (if_pos hk) hsuccess.1

/-- **Only safe patterns do no damage.** -/
theorem NoDamage.readSafe (hvol : Volume fs m.disk files) (hlen : off.toNat + data.length < 2 ^ 64)
    (h : NoDamage readOk fs m path data off) : ReadSafe readOk fs m.disk files path data off m.reads := by
  by_cases hslash : ∀ b ∈ path.str, b = slash
  · exact Or.inl hslash
  have hseg : chopPath path ≠ [] := fun h => hslash ((chopPath_eq_nil path).mp h)
  -- memory lasts and every write succeeds
  obtain ⟨c, hG, hc, hwrite⟩ : ∃ c : Conditions, c.Generous ∧ c.readOk = readOk ∧ ∀ i, c.writeOk i = true :=
    ⟨{ Conditions.ample fun _ => true with readOk := readOk }, ⟨fun _ _ => rfl, Nat.le_refl _⟩, rfl,
      fun _ => rfl⟩
  rcases hrun : (writeFile (honest c) fs path data off).run m with ⟨out, m'⟩
  rcases outcome_cases hvol hseg hrun with ⟨_, hno⟩ | ⟨o, r, res, hs, hends, hok⟩
  · exact absurd hG hno
  subst hc
  right
  cases hs with
  | absent hm hr =>
      refine Or.inl ⟨?_, fun f hf => ?_⟩
      · rw [headerReads_absent hm]
        exact hr
      · rw [find_absent hm] at hf
        cases hf
  | failed pre post f hf hpre hr hbad =>
      subst hf
      refine Or.inr ⟨⟨pre.length, lt_headerReads hpre, hbad⟩, ?_⟩
      refine h.refused hlen rfl hwrite hrun hends hok ?_
      rintro old ⟨_, hcount⟩
      exact ⟨m.reads + pre.length, by omega, by omega, hbad⟩
  | found pre post f hf hpre hm hr =>
      subst hf
      refine Or.inl ⟨?_, ?_⟩
      · rw [headerReads_first hpre hm]
        exact fun i hi => hr i (by omega)
      · intro f' hf'
        rw [find_first hpre hm] at hf'
        obtain rfl := Option.some.inj hf'
        rw [lookup_first hpre hm, headerReads_first hpre hm]
        by_cases hall : ∀ i < pre.length + 1 + copyReads f.payload.length f.length,
            c.readOk (m.reads + (pre.length + 1) + i) = true
        · exact Or.inr (Or.inl hall)
        · refine (h.refused hlen rfl hwrite hrun hends hok ?_).imp id Or.inr
          intro old hold
          rcases oldKnown_cases hpre hm hold with ⟨hr', _⟩ | ⟨i, _, hbad, hlt⟩
          · refine absurd (fun i hi => ?_) hall
            rw [← Nat.add_assoc]
            exact hr' i hi
          · exact ⟨_, by omega, hlt, hbad⟩

/-- **When a failed read does no damage.** Of a call whose data wrap and leave its array nothing is said in
    the second part. -/
theorem noDamage_iff (hvol : Volume fs m.disk files) :
    (ReadSafe readOk fs m.disk files path data off m.reads → NoDamage readOk fs m path data off)
    ∧ (off.toNat + data.length < 2 ^ 64 →
        NoDamage readOk fs m path data off → ReadSafe readOk fs m.disk files path data off m.reads) :=
  ⟨fun h => h.noDamage hvol, fun hlen h => h.readSafe hvol hlen⟩

/-- The first read fails, the others succeed. -/
def firstReadFails : Nat → Bool := fun i => decide (i ≠ 0)

/-- A write to `a` with an object on the disk that has one byte in that file, on a machine whose first read
    fails. -/
def flakyWriteOn (fs : AbtrFS) : Except Fault ErrorCode × Machine :=
  (do
    let w ← writeFile (honest { workingMachine with readOk := firstReadFails }) fs pathA [2] 0
    pure w.1 : Prog Machine ErrorCode).run (Machine.start (layDisk oneByte))

/-- The object on a partition of four blocks, of which one is free. -/
def fourBlocks : AbtrFS :=
  { layFs oneByte with
    partitionHeader := (formatHeader.set .totalBlocks 4).setFree 1 }

theorem volume_fourBlocks : Volume fourBlocks (layDisk oneByte) (layFiles oneByte) := by
  have hvol : Volume (layFs oneByte) (layDisk oneByte) (layFiles oneByte) := volume_layDisk (by decide)
  have hused : fourBlocks.partitionHeader.used = (layFs oneByte).partitionHeader.used := by decide +kernel
  refine ⟨rfl, hvol.handle, by decide +kernel, ?_⟩
  rw [hused]
  exact hvol.laid

/-- A write that finds no room for another file does no damage when the walk fails, and is refused. -/
theorem noDamage_full :
    NoDamage firstReadFails fourBlocks (Machine.start (layDisk oneByte)) pathA [2] 0
      ∧ (flakyWriteOn fourBlocks).1 = .ok .noSpaceLeft := by
  refine ⟨(noDamage_iff volume_fourBlocks).1 (Or.inr (Or.inr ⟨⟨0, ?_, rfl⟩, Or.inr ?_⟩)), by decide +kernel⟩
  · have hm : (created pathA [1]).Named pathA := named_created (by rw [str_pathA]; decide) _
    show 0 < headerReads pathA [created pathA [1]]
    rw [headerReads, if_pos hm]
    decide
  · exact ⟨by decide, by decide +kernel⟩

/-- The write on the volume with room. -/
def flakyWrite : Except Fault ErrorCode × Machine := flakyWriteOn (layFs oneByte)

/-- **One failed read makes a second file of the same name.** -/
theorem flakyWrite_duplicates :
    WellLaidOut (layFs oneByte) (layDisk oneByte) (layFiles oneByte)
    ∧ flakyWrite.2.reads = 1 ∧ firstReadFails 0 = false
    ∧ flakyWrite.1 = .ok .success ∧ flakyWrite.2.log.map Prod.fst = [3, 4, 0]
    ∧ AbtrFSDiskHeader.isFile ⟨flakyWrite.2.disk 1⟩ = true
    ∧ AbtrFSDiskHeader.isFile ⟨flakyWrite.2.disk 3⟩ = true
    ∧ AbtrFSDiskHeader.str ⟨flakyWrite.2.disk 1⟩ = [0x61]
    ∧ AbtrFSDiskHeader.str ⟨flakyWrite.2.disk 3⟩ = [0x61] :=
  ⟨wellLaidOut_oneByte, by decide +kernel, rfl, by decide +kernel, by decide +kernel, by decide +kernel,
    by decide +kernel, by decide +kernel, by decide +kernel⟩

end AlopexOS
