import AlopexOS.Abtrfs.NewFile

/-!
# `Abtrfs.FailedWrites` — what a call that fails leaves behind

`writeFile` puts the name into the tree before it checks anything, and takes blocks off the free count
before it writes any. A call that returns an error goes back on neither. This is about any disk at all,
any pattern of failing reads and writes, and an object with or without a device.

## Contents
- **`lookUp`**: what the header walk of a call answers.
- **`WriteOutcome`**: what a call returns, once the walk has answered.
- **`LeavesObject`** and exactly when it holds.
-/

namespace AlopexOS

open Packed Prog

variable {c : Conditions} {fs : AbtrFS} {path : Path} {data : List UInt8} {off : UInt64} {m : Machine}

/-! ## The walk -/

/-- What the header walk answers, and the reads made by then; without a device it finds nothing. -/
def lookUp (readOk : Nat → Bool) (fs : AbtrFS) (disk : Nat → Block) (path : Path) (n r : Nat) :
    Option (Option AbtrFSDiskHeader × Nat) :=
  if fs.deviceHandle = invalidHandle then some (none, r)
  else scan readOk disk path fs.partitionHeader.used n 1 r

/-- A walk that found a file comes to an end whichever reads fail. -/
theorem scan_isSome {readOk : Nat → Bool} {disk : Nat → Block} {used curr : UInt64} {n r r₁ : Nat}
    {header : AbtrFSDiskHeader} (h : scan readOk disk path used n curr r = some (some header, r₁))
    (r' : Nat) : (scan readOk disk path used n curr r').isSome = true := by
  induction n generalizing curr r r' with
  | zero => cases h
  | succ n ih =>
      simp only [scan] at h ⊢
      by_cases hlt : curr < used
      · rw [if_pos hlt] at h ⊢
        by_cases hok' : readOk r' = true
        · rw [if_pos hok']
          by_cases hok : readOk r = true
          · rw [if_pos hok] at h
            split
            · rfl
            · rename_i hno
              rw [if_neg hno] at h
              exact ih h _
          · rw [if_neg hok] at h
            cases h
        · rw [if_neg hok']
          rfl
      · rw [if_neg hlt] at h
        cases h

/-- **The walk on any disk**, which may go on for ever. -/
theorem runs_findFileHeader_any (fs : AbtrFS) (path : Path) (m : Machine) :
    Runs (c.Generous ∧ (lookUp c.readOk fs m.disk path c.walkBound m.reads).isSome = true)
      (findFileHeader (honest c) fs path) m
      (fun o m' => Quiet m m' ∧ ∃ r, lookUp c.readOk fs m.disk path c.walkBound m.reads = some (o, r)) := by
  refine ((runs_operatorNew 4096 m).guard And.left).bind ?_
  rintro _ m₁ ⟨hq, hr⟩
  by_cases hv : fs.deviceHandle = invalidHandle
  · -- without a device the first read fails
    simp only [lookUp, hv, if_true]
    have hbound : (honest c).walkBound = c.walkBound := rfl
    rw [hbound]
    cases hb : c.walkBound with
    | zero =>
        simp only [walk, Runs, run_fail]
        intro hG
        have := hG.1.2
        omega
    | succ n =>
        simp only [walk]
        refine Runs.ite (fun _ => ?_) (fun _ => Runs.pure ⟨hq, _, rfl⟩)
        simp only [readBlock, hv, if_true]
        exact Runs.of_ok rfl ⟨hq, _, rfl⟩
  · simp only [lookUp, hv, if_false]
    have hwalk := run_walk c path fs.partitionHeader.used hv c.walkBound 1
      AbtrFSDiskHeader.init.bytes m₁
    rw [hr, hq.disk] at hwalk
    cases hscan : scan c.readOk m.disk path fs.partitionHeader.used c.walkBound 1 m.reads with
    | none =>
        rw [hscan] at hwalk
        obtain ⟨m', hrun⟩ := hwalk
        simp only [Runs, honest] at hrun ⊢
        rw [hrun]
        exact fun hG => absurd hG.2 (by simp)
    | some x =>
        obtain ⟨o, r⟩ := x
        rw [hscan] at hwalk
        exact Runs.of_ok hwalk ⟨⟨rfl, hq.writes, hq.log⟩, r, rfl⟩

/-! ## The nested read -/

theorem runs_readBlock (fs : AbtrFS) (b : UInt64) (buffer : Block) (m : Machine) :
    Runs c.Generous (readBlock (honest c) fs b buffer) m (fun _ m' => Quiet m m') := by
  by_cases hv : fs.deviceHandle = invalidHandle
  · simp only [readBlock, hv, if_true]
    exact Runs.pure (Quiet.refl m)
  · exact Runs.of_ok (run_readBlock hv b buffer m) ⟨rfl, rfl, rfl⟩

/-- The copying loop always comes to an end. -/
theorem runs_readBlocks (fs : AbtrFS) (po count : UInt64) (n : Nat) (b : UInt64) (shift remaining : Nat)
    (buffer : Block) (m : Machine) :
    Runs c.Generous (readBlocks (honest c) fs po count n b shift remaining buffer) m
      (fun _ m' => Quiet m m') := by
  induction n generalizing b shift remaining buffer m with
  | zero => exact Runs.pure (Quiet.refl m)
  | succ n ih =>
      refine Runs.ite (fun _ => ?_) (fun _ => Runs.pure (Quiet.refl m))
      refine (runs_readBlock fs _ _ m).bind fun r m₁ hq₁ => ?_
      refine Runs.ite (fun _ => ?_) (fun _ => Runs.pure hq₁)
      refine (ih _ _ _ _ m₁).bind fun rest m₂ hq₂ => ?_
      exact Runs.pure (hq₁.trans hq₂)

/-- The old content is read when there is some, and the walk for it ends where the first one did. -/
theorem runs_oldContent_any {found : Option AbtrFSDiskHeader} {r n : Nat}
    (hfound : lookUp c.readOk fs m.disk path c.walkBound n = some (found, r)) :
    Runs c.Generous (oldContent (honest c) fs path found) m
      (fun old m' => Quiet m m' ∧ (found = none → old = [])) := by
  cases found with
  | none => exact Runs.pure ⟨Quiet.refl m, fun _ => rfl⟩
  | some header =>
      have hv : fs.deviceHandle ≠ invalidHandle := by
        intro hv
        simp [lookUp, hv] at hfound
      simp only [lookUp, hv, if_false] at hfound
      suffices hread : Runs c.Generous (readFile (honest c) fs path none 0 0) m
          (fun _ m' => Quiet m m') by
        refine hread.bind fun res m' hq => ?_
        cases res.1 with
        | ok bytes => exact Runs.pure ⟨hq, nofun⟩
        | error e => exact Runs.pure ⟨hq, nofun⟩
      unfold readFile
      refine Runs.ite (fun _ => Runs.pure (Quiet.refl m)) (fun _ => ?_)
      refine Runs.ite (fun _ => Runs.pure (Quiet.refl m)) (fun _ => ?_)
      refine (runs_operatorNew 4096 m).bind ?_
      rintro _ m₁ ⟨hq₁, _⟩
      have hwalk : Runs c.Generous (findFileHeader (honest c) fs path) m₁ (fun _ m' => Quiet m₁ m') := by
        refine ((runs_findFileHeader_any fs path m₁).guard fun hG => ⟨hG, ?_⟩).imp fun _ _ h => h.1
        simp only [lookUp, hv, if_false, hq₁.disk]
        exact scan_isSome hfound _
      refine hwalk.bind fun o m₂ hq₂ => ?_
      have hq := hq₁.trans hq₂
      cases o with
      | none => exact Runs.pure hq
      | some header' =>
          refine Runs.ite (fun _ => Runs.pure hq) (fun _ => ?_)
          refine (runs_resize _ _ m₂).bind fun target m₃ hs₃ => ?_
          refine (runs_operatorNew 4096 m₃).bind fun _ m₄ hs₄ => ?_
          refine (runs_readBlocks fs _ _ _ _ _ _ _ m₄).bind fun res m₅ hq₅ => ?_
          have hq' := ((hq.trans hs₃.1.1).trans hs₄.1).trans hq₅
          refine Runs.ite (fun _ => ?_) (fun _ => Runs.pure hq')
          exact (runs_operatorNew _ m₅).bind fun _ m₆ hs₆ => Runs.pure (hq'.trans hs₆.1)

/-! ## What a call returns -/

/-- How many blocks a call writes: a header when the file is new, the payload, the partition header. -/
def writeCount (found : Option AbtrFSDiskHeader) (required : UInt64) : Nat :=
  required.toNat + if found.isNone = true then 2 else 1

/-- There is a device, and it takes so many writes from write `w` on. -/
def TakesWrites (fs : AbtrFS) (writeOk : Nat → Bool) (w count : Nat) : Prop :=
  fs.deviceHandle ≠ invalidHandle ∧ ∀ i < count, writeOk (w + i) = true

/-- What a call returns that has `found` from its walk and begins to write with write `w`; `none` when it
    leaves its array. -/
inductive WriteOutcome (writeOk : Nat → Bool) (fs : AbtrFS) (w : Nat) (data : List UInt8) (off : UInt64)
    (found : Option AbtrFSDiskHeader) : Option (ErrorCode × AbtrFS) → Prop
  | empty (h0 : finalSize found data off = 0) :
      WriteOutcome writeOk fs w data off found (some (.invalidParameters, fs))
  | wild (h0 : finalSize found data off ≠ 0) (hlen : 2 ^ 64 ≤ off.toNat + data.length) :
      WriteOutcome writeOk fs w data off found none
  | full (h0 : finalSize found data off ≠ 0) (hlen : off.toNat + data.length < 2 ^ 64)
      (hc : claimBlocks fs.partitionHeader found (requiredBlocks (finalSize found data off)) = none) :
      WriteOutcome writeOk fs w data off found (some (.noSpaceLeft, fs))
  | wrote (h0 : finalSize found data off ≠ 0) (hlen : off.toNat + data.length < 2 ^ 64)
      (h : PartitionHeader) (e : ErrorCode)
      (hc : claimBlocks fs.partitionHeader found (requiredBlocks (finalSize found data off)) = some h)
      (he : e = .success ↔
        TakesWrites fs writeOk w (writeCount found (requiredBlocks (finalSize found data off)))) :
      WriteOutcome writeOk fs w data off found (some (e, { fs with partitionHeader := h }))

theorem length_plannedWrites (found : Option AbtrFSDiskHeader) (header : AbtrFSDiskHeader)
    (assigned required : UInt64) (x : List UInt8) (h : PartitionHeader) :
    (plannedWrites found header assigned required x h).length = writeCount found required := by
  cases found with
  | none =>
      simp only [plannedWrites, writeCount, Option.isNone_none, if_true, List.length_append,
        List.length_map, List.length_range, List.length_cons, List.length_nil]
      omega
  | some _ =>
      simp only [plannedWrites, writeCount, Option.isNone_some, Bool.false_eq_true, if_false,
        List.length_append, List.length_map, List.length_range, List.length_cons, List.length_nil]
      omega

/-- Whether all of a list is written depends on the device alone. -/
theorem run_writeAll_iff (fs : AbtrFS) {ws : List (UInt64 × Block)} (hne : 0 < ws.length) (m : Machine) :
    ∃ ok m', (writeAll (honest c) fs ws).run m = (.ok ok, m')
      ∧ (ok = true ↔ TakesWrites fs c.writeOk m.writes ws.length) := by
  by_cases hv : fs.deviceHandle = invalidHandle
  · obtain ⟨w, ws, rfl⟩ := List.exists_cons_of_length_pos hne
    exact ⟨false, m, run_writeAll_invalid hv w ws m, iff_of_false (by simp) fun h => h.1 hv⟩
  · obtain ⟨k, m', hrun, hw, _⟩ := run_writeAll (c := c) hv ws m
    refine ⟨_, m', hrun, ?_⟩
    rw [decide_eq_true_iff]
    constructor
    · rintro rfl
      exact ⟨hv, hw.ok⟩
    · intro h
      by_contra hk
      have hlt : k < ws.length := Nat.lt_of_le_of_ne hw.le hk
      have hstop := hw.stopped hlt
      rw [h.2 k hlt] at hstop
      cases hstop

/-- **The rest of a call on any disk.** -/
theorem runs_writeFound_any {found : Option AbtrFSDiskHeader} {r n w : Nat} (hw : m.writes = w)
    (hfound : lookUp c.readOk fs m.disk path c.walkBound n = some (found, r)) :
    Runs c.Generous (writeFound (honest c) fs path data off found).caught m
      (fun res _ => WriteOutcome c.writeOk fs w data off found res) := by
  unfold writeFound
  refine Runs.caught_ite (fun h0 => Runs.caught_pure (.empty h0)) (fun h0 => ?_)
  refine (runs_operatorNew _ m).caught_bind ?_
  rintro _ m₁ ⟨hq₁, _⟩
  rw [← hq₁.disk] at hfound
  refine (runs_oldContent_any hfound).caught_bind fun old m₂ hold => ?_
  have hq₂ := hold.1
  have hw₂ : m₂.writes = w := by rw [(hq₁.trans hq₂).writes, hw]
  cases hexp : expandedData (finalSize found data off) old data off with
  | none =>
      refine Runs.caught_wild (.wild h0 ?_)
      by_contra hlt
      exact expandedData_ne_none (Nat.lt_of_not_le hlt) old hexp
  | some expanded =>
      have hlen : off.toNat + data.length < 2 ^ 64 := lt_of_expandedData hexp
      dsimp only
      cases hc : claimBlocks fs.partitionHeader found (requiredBlocks (finalSize found data off)) with
      | none => exact Runs.caught_pure (.full h0 hlen hc)
      | some h =>
          have hlength := length_plannedWrites found
            (fillHeader path found fs.partitionHeader.used (requiredBlocks (finalSize found data off))
              (finalSize found data off))
            fs.partitionHeader.used (requiredBlocks (finalSize found data off)) expanded h
          have hpos : 0 < writeCount found (requiredBlocks (finalSize found data off)) := by
            unfold writeCount
            split <;> omega
          rw [← hlength] at hpos
          obtain ⟨ok, m₃, hrun, hok⟩ := run_writeAll_iff (c := c) { fs with partitionHeader := h } hpos m₂
          rw [hlength, hw₂] at hok
          have hwrite := Runs.of_ok (G := c.Generous) (Q := fun ok' m' => ok' = ok ∧ m' = m₃) hrun ⟨rfl, rfl⟩
          refine hwrite.caught_bind ?_
          rintro _ _ ⟨rfl, rfl⟩
          refine Runs.caught_ite (fun ht => ?_) (fun hf => ?_)
          · exact Runs.caught_pure (.wrote h0 hlen h _ hc (iff_of_true rfl (hok.mp ht)))
          · exact Runs.caught_pure (.wrote h0 hlen h _ hc (iff_of_false (by simp) fun h => hf (hok.mpr h)))

/-- A call is the walk and what follows it, when the object is mounted and the path has a segment. -/
theorem runs_writeFile_split {R : Option AbtrFSDiskHeader → Option (ErrorCode × AbtrFS) → Machine → Prop}
    (hm : fs.isMounted = true) (hpath : chopPath path ≠ [])
    (hrest : ∀ found r m₂, Quiet m m₂ →
      lookUp c.readOk (fs.withName path) m₂.disk path c.walkBound m.reads = some (found, r) →
      Runs c.Generous (writeFound (honest c) (fs.withName path) path data off found).caught m₂ (R found)) :
    Runs (c.Generous ∧ (lookUp c.readOk fs m.disk path c.walkBound m.reads).isSome = true)
      (writeFile (honest c) fs path data off).caught m
      (fun res m' => ∃ found r, lookUp c.readOk fs m.disk path c.walkBound m.reads = some (found, r)
        ∧ R found res m') := by
  unfold writeFile
  rw [if_neg (by simp [hm]), if_neg hpath]
  refine ((runs_findOrCreateNode (chopPath path) fs.rootNode m).guard And.left).caught_bind ?_
  rintro root m₁ ⟨⟨hq₁, hr₁⟩, rfl⟩
  show Runs _ (Prog.caught (findFileHeader (honest c) (fs.withName path) path >>= _)) m₁ _
  -- the tree does not matter to the walk
  have hwalk := runs_findFileHeader_any (c := c) (fs.withName path) path m₁
  have hlook : lookUp c.readOk (fs.withName path) m₁.disk path c.walkBound m₁.reads
      = lookUp c.readOk fs m.disk path c.walkBound m.reads := by
    rw [hq₁.disk, hr₁]
    rfl
  rw [hlook] at hwalk
  refine hwalk.caught_bind ?_
  rintro found m₂ ⟨hq₂, r, hr⟩
  have hq := hq₁.trans hq₂
  have hfound : lookUp c.readOk (fs.withName path) m₂.disk path c.walkBound m.reads = some (found, r) := by
    rw [hq.disk]
    exact hr
  exact ((hrest found r m₂ hq hfound).guard And.left).imp fun res _ hres => ⟨found, r, hr, hres⟩

/-- **A call on any disk.** -/
theorem runs_writeFile_any (hm : fs.isMounted = true) (hpath : chopPath path ≠ []) :
    Runs (c.Generous ∧ (lookUp c.readOk fs m.disk path c.walkBound m.reads).isSome = true)
      (writeFile (honest c) fs path data off).caught m
      (fun res _ => ∃ found r, lookUp c.readOk fs m.disk path c.walkBound m.reads = some (found, r)
        ∧ WriteOutcome c.writeOk (fs.withName path) m.writes data off found res) :=
  runs_writeFile_split hm hpath fun _ _ _ hq hfound => runs_writeFound_any hq.writes hfound

/-! ## The object afterwards -/

/-- Whatever memory there is, a call that returns an error leaves the partition header and the tree. -/
def LeavesObject (readOk writeOk : Nat → Bool) (fs : AbtrFS) (m : Machine) (path : Path)
    (data : List UInt8) (off : UInt64) : Prop :=
  ∀ c : Conditions, c.readOk = readOk → c.writeOk = writeOk → ∀ e fs' m',
    (writeFile (honest c) fs path data off).run m = (.ok (e, fs'), m') → e ≠ .success →
      fs'.partitionHeader = fs.partitionHeader ∧ fs'.rootNode = fs.rootNode

/-- What a call needs to leave the object alone or to succeed, once the walk has answered `found`: the
    tree has the name already, and there is nothing to write or to claim; or there is room and every write
    goes well. A call that writes is asked for data whose end does not wrap, so that they are in the array. -/
def Harmless (writeOk : Nat → Bool) (fs : AbtrFS) (w : Nat) (path : Path) (data : List UInt8)
    (off : UInt64) (found : Option AbtrFSDiskHeader) : Prop :=
  let final := finalSize found data off
  let claim := claimBlocks fs.partitionHeader found (requiredBlocks final)
  (final = 0 ∧ TreeNode.has (chopPath path) fs.rootNode = true)
    ∨ final ≠ 0 ∧ off.toNat + data.length < 2 ^ 64
      ∧ ((TreeNode.has (chopPath path) fs.rootNode = true ∧ (claim = none ∨ claim = some fs.partitionHeader))
        ∨ claim ≠ none ∧ TakesWrites fs writeOk w (writeCount found (requiredBlocks final)))

section Outcome

variable {writeOk : Nat → Bool} {w : Nat} {found : Option AbtrFSDiskHeader} {res : Option (ErrorCode × AbtrFS)}

/-- The tree keeps its shape when it has the name. -/
theorem rootNode_withName : (fs.withName path).rootNode = fs.rootNode
    ↔ TreeNode.has (chopPath path) fs.rootNode = true := TreeNode.insert_eq_iff _ _

/-- A harmless call that returns an error leaves the object. -/
theorem WriteOutcome.of_harmless (h : WriteOutcome writeOk (fs.withName path) w data off found res)
    (hharm : Harmless writeOk fs w path data off found) {e : ErrorCode} {fs' : AbtrFS}
    (hres : res = some (e, fs')) (hne : e ≠ .success) :
    fs'.partitionHeader = fs.partitionHeader ∧ fs'.rootNode = fs.rootNode := by
  cases h with
  | empty h0 =>
      rcases hharm with ⟨_, hhas⟩ | ⟨hpos, _⟩
      · obtain ⟨_, rfl⟩ := Prod.mk.inj (Option.some.inj hres)
        exact ⟨rfl, rootNode_withName.mpr hhas⟩
      · exact absurd h0 hpos
  | wild _ _ => cases hres
  | full h0 _ hc =>
      rcases hharm with ⟨hzero, _⟩ | ⟨_, _, ⟨hhas, _⟩ | ⟨hroom, _⟩⟩
      · exact absurd hzero h0
      · obtain ⟨_, rfl⟩ := Prod.mk.inj (Option.some.inj hres)
        exact ⟨rfl, rootNode_withName.mpr hhas⟩
      · exact absurd hc hroom
  | wrote h0 _ h e hc he =>
      obtain ⟨rfl, rfl⟩ := Prod.mk.inj (Option.some.inj hres)
      have hc' : claimBlocks fs.partitionHeader found (requiredBlocks (finalSize found data off)) = some h := hc
      rcases hharm with ⟨hzero, _⟩ | ⟨_, _, ⟨hhas, hnone | hsome⟩ | ⟨_, htakes⟩⟩
      · exact absurd hzero h0
      · rw [hc'] at hnone
        cases hnone
      · rw [hc'] at hsome
        exact ⟨Option.some.inj hsome, rootNode_withName.mpr hhas⟩
      · exact absurd (he.mpr htakes) hne

/-- A call inside its array that leaves the object whenever it returns an error is harmless. -/
theorem WriteOutcome.harmless (h : WriteOutcome writeOk (fs.withName path) w data off found res)
    (hlen : off.toNat + data.length < 2 ^ 64)
    (hsame : ∀ e fs', res = some (e, fs') → e ≠ .success →
      fs'.partitionHeader = fs.partitionHeader ∧ fs'.rootNode = fs.rootNode) :
    Harmless writeOk fs w path data off found := by
  cases h with
  | empty h0 => exact Or.inl ⟨h0, rootNode_withName.mp (hsame _ _ rfl (by simp)).2⟩
  | wild _ hwrap => exact absurd hlen (Nat.not_lt_of_le hwrap)
  | full h0 _ hc =>
      have hhas := rootNode_withName.mp (hsame _ _ rfl (by simp)).2
      exact Or.inr ⟨h0, hlen, Or.inl ⟨hhas, Or.inl hc⟩⟩
  | wrote h0 _ h e hc he =>
      have hc' : claimBlocks fs.partitionHeader found (requiredBlocks (finalSize found data off)) = some h := hc
      refine Or.inr ⟨h0, hlen, ?_⟩
      by_cases hok : e = .success
      · exact Or.inr ⟨by rw [hc']; simp, he.mp hok⟩
      · obtain ⟨hh, hr⟩ := hsame _ _ rfl hok
        have hh' : h = fs.partitionHeader := hh
        exact Or.inl ⟨rootNode_withName.mp hr, Or.inr (by rw [hc', hh'])⟩

end Outcome

/-- More rounds do not change what the walk answers. -/
theorem lookUp_mono {readOk : Nat → Bool} {disk : Nat → Block} {n n' r : Nat}
    {x : Option AbtrFSDiskHeader × Nat} (h : lookUp readOk fs disk path n r = some x) (hn : n ≤ n') :
    lookUp readOk fs disk path n' r = some x := by
  unfold lookUp at h ⊢
  split
  · rename_i hv
    rwa [if_pos hv] at h
  · rename_i hv
    rw [if_neg hv] at h
    exact scan_mono h hn

/-- Whatever the walk of the call answers, the call is harmless; or there is no path to write to. -/
def HarmlessCall (readOk writeOk : Nat → Bool) (fs : AbtrFS) (m : Machine) (path : Path) (data : List UInt8)
    (off : UInt64) : Prop :=
  chopPath path = [] ∨ ∀ n found r, lookUp readOk fs m.disk path n m.reads = some (found, r) →
    Harmless writeOk fs m.writes path data off found

section Calls

variable {readOk writeOk : Nat → Bool}

/-- **A harmless call** leaves the object when it fails. -/
theorem HarmlessCall.leavesObject (hm : fs.isMounted = true)
    (h : HarmlessCall readOk writeOk fs m path data off) : LeavesObject readOk writeOk fs m path data off := by
  intro c hread hwrite e fs' m' hrun hne
  by_cases hpath : chopPath path = []
  · simp only [writeFile, hm, hpath, Bool.true_eq_false, if_false, if_true, run_pure] at hrun
    obtain ⟨_, rfl⟩ := Prod.mk.inj (Except.ok.inj (Prod.mk.inj hrun).1)
    exact ⟨rfl, rfl⟩
  · have hruns := @runs_writeFile_any c fs path data off m hm hpath
    obtain ⟨found, r, hlook, hout⟩ := hruns.caught_returned hrun
    rw [hread] at hlook
    rw [hwrite] at hout
    have hharm := (h.resolve_left hpath) _ found r hlook
    exact hout.of_harmless hharm rfl hne

/-- **No other call does**, as long as its data do not wrap. -/
theorem LeavesObject.harmlessCall (hm : fs.isMounted = true) (hlen : off.toNat + data.length < 2 ^ 64)
    (h : LeavesObject readOk writeOk fs m path data off) : HarmlessCall readOk writeOk fs m path data off := by
  by_cases hpath : chopPath path = []
  · exact Or.inl hpath
  · refine Or.inr fun n found r hlook => ?_
    -- a machine with memory and rounds enough for the walk to answer
    obtain ⟨c, hG, hread, hwrite, hbound⟩ : ∃ c : Conditions,
        c.Generous ∧ c.readOk = readOk ∧ c.writeOk = writeOk ∧ n ≤ c.walkBound :=
      ⟨⟨fun _ _ => true, readOk, writeOk, fun _ => Bytes.zero, n + 2 ^ 64⟩,
        ⟨fun _ _ => rfl, Nat.le_add_left _ _⟩, rfl, rfl, Nat.le_add_right _ _⟩
    have hlook' := lookUp_mono hlook hbound
    rw [← hread] at hlook'
    have hruns := @runs_writeFile_any c fs path data off m hm hpath
    rcases hruns.caught_returns ⟨hG, by rw [hlook']; rfl⟩ with
      ⟨⟨e, fs'⟩, m', hrun, found', r', hl, hout⟩ | ⟨m', _, found', r', hl, hout⟩
    · rw [hlook'] at hl
      obtain ⟨rfl, _⟩ := Prod.mk.inj (Option.some.inj hl)
      rw [hwrite] at hout
      refine hout.harmless hlen fun e₁ fs₁ heq hne => ?_
      obtain ⟨rfl, rfl⟩ := Prod.mk.inj (Option.some.inj heq)
      exact h c hread hwrite e fs' m' hrun hne
    · rw [hlook'] at hl
      obtain ⟨rfl, _⟩ := Prod.mk.inj (Option.some.inj hl)
      rw [hwrite] at hout
      exact hout.harmless hlen fun _ _ heq => by cases heq

end Calls

/-- **When a call that fails leaves the object as it was.** What becomes of a call whose data wrap and leave
    its array is not followed, so of these nothing is said. -/
theorem leavesObject_iff (readOk writeOk : Nat → Bool) (m : Machine) (path : Path) (data : List UInt8)
    (off : UInt64) (hm : fs.isMounted = true) :
    (HarmlessCall readOk writeOk fs m path data off → LeavesObject readOk writeOk fs m path data off)
    ∧ (off.toNat + data.length < 2 ^ 64 →
        LeavesObject readOk writeOk fs m path data off → HarmlessCall readOk writeOk fs m path data off) :=
  ⟨fun h => h.leavesObject hm, fun hlen h => h.harmlessCall hm hlen⟩

/-- An object whose volume is full and whose tree has the name `a`. -/
def fullFs : AbtrFS :=
  { layFs [] with
    partitionHeader := usedHeader 204800, rootNode := TreeNode.insert (chopPath pathA) .null }

/-- A call that finds no room for a name that is in the tree. -/
theorem leavesObject_full :
    LeavesObject (fun _ => false) (fun _ => false) fullFs (Machine.start (layDisk [])) pathA [1] 0 := by
  refine (leavesObject_iff _ _ _ _ _ _ rfl).1 (Or.inr fun n found r hlook => ?_)
  -- the first read fails, so nothing is found
  obtain rfl : found = none := by
    simp only [lookUp] at hlook
    split at hlook
    · exact (Prod.mk.inj (Option.some.inj hlook)).1.symm
    · cases n with
      | zero => cases hlook
      | succ n =>
          simp only [scan, Bool.false_eq_true, if_false] at hlook
          split at hlook <;> exact (Prod.mk.inj (Option.some.inj hlook)).1.symm
  have hclaim : (claimBlocks fullFs.partitionHeader none (requiredBlocks (finalSize none [1] 0))).isNone := by
    decide +kernel
  exact Or.inr ⟨by decide +kernel, by decide, Or.inl ⟨by decide +kernel,
    Or.inl (Option.isNone_iff_eq_none.mp hclaim)⟩⟩

/-- **A header that cannot be written** costs the object its blocks, and leaves a name in the tree. -/
theorem failedHeader_leaks :
    ¬ LeavesObject (fun _ => true) (fun _ => false) (layFs []) (Machine.start (layDisk [])) pathA [1] 0 := by
  intro hleaves
  rcases hleaves.harmlessCall rfl (by decide) with hnil | h
  · exact absurd hnil (by decide +kernel)
  · have hlook : lookUp (fun _ => true) (layFs []) (Machine.start (layDisk [])).disk pathA 1 0
        = some (none, 0) := by
      have hused : ¬ (1 : UInt64) < (layFs []).partitionHeader.used := by decide +kernel
      have hv : (layFs []).deviceHandle ≠ invalidHandle := by decide
      simp only [lookUp, hv, scan, hused, if_false]
    rcases h 1 none 0 hlook with ⟨_, hhas⟩ | ⟨_, _, ⟨hhas, _⟩ | ⟨_, htakes⟩⟩
    · exact absurd hhas (by decide +kernel)
    · exact absurd hhas (by decide +kernel)
    · exact absurd (htakes.2 0 (by decide +kernel)) (by decide)

end AlopexOS
