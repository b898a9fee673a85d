import AlopexOS.Abtrfs.Abtrfs
import AlopexOS.Lib.Run

/-!
# `Abtrfs.Mounting` — what a mounted object knows

`mount`, `mountExisting` and `format` put a handle and a partition header into the object before they know
whether the device answers. An object that says it is mounted should hold the partition header of the
device it names. The device is any platform at all; beside it runs a ledger of what was last transferred
of block 0 of each device.

## Contents
- **The ledger** (`tracked`).
- **Calls** in any order, and `Faithful`, what they should keep.
- **They keep it** when no call on a mounted object fails in `mountExisting` or `format`.
-/

namespace AlopexOS

open Packed Prog

variable {σ : Type}

/-! ## The ledger -/

/-- What was last read from or written to block 0 of each device. -/
abbrev Ledger := Handle → Option Block

/-- A transfer of block `b` that succeeded. -/
def Ledger.note (l : Ledger) (handle : Handle) (b : UInt64) (x : Block) : Ledger :=
  if b = 0 then fun h => if h = handle then some x else l h else l

/-- The platform `P` with a ledger kept beside it. -/
def tracked (P : Platform σ) : Platform (σ × Ledger) where
  operatorNew n := ⟨fun s =>
    match (P.operatorNew n).run s.1 with
    | (r, s') => (r, (s', s.2))⟩
  submitRead handle b := ⟨fun s =>
    match (P.submitRead handle b).run s.1 with
    | (.ok (true, x), s') => (.ok (true, x), (s', s.2.note handle b x))
    | (r, s') => (r, (s', s.2))⟩
  submitWrite handle b x := ⟨fun s =>
    match (P.submitWrite handle b x).run s.1 with
    | (.ok true, s') => (.ok true, (s', s.2.note handle b x))
    | (r, s') => (r, (s', s.2))⟩
  walkBound := P.walkBound

variable {P : Platform σ} {fs fs' : AbtrFS} {s s' : σ × Ledger} {base hhdm : UInt64} {handle : Handle}

/-- A read of block 0 that succeeds is in the ledger. -/
theorem ledger_readBlock {buffer : Block} {r : Bool × Block}
    (h : (readBlock (tracked P) fs 0 buffer).run s = (.ok r, s')) (hok : r.1 = true) :
    s'.2 fs.deviceHandle = some r.2 := by
  by_cases hv : fs.deviceHandle = invalidHandle
  · simp only [readBlock, hv, if_true, run_pure, Prod.mk.injEq, Except.ok.injEq] at h
    rw [← h.1] at hok
    cases hok
  · simp only [readBlock, hv, if_false, tracked] at h
    split at h
    · obtain ⟨hr, rfl⟩ := Prod.mk.inj h
      rw [← Except.ok.inj hr]
      simp only [Ledger.note, if_true]
    · rename_i hno _
      obtain ⟨hr, rfl⟩ := Prod.mk.inj h
      subst hr
      obtain ⟨ok, x⟩ := r
      obtain rfl : ok = true := hok
      exact absurd rfl (hno x)

/-- So is a write that succeeds. -/
theorem ledger_writeBlock {x : Block} (h : (writeBlock (tracked P) fs 0 x).run s = (.ok true, s')) :
    s'.2 fs.deviceHandle = some x := by
  by_cases hv : fs.deviceHandle = invalidHandle
  · simp only [writeBlock, hv, if_true, run_pure, Prod.mk.injEq, Except.ok.injEq] at h
    exact absurd h.1 (by decide)
  · simp only [writeBlock, hv, if_false, tracked] at h
    split at h
    · obtain ⟨_, rfl⟩ := Prod.mk.inj h
      simp only [Ledger.note, if_true]
    · rename_i hno _
      obtain ⟨hr, rfl⟩ := Prod.mk.inj h
      exact absurd hr hno

/-! ## Calls -/

/-- The calls that open a volume. -/
inductive MountCall where
  | mount (base hhdm : UInt64) (handle : Handle)
  | mountExisting (base hhdm : UInt64) (handle : Handle)
  | format (base hhdm : UInt64) (handle : Handle)

/-- The object after a call. -/
def MountCall.run (P : Platform σ) (fs : AbtrFS) : MountCall → Prog σ AbtrFS
  | .mount base hhdm handle => do
      let r ← AlopexOS.mount P fs base hhdm handle
      pure r.2
  | .mountExisting base hhdm handle => AlopexOS.mountExisting P fs base hhdm handle
  | .format base hhdm handle => do
      let r ← AlopexOS.format P fs base hhdm handle
      pure r.2

/-- The object and its device, with the ledger. -/
abbrev Mounting (σ : Type) := AbtrFS × σ × Ledger

/-- One call returns. -/
def MountStep (P : Platform σ) (x : Mounting σ) (call : MountCall) (y : Mounting σ) : Prop :=
  (call.run (tracked P) x.1).run x.2 = (.ok y.1, y.2)

/-- An object that says it is mounted holds what was last transferred of block 0 of its device, and that
    is the partition header of a volume. -/
def Faithful (x : Mounting σ) : Prop :=
  x.1.isMounted = true →
    x.1.partitionHeader.magic = volumeMagic ∧ x.2.2 x.1.deviceHandle = some x.1.partitionHeader.bytes

/-- A call of `mountExisting` or `format` on a mounted object does not fail: the device gives a block 0
    with the magic number, or takes one. -/
def MountCall.Answered (P : Platform σ) (x : Mounting σ) : MountCall → Prop
  | .mount _ _ _ => True
  | .mountExisting base hhdm handle => x.1.isMounted = true →
      ∀ r s', (readBlock (tracked P) (attach x.1 base hhdm handle) 0 x.1.partitionHeader.bytes).run x.2
        = (.ok r, s') → r.1 = true ∧ PartitionHeader.magic ⟨r.2⟩ = volumeMagic
  | .format base hhdm handle => x.1.isMounted = true →
      ∀ ok s', (writeBlock (tracked P)
          { attach x.1 base hhdm handle with partitionHeader := formatHeader } 0 formatHeader.bytes).run x.2
        = (.ok ok, s') → ok = true

/-! ## They keep it -/

variable {x y : Mounting σ}

theorem magic_formatHeader : formatHeader.magic = volumeMagic := by
  simp [PartitionHeader.magic, formatHeader, PartitionHeader.get_set, partitionLayout, volumeMagic]

theorem faithful_mount (h : MountStep P x (.mount base hhdm handle) y) : Faithful y := by
  obtain ⟨fs', s'⟩ := y
  intro hm
  obtain ⟨res, s₁, hmount, hres⟩ := bind_eq_ok h
  obtain ⟨r, s₂, hread, hrest⟩ := bind_eq_ok hmount
  obtain ⟨rfl, rfl⟩ : res.2 = fs' ∧ s₁ = s' := by simpa using hres
  dsimp only at hrest
  split at hrest
  · rename_i hok
    obtain ⟨rfl, rfl⟩ : _ = res ∧ s₂ = s₁ := by simpa using hrest
    exact ⟨hok.2, ledger_readBlock hread hok.1⟩
  · -- `mount` takes the flag back when it fails
    obtain ⟨rfl, rfl⟩ : _ = res ∧ s₂ = s₁ := by simpa using hrest
    cases hm

theorem faithful_mountExisting (h : MountStep P x (.mountExisting base hhdm handle) y)
    (hans : (MountCall.mountExisting base hhdm handle).Answered P x) : Faithful y := by
  obtain ⟨fs', s'⟩ := y
  intro hm
  obtain ⟨r, s₁, hread, hrest⟩ := bind_eq_ok h
  dsimp only at hrest
  split at hrest
  · rename_i hok
    obtain ⟨rfl, rfl⟩ : _ = fs' ∧ s₁ = s' := by simpa using hrest
    exact ⟨hok.2, ledger_readBlock hread hok.1⟩
  · rename_i hno
    obtain ⟨rfl, rfl⟩ : _ = fs' ∧ s₁ = s' := by simpa using hrest
    exact absurd (hans hm r s₁ hread) hno

theorem faithful_format (h : MountStep P x (.format base hhdm handle) y)
    (hans : (MountCall.format base hhdm handle).Answered P x) : Faithful y := by
  obtain ⟨fs', s'⟩ := y
  intro hm
  obtain ⟨res, s₁, hformat, hres⟩ := bind_eq_ok h
  obtain ⟨ok, s₂, hwrite, hrest⟩ := bind_eq_ok hformat
  obtain ⟨rfl, rfl⟩ : res.2 = fs' ∧ s₁ = s' := by simpa using hres
  split at hrest
  · rename_i hok
    subst hok
    obtain ⟨rfl, rfl⟩ : _ = res ∧ s₂ = s₁ := by simpa using hrest
    exact ⟨magic_formatHeader, ledger_writeBlock hwrite⟩
  · rename_i hno
    obtain ⟨rfl, rfl⟩ : _ = res ∧ s₂ = s₁ := by simpa using hrest
    exact absurd (hans hm ok s₂ hwrite) hno

theorem faithful_step {call : MountCall} (h : MountStep P x call y) (hans : call.Answered P x) :
    Faithful y := by
  cases call with
  | mount base hhdm handle => exact faithful_mount h
  | mountExisting base hhdm handle => exact faithful_mountExisting h hans
  | format base hhdm handle => exact faithful_format h hans

/-- **A mounted object knows its device**, in every run in which no `mountExisting` or `format` on a
    mounted object fails. -/
theorem faithful_of_run (s : σ) {calls : List MountCall}
    (h : Run (fun x call y => MountStep P x call y ∧ call.Answered P x)
      (AbtrFS.init, s, fun _ => none) calls y) : Faithful y := by
  cases h with
  | start => exact fun hm => absurd hm (by simp [AbtrFS.init])
  | step _ ha => exact faithful_step ha.1 ha.2

/-- A platform on which only the device 0 answers. -/
def oneDevice : Platform Unit where
  operatorNew _ := pure ()
  submitRead handle _ := pure (handle = 0, formatHeader.bytes)
  submitWrite handle _ _ := pure (handle = 0)
  walkBound := 0

/-- The object mounted on it. -/
def mountedOne (handle : Handle) : AbtrFS :=
  { attach AbtrFS.init 0 0 handle with partitionHeader := formatHeader, isMounted := true }

/-- The partition header of `format` is known for device 0. -/
def ledgerOne : Ledger := Ledger.note (fun _ => none) 0 0 formatHeader.bytes

theorem step_mount_oneDevice :
    MountStep oneDevice (AbtrFS.init, (), fun _ => none) (.mount 0 0 0) (mountedOne 0, (), ledgerOne) := by
  have hmagic := magic_formatHeader
  simp only [MountStep, MountCall.run, mount, run_bind]
  simp [readBlock, tracked, oneDevice, attach, invalidHandle, mountedOne, ledgerOne, hmagic]

/-- It is formatted once more. -/
theorem step_format_oneDevice :
    MountStep oneDevice (mountedOne 0, (), ledgerOne) (.format 0 0 0)
      (mountedOne 0, (), ledgerOne.note 0 0 formatHeader.bytes) := by
  simp [MountStep, MountCall.run, format, writeBlock, tracked, oneDevice, attach, invalidHandle,
    mountedOne]

theorem faithful_oneDevice : Faithful (mountedOne 0, (), ledgerOne.note 0 0 formatHeader.bytes) := by
  refine faithful_of_run (P := oneDevice) () ((Run.start.step ⟨step_mount_oneDevice, trivial⟩).step
    ⟨step_format_oneDevice, ?_⟩)
  intro _ ok s' hwrite
  simp [writeBlock, tracked, oneDevice, attach, invalidHandle, mountedOne] at hwrite
  exact hwrite.1

/-- **A mounted object that is attached to a device that does not answer** goes on as mounted. -/
theorem mountExisting_not_faithful :
    ∃ y : Mounting Unit, Run (MountStep oneDevice) (AbtrFS.init, (), fun _ => none)
      [.mount 0 0 0, .mountExisting 0 0 1] y ∧ ¬ Faithful y := by
  refine ⟨(mountedOne 1, (), ledgerOne), (Run.start.step step_mount_oneDevice).step ?_, fun h => ?_⟩
  · simp [MountStep, MountCall.run, mountExisting, readBlock, tracked, oneDevice, attach, invalidHandle,
      mountedOne]
  · have hledger := (h rfl).2
    simp [ledgerOne, mountedOne, attach, Ledger.note] at hledger

end AlopexOS
