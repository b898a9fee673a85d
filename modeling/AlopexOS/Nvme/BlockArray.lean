import AlopexOS.Nvme.Transfer
import AlopexOS.Lib.Run

/-!
# `Nvme.BlockArray` — blocks as an array

A block address is scaled to a sector address by `* 8`, in 64 bits, and an entry names the page its data starts in
and no other. So the blocks are an array up to that scaling, as seen through buffers that fill a page: two addresses
are the same block when they differ by a multiple of `2 ^ 61`, and a buffer that does not fill a page is left with
something else than the block behind its first page.

## Contents
- **The driver in use.** `Bench.Honest`, a driver attached at boot (`Attached`), and its calls.
- **What is moved** by a read and by a write of a block.
- **The law**, and when it holds.
-/

namespace AlopexOS.Nvme

open Storage

/-! ## The driver in use -/

/-- What the device and `init` promise: after a success of `init` the controller counts as initialized, a command that
    is refused does not take that back, and a read that is refused leaves the device as it was. -/
structure Bench.Honest (K : Bench) : Prop where
  init_done : ∀ bar0 hhdm h h', K.firstInit bar0 hhdm h = (true, h') → h'.initialized = true
  refused_done : ∀ e h h', K.refuses e h = some h' → h'.initialized = h.initialized
  refused_read : ∀ e h h', K.refuses e h = some h' → e.cdw0 &&& 0xFF = 0x02 → h'.disk = h.disk

/-- A `gaossd` made at boot, and a handle it accepts. -/
structure Attached (im : Image) (hhdmOffset : UInt64) where
  bench : Bench
  honest : bench.Honest
  boot : Host
  handle : Handle
  accepts : handle.toNat < (gaossd (board im hhdmOffset bench) boot).1.storageDevices.length

namespace Attached

variable {im : Image} {hhdmOffset : UInt64} (V : Attached im hhdmOffset)

/-- The driver, and the machine once it is made. -/
def made : Gaossd Host × Host := gaossd (board im hhdmOffset V.bench) V.boot

/-- `read_block` through the attached driver. -/
def read (block buffer : UInt64) (h : Host) : Bool × Gaossd Host × Host :=
  Storage.readBlock (board im hhdmOffset V.bench) V.made.1 V.handle block buffer h

/-- `write_block` through a driver of its own. -/
def write (block buffer : UInt64) (h : Host) : Bool × Host :=
  Storage.writeBlock (board im hhdmOffset V.bench) V.handle block buffer h

/-- What happens on the machine. -/
inductive Call where
  | read (block buffer : UInt64)
  | write (block buffer : UInt64)
  /-- The rest of the kernel writes to memory. -/
  | use (mem : Nat → UInt8)

/-- The call leads from a state to the next, whether it succeeds or not. -/
def Calls (h : Host) (c : Call) (h' : Host) : Prop :=
  match c with
  | .read block buffer => (V.read block buffer h).2.2 = h'
  | .write block buffer => (V.write block buffer h).2 = h'
  | .use mem => { h with mem } = h'

/-- From one state to the other no block is written. -/
def Unwritten (h h' : Host) : Prop :=
  ∃ calls, Run V.Calls h calls h' ∧ ∀ block buffer, Call.write block buffer ∉ calls

variable {V} {h h' : Host} {g : Gaossd Host} {a b u v : UInt64}

theorem onlyNvme : V.made.1.OnlyNvme (board im hhdmOffset V.bench) ∧ V.handle = 0 ∧ V.made.2.initialized = true := by
  have haccepts := V.accepts
  unfold made
  obtain ⟨g, h, hmade⟩ : ∃ g h, gaossd (board im hhdmOffset V.bench) V.boot = (g, h) := ⟨_, _, rfl⟩
  rw [hmade] at haccepts ⊢
  rcases gaossd_cases hmade with ⟨-, hnone, -⟩ | ⟨honly, bar0, hinit⟩
  · rw [hnone] at haccepts
    exact absurd haccepts (Nat.not_lt_zero _)
  · obtain ⟨-, name, hdevices⟩ := id honly
    rw [hdevices] at haccepts
    refine ⟨honly, ?_, ?_⟩
    · rw [← UInt64.toNat_inj]
      exact Nat.lt_one_iff.mp haccepts
    · simp only [board] at hinit
      split at hinit
      · rename_i hready
        obtain rfl := (Prod.mk.inj hinit).2
        exact hready
      · exact V.honest.init_done _ _ _ _ hinit

/-- A read is one request to the controller. -/
theorem read_eq (b v : UInt64) (h : Host) :
    V.read b v h =
      ((request im hhdmOffset V.bench (.read (virtToPhys im hhdmOffset v) (b * 8) 8) h).1 == .success, V.made.1,
        (request im hhdmOffset V.bench (.read (virtToPhys im hhdmOffset v) (b * 8) 8) h).2) := by
  obtain ⟨honly, hhandle, -⟩ := V.onlyNvme
  have hvalid : V.handle ≠ invalidHandle := by
    rw [hhandle]
    decide
  unfold Attached.read Storage.readBlock
  rw [if_neg hvalid, transfer_nvme honly rfl]
  exact if_pos hhandle

/-- A request leaves the mark of `init`. -/
theorem initialized_request (call : IoCall) (h : Host) :
    (request im hhdmOffset V.bench call h).2.initialized = h.initialized := by
  unfold request
  dsimp only
  split
  · rename_i left hrefused
    have hleft : left.initialized = _ := V.honest.refused_done _ _ _ hrefused
    exact hleft
  · unfold execute
    split
    · rfl
    · rfl

/-- **A read leaves the device** as it was, whether it succeeds or not. -/
theorem disk_read (b v : UInt64) (h : Host) : (V.read b v h).2.2.disk = h.disk := by
  rw [read_eq]
  unfold request
  obtain ⟨e, he⟩ : ∃ e, e = IoCall.entry im hhdmOffset h.ioSqTail (.read (virtToPhys im hhdmOffset v) (b * 8) 8) :=
    ⟨_, rfl⟩
  have hopcode : e.cdw0 &&& 0xFF = 0x02 := by
    rw [he]
    exact cdw0_opcode (by decide) _
  rw [← he]
  dsimp only
  split
  · rename_i left hrefused
    have hleft : left.disk = _ := V.honest.refused_read _ _ _ hrefused hopcode
    exact hleft
  · unfold execute
    rw [if_pos (beq_iff_eq.mpr hopcode)]

/-- A write does so with the mark. -/
theorem initialized_write (hready : h.initialized = true) : (V.write a u h).2.initialized = true := by
  unfold Attached.write Storage.writeBlock
  split
  · exact hready
  · obtain ⟨ssd, h₁, hmade⟩ : ∃ ssd h₁, gaossd (board im hhdmOffset V.bench) h = (ssd, h₁) := ⟨_, _, rfl⟩
    have hinit : ∀ bar0 ok, (board im hhdmOffset V.bench).nvmeInit bar0 (board im hhdmOffset V.bench).hhdmOffset h
        = (ok, h₁) → h₁ = h := by
      intro bar0 ok hdone
      simp only [board, hready, if_true] at hdone
      exact (Prod.mk.inj hdone).2.symm
    simp only [hmade]
    rcases gaossd_cases hmade with ⟨-, hnone, rfl | rfl | ⟨bar0, hfailed⟩⟩ | ⟨honly, bar0, hdone⟩
    · rw [transfer_no_device hnone]
      exact hready
    · rw [transfer_no_device hnone]
      exact hready
    · rw [transfer_no_device hnone, hinit bar0 _ hfailed]
      exact hready
    · obtain rfl := hinit bar0 _ hdone
      rw [transfer_nvme honly rfl]
      split
      · exact (initialized_request _ _).trans hready
      · exact hready

/-- The controller stays initialized. -/
theorem initialized_of_call {c : Call} (hc : V.Calls h c h') (hready : h.initialized = true) :
    h'.initialized = true := by
  cases c with
  | read b v =>
      obtain rfl : (V.read b v h).2.2 = h' := hc
      rw [read_eq]
      exact (initialized_request _ _).trans hready
  | write a u =>
      obtain rfl : (V.write a u h).2 = h' := hc
      exact initialized_write hready
  | use mem =>
      obtain rfl : { h with mem } = h' := hc
      exact hready

/-- Where no block is written the device stays as it was. -/
theorem Unwritten.disk_eq (hu : V.Unwritten h h') : h'.disk = h.disk := by
  obtain ⟨calls, hrun, hno⟩ := hu
  have hstep : ∀ t c t', c ∈ calls → V.Calls t c t' → t'.disk = t.disk := by
    intro t c t' hmem hc
    cases c with
    | read b v =>
        obtain rfl : (V.read b v t).2.2 = t' := hc
        exact disk_read b v t
    | write a u => exact absurd hmem (hno a u)
    | use mem =>
        obtain rfl : { t with mem } = t' := hc
        rfl
  have hrun' : Run (fun t (_ : Call) t' => t'.disk = t.disk) h calls h' := hrun.mono_labels hstep
  exact hrun'.invariant (I := fun t => t.disk = h.disk) (fun _ _ _ hs ht => hs.trans ht) rfl

end Attached

/-! ## What is moved -/

section Moved

variable {im : Image} {hhdmOffset a b u v : UInt64} {h h' : Host} {g : Gaossd Host} {i : Nat}

/-- The buffer fills a physical page. -/
def FillsPage (im : Image) (hhdmOffset v : UInt64) : Prop := (virtToPhys im hhdmOffset v).toNat % 4096 = 0

/-- What a buffer of a block holds. -/
def Host.buffer (h : Host) (im : Image) (hhdmOffset v : UInt64) (i : Nat) : UInt8 := h.mem (behindByte im hhdmOffset v i)

/-- What the sectors of a block hold. -/
def Host.block (h : Host) (b : UInt64) (i : Nat) : UInt8 := h.disk (4096 * (b.toNat % 2 ^ 61) + i)

/-- How much of a buffer is in its first page. -/
def firstPart (im : Image) (hhdmOffset v : UInt64) : Nat := 4096 - (virtToPhys im hhdmOffset v).toNat % 4096

/-- Where byte `i` of a block is in memory when it is moved to or from the buffer `v`. -/
def movedByte (im : Image) (hhdmOffset v : UInt64) (i : Nat) : Nat :=
  if i < firstPart im hhdmOffset v then (virtToPhys im hhdmOffset v).toNat + i else i - firstPart im hhdmOffset v

/-- The address is one of the kernel's, in its image or in the direct map. -/
def Mapped (im : Image) (hhdmOffset v : UInt64) : Prop := InImage im hhdmOffset v ∨ InDirectMap im hhdmOffset v

theorem Mapped.le_offset (hv : Mapped im hhdmOffset v) : virtToPhys im hhdmOffset v ≤ hhdmOffset :=
  UInt64.le_iff_toNat_le.mpr (Nat.le_trans (Nat.le_add_right _ _) (behindByte_eq hv).1)

theorem dataByte_entryFor (hv : Mapped im hhdmOffset v) (opcode : UInt32) (cid : Nat) (b : UInt64) (i : Nat) :
    (IoCall.entryFor im hhdmOffset opcode cid (virtToPhys im hhdmOffset v) (b * 8) 8).dataByte i
      = movedByte im hhdmOffset v i := by
  obtain ⟨hfirst, hsecond, -, -⟩ := entryFor_block im hv.le_offset opcode cid b
  unfold SubmissionQueueEntry.dataByte movedByte firstPart
  rw [hfirst, hsecond]
  show (if _ then _ else 0 + _) = _
  rw [Nat.zero_add]

/-- **A read that returns true** puts the bytes of the block where it moves them, and nothing elsewhere. -/
theorem Attached.mem_read {V : Attached im hhdmOffset} (hv : Mapped im hhdmOffset v)
    (hr : V.read b v h = (true, g, h')) :
    h'.mem = scatter h.mem (movedByte im hhdmOffset v) (h.block b) 4096 := by
  obtain ⟨e, rfl, hmem⟩ := mem_of_readBlock hr
  obtain ⟨-, -, hlength, hstart⟩ := entryFor_block im hv.le_offset 0x02 h.ioSqTail b
  rw [hmem, hlength, hstart]
  congr 1
  exact funext fun i => dataByte_entryFor hv _ _ _ i

/-- **A write that returns true** takes the block from there. -/
theorem Attached.disk_write {V : Attached im hhdmOffset} (hu : Mapped im hhdmOffset u) (hready : h.initialized = true)
    (hw : V.write a u h = (true, h')) :
    h'.disk = scatter h.disk (fun i => 4096 * (a.toNat % 2 ^ 61) + i)
      (fun i => h.mem (movedByte im hhdmOffset u i)) 4096 := by
  obtain ⟨e, rfl, hdisk⟩ := disk_of_writeBlock hready hw
  obtain ⟨-, -, hlength, hstart⟩ := entryFor_block im hu.le_offset 0x01 h.ioSqTail a
  rw [hdisk, hlength, hstart]
  congr 1
  exact funext fun i => congrArg h.mem (dataByte_entryFor hu _ _ _ i)

/-- A buffer that fills a page is where its block is moved. -/
theorem movedByte_page (hv : Mapped im hhdmOffset v) (hp : FillsPage im hhdmOffset v) (hi : i < 4096) :
    movedByte im hhdmOffset v i = behindByte im hhdmOffset v i := by
  unfold FillsPage at hp
  unfold movedByte firstPart
  rw [hp, (behindByte_eq hv).2 i hi]
  exact if_pos hi

/-- Of another buffer the first byte of its second page is missed. -/
theorem movedByte_missed (hv : Mapped im hhdmOffset v) (hp : ¬ FillsPage im hhdmOffset v) :
    firstPart im hhdmOffset v < 4096
      ∧ 4096 ≤ behindByte im hhdmOffset v (firstPart im hhdmOffset v)
      ∧ ∀ i, i < 4096 → movedByte im hhdmOffset v i ≠ behindByte im hhdmOffset v (firstPart im hhdmOffset v) := by
  have hlt : firstPart im hhdmOffset v < 4096 := by
    unfold FillsPage at hp
    unfold firstPart
    omega
  have hbehind := (behindByte_eq hv).2 _ hlt
  have hge : 4096 ≤ behindByte im hhdmOffset v (firstPart im hhdmOffset v) := by
    rw [hbehind]
    unfold firstPart
    omega
  refine ⟨hlt, hge, fun i hi => ?_⟩
  unfold movedByte
  split
  · rw [hbehind]
    omega
  · omega

theorem block_apart (h : a.toNat % 2 ^ 61 ≠ b.toNat % 2 ^ 61) {j : Nat} (hi : i < 4096) (hj : j < 4096) :
    4096 * (a.toNat % 2 ^ 61) + i ≠ 4096 * (b.toNat % 2 ^ 61) + j := by omega

variable {V : Attached im hhdmOffset}

/-- A read yields the block in a buffer that fills a page. -/
theorem Attached.buffer_read (hv : Mapped im hhdmOffset v) (hp : FillsPage im hhdmOffset v)
    (hr : V.read b v h = (true, g, h')) (hi : i < 4096) : h'.buffer im hhdmOffset v i = h.block b i := by
  unfold Host.buffer
  rw [V.mem_read hv hr, ← movedByte_page hv hp hi]
  apply scatter_at hi
  intro j hj heq
  rw [movedByte_page hv hp hj, movedByte_page hv hp hi, (behindByte_eq hv).2 j hj, (behindByte_eq hv).2 i hi] at heq
  exact Nat.add_left_cancel heq

/-- In another one it leaves a byte as it was. -/
theorem Attached.buffer_read_missed (hv : Mapped im hhdmOffset v) (hp : ¬ FillsPage im hhdmOffset v)
    (hr : V.read b v h = (true, g, h')) :
    h'.buffer im hhdmOffset v (firstPart im hhdmOffset v) = h.buffer im hhdmOffset v (firstPart im hhdmOffset v) := by
  unfold Host.buffer
  rw [V.mem_read hv hr]
  exact scatter_other (movedByte_missed hv hp).2.2

/-- What a write leaves in the sectors of its block. -/
theorem Attached.block_write (hu : Mapped im hhdmOffset u) (hready : h.initialized = true)
    (hw : V.write a u h = (true, h')) (hsame : a.toNat % 2 ^ 61 = b.toNat % 2 ^ 61) (hi : i < 4096) :
    h'.block b i = h.mem (movedByte im hhdmOffset u i) := by
  unfold Host.block
  rw [V.disk_write hu hready hw, ← hsame]
  exact @scatter_at h.disk (fun i => 4096 * (a.toNat % 2 ^ 61) + i) (fun i => h.mem (movedByte im hhdmOffset u i))
    4096 i hi fun _ _ heq => Nat.add_left_cancel heq

/-- Other blocks it leaves alone. -/
theorem Attached.block_write_apart (hu : Mapped im hhdmOffset u) (hready : h.initialized = true)
    (hw : V.write a u h = (true, h')) (hapart : a.toNat % 2 ^ 61 ≠ b.toNat % 2 ^ 61) (hi : i < 4096) :
    h'.block b i = h.block b i := by
  unfold Host.block
  rw [V.disk_write hu hready hw]
  exact scatter_other fun j hj => block_apart hapart hj hi

end Moved

/-! ## The law -/

section Law

variable {im : Image} {hhdmOffset a b u w v : UInt64}

/-- What a write of block `a` from the buffer `u` that returns true does to block `b`: a later read of it into `v` that
    returns true yields what was written if it is the same block, and what an earlier one into `w` yielded if it is
    another. -/
def ArrayLaw (im : Image) (hhdmOffset a b u w v : UInt64) : Prop :=
  ∀ (V : Attached im hhdmOffset) (calls : List Attached.Call) (h h₁ h₂ h₃ : Host) (g : Gaossd Host),
    Run V.Calls V.made.2 calls h → V.write a u h = (true, h₁) → V.Unwritten h₁ h₂ →
    V.read b v h₂ = (true, g, h₃) →
      (b = a → ∀ i, i < 4096 → h₃.buffer im hhdmOffset v i = h.buffer im hhdmOffset u i)
      ∧ (b ≠ a → ∀ (h₀ h₀' : Host) (g₀ : Gaossd Host), V.read b w h₀ = (true, g₀, h₀') → V.Unwritten h₀' h →
          ∀ i, i < 4096 → h₃.buffer im hhdmOffset v i = h₀'.buffer im hhdmOffset w i)

/-- The buffers fill pages, and the blocks are one, or are not a multiple of `2 ^ 61` apart. -/
def Separable (im : Image) (hhdmOffset a b u w v : UInt64) : Prop :=
  (b = a ∧ FillsPage im hhdmOffset u ∧ FillsPage im hhdmOffset v)
    ∨ (a.toNat % 2 ^ 61 ≠ b.toNat % 2 ^ 61 ∧ FillsPage im hhdmOffset w ∧ FillsPage im hhdmOffset v)

theorem Separable.arrayLaw (hu : Mapped im hhdmOffset u) (hw : Mapped im hhdmOffset w) (hv : Mapped im hhdmOffset v)
    (hsep : Separable im hhdmOffset a b u w v) : ArrayLaw im hhdmOffset a b u w v := by
  intro V calls h h₁ h₂ h₃ g hrun hwrite hlater hread
  -- the controller was initialized when the driver was attached
  have hready : h.initialized = true :=
    hrun.invariant (I := fun h => h.initialized = true) (fun _ _ _ hc hr => V.initialized_of_call hc hr)
      V.onlyNvme.2.2
  have hblock : ∀ i, h₂.block b i = h₁.block b i := by
    intro i
    unfold Host.block
    rw [hlater.disk_eq]
  rcases hsep with ⟨rfl, hpu, hpv⟩ | ⟨hapart, hpw, hpv⟩
  · refine ⟨fun _ i hi => ?_, fun hne => absurd rfl hne⟩
    calc h₃.buffer im hhdmOffset v i = h₂.block b i := V.buffer_read hv hpv hread hi
      _ = h₁.block b i := hblock i
      _ = h.mem (movedByte im hhdmOffset u i) := V.block_write hu hready hwrite rfl hi
      _ = h.buffer im hhdmOffset u i := congrArg h.mem (movedByte_page hu hpu hi)
  · refine ⟨fun heq => absurd (by rw [heq]) hapart, fun _ h₀ h₀' g₀ hearlier hbefore i hi => ?_⟩
    have hkept : h.block b i = h₀.block b i := by
      have hdisk : h₀'.disk = h₀.disk := by
        have hread₀ := V.disk_read b w h₀
        rwa [hearlier] at hread₀
      unfold Host.block
      rw [hbefore.disk_eq, hdisk]
    calc h₃.buffer im hhdmOffset v i = h₂.block b i := V.buffer_read hv hpv hread hi
      _ = h₁.block b i := hblock i
      _ = h.block b i := V.block_write_apart hu hready hwrite hapart hi
      _ = h₀.block b i := hkept
      _ = h₀'.buffer im hhdmOffset w i := (V.buffer_read hw hpw hearlier hi).symm

/-! ## Where it fails -/

/-- A machine that refuses nothing. -/
def willingBench : Bench :=
  { openBench with firstInit := fun _ _ h => (true, { h with initialized := true }) }

theorem honest_willingBench : willingBench.Honest := by
  refine ⟨?_, ?_, ?_⟩
  · intro _ _ h h' hinit
    obtain rfl := (Prod.mk.inj hinit).2
    rfl
  · intro e h h' hrefused
    cases hrefused
  · intro e h h' hrefused
    cases hrefused

/-- A driver made when the controller was initialized already. -/
def Attached.onWilling (im : Image) (hhdmOffset : UInt64) (mem disk : Nat → UInt8) : Attached im hhdmOffset where
  bench := willingBench
  honest := honest_willingBench
  boot := ⟨mem, disk, 0, true⟩
  handle := 0
  accepts := by
    have hone : (gaossd (board im hhdmOffset willingBench) ⟨mem, disk, 0, true⟩).1.storageDevices.length = 1 := rfl
    rw [hone]
    decide

/-- **A read, some other use of memory, a write, and a read**: all of them succeed. -/
theorem exists_scene (hlaw : ArrayLaw im hhdmOffset a b u w v) (mem disk m m' : Nat → UInt8) :
    ∃ (V : Attached im hhdmOffset) (h s h₁ h₃ : Host) (g₀ g : Gaossd Host),
      V.read b w ⟨mem, disk, 0, true⟩ = (true, g₀, h)
      ∧ s.initialized = true ∧ s.mem = m ∧ s.disk = h.disk ∧ V.write a u s = (true, h₁)
      ∧ V.read b v { h₁ with mem := m' } = (true, g, h₃)
      ∧ (b = a → ∀ i, i < 4096 → h₃.buffer im hhdmOffset v i = m (behindByte im hhdmOffset u i))
      ∧ (b ≠ a → ∀ i, i < 4096 → h₃.buffer im hhdmOffset v i = h.buffer im hhdmOffset w i) := by
  obtain ⟨V, hV⟩ : ∃ V, V = Attached.onWilling im hhdmOffset mem disk := ⟨_, rfl⟩
  have hmade : V.made.2 = ⟨mem, disk, 0, true⟩ := by
    rw [hV]
    rfl
  have hread : ∀ block buffer h, ∃ h', V.read block buffer h = (true, V.made.1, h') := by
    intro block buffer h
    rw [V.read_eq, hV]
    exact ⟨_, rfl⟩
  have hwrite : ∀ block buffer h, h.initialized = true → ∃ h', V.write block buffer h = (true, h') := by
    rintro block buffer ⟨mem, disk, tail, ready⟩ hready
    obtain rfl : ready = true := hready
    rw [hV]
    exact ⟨_, rfl⟩
  obtain ⟨h, hearlier⟩ := hread b w ⟨mem, disk, 0, true⟩
  have hfirst : V.Calls V.made.2 (.read b w) h := by
    show (V.read b w V.made.2).2.2 = h
    rw [hmade, hearlier]
  have hready : h.initialized = true := V.initialized_of_call hfirst V.onlyNvme.2.2
  obtain ⟨h₁, hwritten⟩ := hwrite a u { h with mem := m } hready
  obtain ⟨h₃, hlater⟩ := hread b v { h₁ with mem := m' }
  have huse : ∀ (h : Host) (m : Nat → UInt8), V.Unwritten h { h with mem := m } :=
    fun h m => ⟨[.use m], Run.single rfl, by simp⟩
  have hrun : Run V.Calls V.made.2 [.read b w, .use m] { h with mem := m } := (Run.single hfirst).step rfl
  obtain ⟨hsame, hother⟩ := hlaw V _ _ _ _ _ _ hrun hwritten (huse h₁ m') hlater
  exact ⟨V, h, { h with mem := m }, h₁, h₃, _, _, hearlier, hready, rfl, rfl, hwritten, hlater, hsame,
    fun hne => hother hne _ _ _ hearlier (huse h m)⟩

/-- **Into a buffer that does not fill a page** no block is read. -/
theorem page_of_arrayLaw (hw : Mapped im hhdmOffset w) (hv : Mapped im hhdmOffset v)
    (hlaw : ArrayLaw im hhdmOffset a b u w v) : FillsPage im hhdmOffset v := by
  by_contra hp
  -- ones everywhere, and zeros in memory before the last read
  obtain ⟨V, h, s, h₁, h₃, g₀, g, hearlier, -, -, -, -, hlater, hsame, hother⟩ :=
    exists_scene hlaw (fun _ => 1) (fun _ => 1) (fun _ => 1) (fun _ => 0)
  have hlt := (movedByte_missed hv hp).1
  have hzero : h₃.buffer im hhdmOffset v (firstPart im hhdmOffset v) = 0 := V.buffer_read_missed hv hp hlater
  by_cases hab : b = a
  · have hone := hsame hab _ hlt
    rw [hzero] at hone
    exact absurd hone (by decide)
  · have hone := hother hab _ hlt
    have hmem : h.buffer im hhdmOffset w (firstPart im hhdmOffset v) = 1 := by
      unfold Host.buffer
      rw [V.mem_read hw hearlier]
      exact scatter_const (fun _ => rfl) (fun _ _ => rfl) _
    rw [hzero, hmem] at hone
    exact absurd hone (by decide)

/-- **Out of such a buffer** none is written. -/
theorem page_of_arrayLaw_self (hu : Mapped im hhdmOffset u) (hw : Mapped im hhdmOffset w)
    (hv : Mapped im hhdmOffset v) (hlaw : ArrayLaw im hhdmOffset a a u w v) : FillsPage im hhdmOffset u := by
  by_contra hp
  have hpv := page_of_arrayLaw hw hv hlaw
  -- zeros in the first page of memory, where the rest of the block is taken from
  obtain ⟨V, h, s, h₁, h₃, g₀, g, -, hready, hmem, -, hwritten, hlater, hsame, -⟩ :=
    exists_scene hlaw (fun _ => 0) (fun _ => 0) (fun p => if p < 4096 then 0 else 1) (fun _ => 0)
  obtain ⟨hlt, hge, -⟩ := movedByte_missed hu hp
  have hone := hsame rfl _ hlt
  have hzero : h₃.buffer im hhdmOffset v (firstPart im hhdmOffset u) = 0 := by
    have hmoved : movedByte im hhdmOffset u (firstPart im hhdmOffset u) = 0 := by
      unfold movedByte
      rw [if_neg (Nat.lt_irrefl _), Nat.sub_self]
    rw [V.buffer_read hv hpv hlater hlt]
    show h₁.block a _ = 0
    rw [V.block_write hu hready hwritten rfl hlt, hmem, hmoved]
    rfl
  rw [hzero, if_neg (Nat.not_lt_of_le hge)] at hone
  exact absurd hone (by decide)

/-- **Into such a buffer** none was read before. -/
theorem page_of_arrayLaw_ne (hu : Mapped im hhdmOffset u) (hw : Mapped im hhdmOffset w)
    (hv : Mapped im hhdmOffset v) (hne : b ≠ a) (hlaw : ArrayLaw im hhdmOffset a b u w v) :
    FillsPage im hhdmOffset w := by
  by_contra hp
  have hpv := page_of_arrayLaw hw hv hlaw
  -- zeros in memory at first, ones on the device and in what is written
  obtain ⟨V, h, s, h₁, h₃, g₀, g, hearlier, hready, hmem, hdisk, hwritten, hlater, -, hother⟩ :=
    exists_scene hlaw (fun _ => 0) (fun _ => 1) (fun _ => 1) (fun _ => 0)
  have hlt := (movedByte_missed hw hp).1
  have hzero : h.buffer im hhdmOffset w (firstPart im hhdmOffset w) = 0 := V.buffer_read_missed hw hp hearlier
  have hone : h₃.buffer im hhdmOffset v (firstPart im hhdmOffset w) = 1 := by
    have hones : ∀ p, s.disk p = 1 := by
      intro p
      have hkept := V.disk_read b w ⟨fun _ => 0, fun _ => 1, 0, true⟩
      rw [hearlier] at hkept
      rw [hdisk]
      exact congrFun hkept p
    rw [V.buffer_read hv hpv hlater hlt]
    show h₁.disk _ = 1
    rw [V.disk_write hu hready hwritten, hmem]
    exact scatter_const hones (fun _ _ => rfl) _
  have hsame := hother hne _ hlt
  rw [hzero, hone] at hsame
  exact absurd hsame (by decide)

/-- **Blocks with the same sectors** are one block. -/
theorem apart_of_arrayLaw (hu : Mapped im hhdmOffset u) (hw : Mapped im hhdmOffset w)
    (hv : Mapped im hhdmOffset v) (hne : b ≠ a) (hlaw : ArrayLaw im hhdmOffset a b u w v) :
    a.toNat % 2 ^ 61 ≠ b.toNat % 2 ^ 61 := by
  intro hmod
  have hpv := page_of_arrayLaw hw hv hlaw
  have hpw := page_of_arrayLaw_ne hu hw hv hne hlaw
  -- zeros, and ones in what is written
  obtain ⟨V, h, s, h₁, h₃, g₀, g, hearlier, hready, hmem, -, hwritten, hlater, -, hother⟩ :=
    exists_scene hlaw (fun _ => 0) (fun _ => 0) (fun _ => 1) (fun _ => 0)
  have hsame := hother hne 0 (by decide)
  have hfirst : 0 < 4096 := by decide
  have hone : h₁.block b 0 = 1 := by
    rw [V.block_write hu hready hwritten hmod hfirst, hmem]
  rw [V.buffer_read hv hpv hlater hfirst, V.buffer_read hw hpw hearlier hfirst] at hsame
  have hzero : (1 : UInt8) = 0 := hone.symm.trans hsame
  exact absurd hzero (by decide)

/-- **The blocks are an array** exactly for buffers that fill pages and addresses that are not a multiple of `2 ^ 61`
    apart. -/
theorem arrayLaw_iff (hu : Mapped im hhdmOffset u) (hw : Mapped im hhdmOffset w) (hv : Mapped im hhdmOffset v) :
    ArrayLaw im hhdmOffset a b u w v ↔ Separable im hhdmOffset a b u w v := by
  constructor
  · intro hlaw
    have hpv := page_of_arrayLaw hw hv hlaw
    by_cases hab : b = a
    · subst hab
      exact Or.inl ⟨rfl, page_of_arrayLaw_self hu hw hv hlaw, hpv⟩
    · exact Or.inr ⟨apart_of_arrayLaw hu hw hv hab hlaw, page_of_arrayLaw_ne hu hw hv hab hlaw, hpv⟩
  · intro hsep
    exact hsep.arrayLaw hu hw hv

/-- Three pages of the direct map. -/
theorem mapped_page {v : UInt64} (h : 0xFFFF800000000000 ≤ v.toNat ∧ v.toNat ≤ 0xFFFF800100000000) :
    Mapped limineImage 0xFFFF800000000000 v := Or.inr (direct_mapped h)

/-- Two blocks through buffers that are pages. -/
theorem arrayLaw_pages : ArrayLaw limineImage 0xFFFF800000000000 1 2 0xFFFF800000200000 0xFFFF800000201000
    0xFFFF800000202000 :=
  (arrayLaw_iff (mapped_page (by decide)) (mapped_page (by decide)) (mapped_page (by decide))).mpr
    (Or.inr ⟨by decide, rfl, rfl⟩)

/-- Block `2 ^ 61` is block 0. -/
theorem not_arrayLaw : ¬ ∀ (im : Image) (hhdmOffset a b u w v : UInt64), Mapped im hhdmOffset u →
    Mapped im hhdmOffset w → Mapped im hhdmOffset v → ArrayLaw im hhdmOffset a b u w v := by
  intro hall
  have hv : Mapped limineImage 0xFFFF800000000000 0xFFFF800000200000 := mapped_page (by decide)
  have hlaw := hall limineImage 0xFFFF800000000000 0 0x2000000000000000 _ _ _ hv hv hv
  exact apart_of_arrayLaw hv hv hv (by decide) hlaw (by decide)

end Law

end AlopexOS.Nvme
