import AlopexOS.Nvme.Controller
import AlopexOS.Gaossd.Gaossd

/-!
# `Nvme.Transfer` — which bytes of memory a block is moved to and from

An entry names the memory by physical addresses: `dptr[0]` up to the end of its page, `dptr[1]` for what is
left. The driver assigns `dptr[0]` only. So a block reaches its buffer when the buffer fills a page, and else
the end of the block goes to the page at address 0.

## Contents
- **Addresses.** The kernel image and the direct map.
- **The controller's side of a transfer** (`Entry`'s bytes), and the board with it.
- **Exactness**, and when it holds.
-/

namespace AlopexOS.Nvme

open Storage

/-! ## Addresses -/

/-- The 4096 bytes from `v` on lie in the kernel image, which lies in physical memory below the offset of the
    direct map. -/
def InImage (im : Image) (hhdmOffset v : UInt64) : Prop :=
  ∃ kVirt kPhys, im.execAddr = some (kVirt, kPhys) ∧ kVirt ≤ v ∧ v.toNat + 4096 ≤ 2 ^ 64
    ∧ v.toNat - kVirt.toNat + kPhys.toNat + 4096 ≤ hhdmOffset.toNat

/-- The 4096 bytes from `v` on lie in the direct map of physical memory, below the kernel image. -/
def InDirectMap (im : Image) (hhdmOffset v : UInt64) : Prop :=
  (∀ kVirt kPhys, im.execAddr = some (kVirt, kPhys) → v.toNat + 4096 ≤ kVirt.toNat)
    ∧ hhdmOffset ≤ v ∧ v.toNat + 4096 ≤ 2 ^ 64 ∧ v.toNat - hhdmOffset.toNat + 4096 ≤ hhdmOffset.toNat

/-- The physical address behind the byte `v + i`. -/
def behindByte (im : Image) (hhdmOffset v : UInt64) (i : Nat) : Nat :=
  (virtToPhys im hhdmOffset (v + UInt64.ofNat i)).toNat

variable {im : Image} {hhdmOffset v : UInt64}

theorem virtToPhys_image {kVirt kPhys : UInt64} (hk : im.execAddr = some (kVirt, kPhys)) (hle : kVirt ≤ v)
    (hlt : v.toNat - kVirt.toNat + kPhys.toNat < 2 ^ 64) :
    (virtToPhys im hhdmOffset v).toNat = v.toNat - kVirt.toNat + kPhys.toNat := by
  unfold virtToPhys
  simp only [hk, if_pos hle]
  rw [UInt64.toNat_add, UInt64.toNat_sub_of_le _ _ hle]
  exact Nat.mod_eq_of_lt hlt

theorem virtToPhys_direct (hk : ∀ kVirt kPhys, im.execAddr = some (kVirt, kPhys) → v.toNat < kVirt.toNat)
    (hle : hhdmOffset ≤ v) : (virtToPhys im hhdmOffset v).toNat = v.toNat - hhdmOffset.toNat := by
  have hdirect : (virtToPhys.direct hhdmOffset v).toNat = v.toNat - hhdmOffset.toNat := by
    unfold virtToPhys.direct
    rw [if_pos hle, UInt64.toNat_sub_of_le _ _ hle]
  unfold virtToPhys
  split
  · rename_i kVirt kPhys hexec
    have hlt := hk kVirt kPhys hexec
    rw [if_neg (fun hge => absurd (UInt64.le_iff_toNat_le.mp hge) (Nat.not_le_of_lt hlt))]
    exact hdirect
  · exact hdirect

/-- **A mapped block is contiguous**, and below the direct map. -/
theorem behindByte_eq (h : InImage im hhdmOffset v ∨ InDirectMap im hhdmOffset v) :
    (virtToPhys im hhdmOffset v).toNat + 4096 ≤ hhdmOffset.toNat
      ∧ ∀ i, i < 4096 → behindByte im hhdmOffset v i = (virtToPhys im hhdmOffset v).toNat + i := by
  have hbyte : v.toNat + 4096 ≤ 2 ^ 64 → ∀ i, i < 4096 → (v + UInt64.ofNat i).toNat = v.toNat + i := by
    intro htop i hi
    rw [UInt64.toNat_add, UInt64.toNat_ofNat', Nat.mod_eq_of_lt (a := i) (by omega)]
    exact Nat.mod_eq_of_lt (by omega)
  have hoffset := hhdmOffset.toNat_lt
  rcases h with ⟨kVirt, kPhys, hk, hle, htop, hfit⟩ | ⟨hk, hle, htop, hfit⟩
  · -- above the direct map but below the image, the offset is taken off
    have hle' := UInt64.le_iff_toNat_le.mp hle
    have hsmall : v.toNat - kVirt.toNat + kPhys.toNat < 2 ^ 64 := by omega
    have hv : (virtToPhys im hhdmOffset v).toNat = _ := virtToPhys_image hk hle hsmall
    refine ⟨by omega, fun i hi => ?_⟩
    have hvi := hbyte htop i hi
    have hle₁ : kVirt ≤ v + UInt64.ofNat i := UInt64.le_iff_toNat_le.mpr (by omega)
    unfold behindByte
    rw [virtToPhys_image hk hle₁ (by omega), hv, hvi]
    omega
  · have hle' := UInt64.le_iff_toNat_le.mp hle
    have hv := virtToPhys_direct (fun kVirt kPhys hexec => Nat.lt_of_lt_of_le (by omega) (hk kVirt kPhys hexec)) hle
    refine ⟨by omega, fun i hi => ?_⟩
    have hvi := hbyte htop i hi
    have hle₁ : hhdmOffset ≤ v + UInt64.ofNat i := UInt64.le_iff_toNat_le.mpr (by omega)
    unfold behindByte
    rw [virtToPhys_direct (fun kVirt kPhys hexec => Nat.lt_of_lt_of_le (by omega) (hk kVirt kPhys hexec)) hle₁,
      hv, hvi]
    omega

/-! ## The controller's side -/

/-- Put the bytes `x 0`, `x 1`, … at the addresses `addr 0`, `addr 1`, …, of which there are `n`. -/
def scatter (m : Nat → UInt8) (addr : Nat → Nat) (x : Nat → UInt8) : Nat → Nat → UInt8
  | 0 => m
  | n + 1 => Function.update (scatter m addr x n) (addr n) (x n)

theorem scatter_other {m : Nat → UInt8} {addr : Nat → Nat} {x : Nat → UInt8} {n p : Nat}
    (h : ∀ i, i < n → addr i ≠ p) : scatter m addr x n p = m p := by
  induction n with
  | zero => rfl
  | succ n ih =>
      rw [scatter, Function.update_of_ne (h n (Nat.lt_succ_self n)).symm]
      exact ih fun i hi => h i (Nat.lt_succ_of_lt hi)

theorem scatter_at {m : Nat → UInt8} {addr : Nat → Nat} {x : Nat → UInt8} {n i : Nat} (hi : i < n)
    (hinj : ∀ j, j < n → addr j = addr i → j = i) : scatter m addr x n (addr i) = x i := by
  induction n with
  | zero => exact absurd hi (Nat.not_lt_zero i)
  | succ n ih =>
      rw [scatter]
      by_cases heq : addr i = addr n
      · obtain rfl := hinj n (Nat.lt_succ_self n) heq.symm
        rw [Function.update_self]
      · rw [Function.update_of_ne heq]
        have hne : i ≠ n := fun he => heq (he ▸ rfl)
        exact ih (by omega) fun j hj => hinj j (Nat.lt_succ_of_lt hj)

/-- Nothing changes when only what is there is put there. -/
theorem scatter_const {m : Nat → UInt8} {addr : Nat → Nat} {x : Nat → UInt8} {n : Nat} {c : UInt8}
    (hm : ∀ p, m p = c) (hx : ∀ i, i < n → x i = c) (p : Nat) : scatter m addr x n p = c := by
  induction n with
  | zero => exact hm p
  | succ n ih =>
      rw [scatter, Function.update_apply]
      split
      · exact hx n (Nat.lt_succ_self n)
      · exact ih fun i hi => hx i (Nat.lt_succ_of_lt hi)

namespace SubmissionQueueEntry

/-- The address of byte `i` of the data: the first pointer up to the end of its page, then the second. -/
def dataByte (e : SubmissionQueueEntry) (i : Nat) : Nat :=
  let first := 4096 - e.dptr0.toNat % 4096
  if i < first then e.dptr0.toNat + i else e.dptr1.toNat + (i - first)

/-- Where the data is on the device, in bytes. -/
def diskStart (e : SubmissionQueueEntry) : Nat := 512 * (e.cdw10.toNat + 2 ^ 32 * e.cdw11.toNat)

/-- How long the data is, in bytes. -/
def dataLength (e : SubmissionQueueEntry) : Nat := 512 * (e.cdw12.toNat % 2 ^ 16 + 1)

end SubmissionQueueEntry

/-- Physical memory, the bytes of the device, and of the driver what matters here. -/
structure Host where
  mem : Nat → UInt8
  disk : Nat → UInt8
  ioSqTail : Nat
  initialized : Bool

/-- Carry out a read (`0x02`) or a write. -/
def execute (e : SubmissionQueueEntry) (h : Host) : Host :=
  if e.cdw0 &&& 0xFF == 0x02 then
    { h with mem := scatter h.mem e.dataByte (fun i => h.disk (e.diskStart + i)) e.dataLength }
  else
    { h with disk := scatter h.disk (fun i => e.diskStart + i) (fun i => h.mem (e.dataByte i)) e.dataLength }

/-- The rest of the machine: the bus, what `init` does the first time, and the commands the controller
    refuses, with what is left then. -/
structure Bench where
  pcieActive : Bool
  nvmeBar0 : UInt64
  firstInit : UInt64 → UInt64 → Host → Bool × Host
  modelNumber : List UInt8
  refuses : SubmissionQueueEntry → Host → Option Host
  identify : Host → Bool × Host
  identifyNamespace : Host → Bool × Host
  formatNamespace : Host → Bool × Host

/-- `Controller::read` and `Controller::write`, as the calls of a ring that stays in step. -/
def request (im : Image) (hhdmOffset : UInt64) (K : Bench) (call : IoCall) (h : Host) : ErrorCode × Host :=
  let e := call.entry im hhdmOffset h.ioSqTail
  let h := { h with ioSqTail := (h.ioSqTail + 1) % 64 }
  match K.refuses e h with
  | some h => (.genericError, h)
  | none => (.success, execute e h)

/-- The machine that `gaossd` runs on, with the driver's own `Controller::read` and `write`. -/
def board (im : Image) (hhdmOffset : UInt64) (K : Bench) : StorageBoard Host where
  pcieActive := fun _ => K.pcieActive
  findNvmeBar0 := fun h => (K.nvmeBar0, h)
  hhdmOffset := hhdmOffset
  nvmeInit := fun bar0 hhdm h => if h.initialized = true then (true, h) else K.firstInit bar0 hhdm h
  modelNumber := fun _ => K.modelNumber
  virtToPhys := fun _ v => virtToPhys im hhdmOffset v
  nvmeRead := fun phys lba count h => request im hhdmOffset K (.read phys lba count) h
  nvmeWrite := fun phys lba count h => request im hhdmOffset K (.write phys lba count) h
  identify := K.identify
  identifyNamespace := K.identifyNamespace
  formatNamespace := K.formatNamespace

/-! ## Exactness -/

/-- Every `read_block` of `b` into `v` that returns true stores the block behind `v`, and nothing else. -/
def ReadsExactly (im : Image) (hhdmOffset v b : UInt64) : Prop :=
  ∀ (K : Bench) (h₀ h h' : Host) (handle : Handle) (g : Gaossd Host),
    Storage.readBlock (board im hhdmOffset K) (gaossd (board im hhdmOffset K) h₀).1 handle b v h = (true, g, h') →
      (∀ i, i < 4096 → h'.mem (behindByte im hhdmOffset v i) = h.disk (4096 * b.toNat + i))
        ∧ ∀ p, (∀ i, i < 4096 → behindByte im hhdmOffset v i ≠ p) → h'.mem p = h.mem p

/-- Every `write_block` of `b` from `v` that returns true stores the bytes behind `v` in the block, and nothing
    else. -/
def WritesExactly (im : Image) (hhdmOffset v b : UInt64) : Prop :=
  ∀ (K : Bench) (h h' : Host) (handle : Handle), h.initialized = true →
    Storage.writeBlock (board im hhdmOffset K) handle b v h = (true, h') →
      (∀ i, i < 4096 → h'.disk (4096 * b.toNat + i) = h.mem (behindByte im hhdmOffset v i))
        ∧ ∀ p, (∀ i, i < 4096 → 4096 * b.toNat + i ≠ p) → h'.disk p = h.disk p

/-! ## What a block command moves -/

/-- The opcode is the low byte of the first word. -/
theorem cdw0_opcode {opcode : UInt32} (ho : opcode.toNat < 256) (cid : Nat) :
    cdw0 opcode cid &&& 0xFF = opcode := by
  rw [← UInt32.toNat_inj, UInt32.toNat_and, cdw0, UInt32.toNat_or, UInt32.toNat_shiftLeft]
  show (opcode.toNat ||| (UInt16.ofNat cid).toUInt32.toNat <<< 16 % 2 ^ 32) &&& (2 ^ 8 - 1) = opcode.toNat
  rw [Nat.and_two_pow_sub_one_eq_mod, Nat.or_mod_two_pow, Nat.shiftLeft_eq]
  have hzero : (UInt16.ofNat cid).toUInt32.toNat * 2 ^ 16 % 2 ^ 32 % 2 ^ 8 = 0 := by omega
  rw [hzero, Nat.or_zero]
  exact Nat.mod_eq_of_lt ho

/-- The two words of a block address. -/
theorem lba_words (lba : UInt64) :
    (lba &&& 0xFFFFFFFF).toUInt32.toNat + 2 ^ 32 * (lba >>> 32 &&& 0xFFFFFFFF).toUInt32.toNat = lba.toNat := by
  have hlow : ((lba &&& 0xFFFFFFFF).toUInt32).toNat = lba.toNat % 2 ^ 32 := by
    rw [UInt64.toNat_toUInt32, UInt64.toNat_and]
    show (lba.toNat &&& (2 ^ 32 - 1)) % 2 ^ 32 = _
    rw [Nat.and_two_pow_sub_one_eq_mod, Nat.mod_mod]
  have hhigh : ((lba >>> 32 &&& 0xFFFFFFFF).toUInt32).toNat = lba.toNat / 2 ^ 32 := by
    have hlt := lba.toNat_lt
    rw [UInt64.toNat_toUInt32, UInt64.toNat_and, UInt64.toNat_shiftRight]
    show (lba.toNat >>> 32 &&& (2 ^ 32 - 1)) % 2 ^ 32 = _
    rw [Nat.and_two_pow_sub_one_eq_mod, Nat.mod_mod, Nat.shiftRight_eq_div_pow]
    exact Nat.mod_eq_of_lt (by omega)
  rw [hlow, hhigh, Nat.mod_add_div]

/-- **The entry for a block**: one pointer, 4096 bytes, and the block address modulo `2 ^ 61`. -/
theorem entryFor_block (im : Image) {phys : UInt64} (hphys : phys ≤ hhdmOffset) (opcode : UInt32) (cid : Nat) (b : UInt64) :
    let e := IoCall.entryFor im hhdmOffset opcode cid phys (b * 8) 8
    e.dptr0 = phys ∧ e.dptr1 = 0 ∧ e.dataLength = 4096 ∧ e.diskStart = 4096 * (b.toNat % 2 ^ 61) := by
  refine ⟨if_neg (UInt64.not_lt.mpr hphys), rfl, ?_, ?_⟩
  · show 512 * (((8 - 1 : UInt32) &&& 0xFFFF).toNat % 2 ^ 16 + 1) = 4096
    decide
  show 512 * ((b * 8 &&& 0xFFFFFFFF).toUInt32.toNat
    + 2 ^ 32 * ((b * 8) >>> 32 &&& 0xFFFFFFFF).toUInt32.toNat) = _
  rw [lba_words, UInt64.toNat_mul]
  show 512 * (b.toNat * 8 % 2 ^ 64) = _
  omega

/-- The data of a block that fills a page is that page. -/
theorem dataByte_aligned {e : SubmissionQueueEntry} (h : e.dptr0.toNat % 4096 = 0) {i : Nat} (hi : i < 4096) :
    e.dataByte i = e.dptr0.toNat + i := by
  unfold SubmissionQueueEntry.dataByte
  rw [h]
  exact if_pos hi

variable {K : Bench} {h h' : Host} {handle : Handle} {g : Gaossd Host} {b : UInt64}

/-- A request that succeeds was carried out. -/
theorem request_success {call : IoCall} (hr : request im hhdmOffset K call h = (.success, h')) :
    h' = execute (call.entry im hhdmOffset h.ioSqTail) { h with ioSqTail := (h.ioSqTail + 1) % 64 } := by
  unfold request at hr
  dsimp only at hr
  split at hr
  · cases hr
  · exact (Prod.mk.inj hr).2.symm

/-- **A read that returns true** scatters the block over the bytes the entry names. -/
theorem mem_of_readBlock {h₀ : Host}
    (hr : Storage.readBlock (board im hhdmOffset K) (gaossd (board im hhdmOffset K) h₀).1 handle b v h
      = (true, g, h')) :
    ∃ e, e = IoCall.entryFor im hhdmOffset 0x02 h.ioSqTail (virtToPhys im hhdmOffset v) (b * 8) 8
      ∧ h'.mem = scatter h.mem e.dataByte (fun i => h.disk (e.diskStart + i)) e.dataLength := by
  refine ⟨_, rfl, ?_⟩
  obtain ⟨ssd, h₁, hmade⟩ : ∃ ssd h₁, gaossd (board im hhdmOffset K) h₀ = (ssd, h₁) := ⟨_, _, rfl⟩
  unfold Storage.readBlock at hr
  rw [hmade] at hr
  split at hr
  · cases hr
  · rcases gaossd_cases hmade with ⟨-, hnone, -⟩ | ⟨honly, -⟩
    · rw [transfer_no_device hnone] at hr
      cases hr
    · rw [transfer_nvme honly rfl] at hr
      split at hr
      · obtain ⟨hok, hrest⟩ := Prod.mk.inj hr
        have hsuccess : request im hhdmOffset K (.read (virtToPhys im hhdmOffset v) (b * 8) 8) h
            = (.success, h') := Prod.ext (beq_iff_eq.mp hok) (Prod.mk.inj hrest).2
        rw [request_success hsuccess]
        unfold execute
        rw [if_pos]
        · rfl
        · exact beq_iff_eq.mpr (cdw0_opcode (by decide) _)
      · cases hr

/-- **A write that returns true** gathers the block from the bytes the entry names. -/
theorem disk_of_writeBlock (hinit : h.initialized = true)
    (hw : Storage.writeBlock (board im hhdmOffset K) handle b v h = (true, h')) :
    ∃ e, e = IoCall.entryFor im hhdmOffset 0x01 h.ioSqTail (virtToPhys im hhdmOffset v) (b * 8) 8
      ∧ h'.disk = scatter h.disk (fun i => e.diskStart + i) (fun i => h.mem (e.dataByte i)) e.dataLength := by
  refine ⟨_, rfl, ?_⟩
  obtain ⟨ssd, h₁, hmade⟩ : ∃ ssd h₁, gaossd (board im hhdmOffset K) h = (ssd, h₁) := ⟨_, _, rfl⟩
  unfold Storage.writeBlock at hw
  simp only [hmade] at hw
  split at hw
  · cases hw
  · rcases gaossd_cases hmade with ⟨-, hnone, -⟩ | ⟨honly, bar0, hready⟩
    · rw [transfer_no_device hnone] at hw
      cases hw
    · -- `init` returns at once
      have hfound : (board im hhdmOffset K).nvmeInit bar0 (board im hhdmOffset K).hhdmOffset h = (true, h₁) :=
        hready
      simp only [board, hinit, if_true] at hfound
      obtain rfl := (Prod.mk.inj hfound).2
      rw [transfer_nvme honly rfl] at hw
      split at hw
      · obtain ⟨hok, hrest⟩ := Prod.mk.inj hw
        have hsuccess : request im hhdmOffset K (.write (virtToPhys im hhdmOffset v) (b * 8) 8) h
            = (.success, h') := Prod.ext (beq_iff_eq.mp hok) hrest
        rw [request_success hsuccess]
        unfold execute
        rw [if_neg]
        · rfl
        · intro hread
          have hopcode := (@cdw0_opcode 0x01 (by decide) h.ioSqTail).symm.trans (beq_iff_eq.mp hread)
          exact absurd hopcode (by decide)
      · cases hw

/-- A block is moved exactly when its buffer fills a page and its address is not cut off. -/
theorem exact_of_aligned (hmap : InImage im hhdmOffset v ∨ InDirectMap im hhdmOffset v)
    (halign : (virtToPhys im hhdmOffset v).toNat % 4096 = 0) (hb : b.toNat < 2 ^ 61) :
    ReadsExactly im hhdmOffset v b ∧ WritesExactly im hhdmOffset v b := by
  obtain ⟨hlow, hbehind⟩ := behindByte_eq hmap
  have hphys : virtToPhys im hhdmOffset v ≤ hhdmOffset := UInt64.le_iff_toNat_le.mpr (by omega)
  -- what the entry names, for either opcode
  have hentry : ∀ opcode cid, ∀ e, e = IoCall.entryFor im hhdmOffset opcode cid (virtToPhys im hhdmOffset v)
      (b * 8) 8 → e.dataLength = 4096 ∧ e.diskStart = 4096 * b.toNat
        ∧ ∀ i, i < 4096 → e.dataByte i = behindByte im hhdmOffset v i := by
    rintro opcode cid e rfl
    obtain ⟨hdptr, -, hlength, hstart⟩ := entryFor_block im hphys opcode cid b
    refine ⟨hlength, hstart.trans (by rw [Nat.mod_eq_of_lt hb]), fun i hi => ?_⟩
    rw [dataByte_aligned (by rw [hdptr]; exact halign) hi, hdptr, hbehind i hi]
  refine ⟨?_, ?_⟩
  · intro K h₀ h h' handle g hr
    obtain ⟨e, he, hmem⟩ := mem_of_readBlock hr
    obtain ⟨hlength, hstart, hbytes⟩ := hentry _ _ e he
    rw [hmem, hlength]
    refine ⟨fun i hi => ?_, fun p hp => ?_⟩
    · rw [← hbytes i hi, scatter_at hi, hstart]
      intro j hj heq
      rw [hbytes j hj, hbytes i hi, hbehind j hj, hbehind i hi] at heq
      exact Nat.add_left_cancel heq
    · exact scatter_other fun i hi => by rw [hbytes i hi]; exact hp i hi
  · intro K h h' handle hinit hw
    obtain ⟨e, he, hdisk⟩ := disk_of_writeBlock hinit hw
    obtain ⟨hlength, hstart, hbytes⟩ := hentry _ _ e he
    rw [hdisk, hlength, hstart]
    refine ⟨fun i hi => ?_, fun p hp => scatter_other hp⟩
    rw [← hbytes i hi]
    have hinj : ∀ j, j < 4096 → 4096 * b.toNat + j = 4096 * b.toNat + i → j = i :=
      fun j _ heq => Nat.add_left_cancel heq
    exact @scatter_at h.disk (fun i => 4096 * b.toNat + i) (fun i => h.mem (e.dataByte i)) 4096 i hi hinj

/-- A machine that refuses nothing. -/
def openBench : Bench where
  pcieActive := true
  nvmeBar0 := 1
  firstInit := fun _ _ h => (true, h)
  modelNumber := []
  refuses := fun _ _ => none
  identify := fun h => (true, h)
  identifyNamespace := fun h => (true, h)
  formatNamespace := fun h => (true, h)

/-- On it every read of a block returns true. -/
theorem openBench_reads (im : Image) (hhdmOffset v b : UInt64) (h : Host) :
    ∃ g h', Storage.readBlock (board im hhdmOffset openBench) (gaossd (board im hhdmOffset openBench) h).1 0 b v h
      = (true, g, h') := by
  obtain ⟨mem, disk, tail, ready⟩ := h
  cases ready
  · exact ⟨_, _, rfl⟩
  · exact ⟨_, _, rfl⟩

/-- A buffer that does not fill a page misses its second part; an address that is cut off is another block. -/
theorem aligned_of_reads (hmap : InImage im hhdmOffset v ∨ InDirectMap im hhdmOffset v)
    (hexact : ReadsExactly im hhdmOffset v b) :
    (virtToPhys im hhdmOffset v).toNat % 4096 = 0 ∧ b.toNat < 2 ^ 61 := by
  obtain ⟨hlow, hbehind⟩ := behindByte_eq hmap
  have hphys : virtToPhys im hhdmOffset v ≤ hhdmOffset := UInt64.le_iff_toNat_le.mpr (by omega)
  refine ⟨?_, ?_⟩
  · by_contra hoff
    -- zero memory, a device full of ones: the first byte of the second page stays zero
    obtain ⟨h, hh⟩ : ∃ h : Host, h = ⟨fun _ => 0, fun _ => 1, 0, true⟩ := ⟨_, rfl⟩
    obtain ⟨g, h', hr⟩ := openBench_reads im hhdmOffset v b h
    obtain ⟨e, he, hmem⟩ := mem_of_readBlock hr
    obtain ⟨hdptr₀, hdptr₁, hlength, -⟩ := entryFor_block im hphys 0x02 h.ioSqTail b
    rw [← he] at hdptr₀ hdptr₁ hlength
    obtain ⟨first, hfirst⟩ : ∃ first, first = 4096 - (virtToPhys im hhdmOffset v).toNat % 4096 := ⟨_, rfl⟩
    have hlt : first < 4096 := by omega
    -- the second pointer is null, so what is behind the first page goes to the bottom of memory
    have hmiss : ∀ i, i < 4096 → e.dataByte i ≠ (virtToPhys im hhdmOffset v).toNat + first := by
      intro i hi
      unfold SubmissionQueueEntry.dataByte
      rw [hdptr₀, hdptr₁, ← hfirst]
      show (if i < first then (virtToPhys im hhdmOffset v).toNat + i else 0 + (i - first)) ≠ _
      split <;> omega
    have hone := (hexact openBench h h h' 0 g hr).1 first hlt
    rw [hbehind first hlt, hmem, hlength, scatter_other hmiss, hh] at hone
    exact absurd (show (0 : UInt8) = 1 from hone) (by decide)
  · by_contra hlarge
    -- a device that holds ones from block `2 ^ 61` on, and zeros below
    obtain ⟨h, hh⟩ : ∃ h : Host,
        h = ⟨fun _ => 0, fun p => if p < 4096 * 2 ^ 61 then 0 else 1, 0, true⟩ := ⟨_, rfl⟩
    obtain ⟨g, h', hr⟩ := openBench_reads im hhdmOffset v b h
    obtain ⟨e, he, hmem⟩ := mem_of_readBlock hr
    obtain ⟨-, -, hlength, hstart⟩ := entryFor_block im hphys 0x02 h.ioSqTail b
    rw [← he] at hlength hstart
    have hzero : ∀ p, h'.mem p = 0 := by
      intro p
      rw [hmem, hlength, hh]
      -- modulo `2 ^ 61` the block is one of those that hold zeros
      refine scatter_const (fun _ => rfl) (fun i hi => if_pos ?_) p
      have hmod := Nat.mod_lt b.toNat (show 0 < 2 ^ 61 by decide)
      omega
    have hone := (hexact openBench h h h' 0 g hr).1 0 (by decide)
    rw [hzero, hh] at hone
    have hbeyond : ¬ 4096 * b.toNat + 0 < 4096 * 2 ^ 61 := by omega
    exact absurd (hone.trans (if_neg hbeyond)) (by decide)

/-- **A block transfer covers the whole buffer** exactly when the buffer fills a physical page and the block
    address is below `2 ^ 61`. -/
theorem exact_iff_aligned (hmap : InImage im hhdmOffset v ∨ InDirectMap im hhdmOffset v) :
    ReadsExactly im hhdmOffset v b ∧ WritesExactly im hhdmOffset v b
      ↔ (virtToPhys im hhdmOffset v).toNat % 4096 = 0 ∧ b.toNat < 2 ^ 61 :=
  ⟨fun hexact => aligned_of_reads hmap hexact.1, fun halign => exact_of_aligned hmap halign.1 halign.2⟩

/-- An image with the kernel at the addresses of the boot loader. -/
def limineImage : Image :=
  ⟨some (0xFFFFFFFF80000000, 0x100000), 0xFFFFFFFF80001000, 0xFFFFFFFF80002000, 0xFFFFFFFF80003000,
    0xFFFFFFFF80004000, 0xFFFFFFFF80005000⟩

theorem direct_mapped {v : UInt64} (h : 0xFFFF800000000000 ≤ v.toNat ∧ v.toNat ≤ 0xFFFF800100000000) :
    InDirectMap limineImage 0xFFFF800000000000 v := by
  refine ⟨?_, UInt64.le_iff_toNat_le.mpr h.1, by omega, ?_⟩
  · intro kVirt kPhys hk
    obtain ⟨rfl, rfl⟩ := Prod.mk.inj (Option.some.inj hk)
    show _ ≤ 0xFFFFFFFF80000000
    omega
  · show v.toNat - 0xFFFF800000000000 + 4096 ≤ 0xFFFF800000000000
    omega

/-- A page of the direct map. -/
theorem exact_iff_aligned_page : ReadsExactly limineImage 0xFFFF800000000000 0xFFFF800000200000 1
    ∧ WritesExactly limineImage 0xFFFF800000000000 0xFFFF800000200000 1 :=
  (exact_iff_aligned (Or.inr (direct_mapped (by decide)))).mpr (by decide)

/-- **A buffer behind the header of a heap block** is not filled. -/
theorem not_exact_of_heap_buffer :
    ¬ ∀ (im : Image) (hhdmOffset v b : UInt64), InImage im hhdmOffset v ∨ InDirectMap im hhdmOffset v →
      v.toNat % 16 = 0 → ReadsExactly im hhdmOffset v b ∧ WritesExactly im hhdmOffset v b := by
  intro hall
  have hmap : InDirectMap limineImage 0xFFFF800000000000 0xFFFF800000200020 := direct_mapped (by decide)
  have hexact := hall limineImage 0xFFFF800000000000 0xFFFF800000200020 1 (Or.inr hmap) (by decide)
  exact absurd (aligned_of_reads (Or.inr hmap) hexact.1).1 (by decide)

end AlopexOS.Nvme
