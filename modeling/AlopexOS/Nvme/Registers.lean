import AlopexOS.Nvme.AdminRing

/-!
# `Nvme.Registers` — what the driver tells the controller

`Nvme.Controller` has the driver and the controller share what was rung and whether the controller is enabled.
In the machine there is nothing but stores to registers, at addresses that `init` computes from the BAR and from
`CAP`. Here each step of the driver is given its stores, and a controller that knows the register map and nothing
else listens to them.

## Contents

- **Stores.** What each function of the driver stores, and where.
- **The controller's ear.** `Told` and `hear`, which refuses a store the controller does not expect.
- **Doorbells** arrive at the queue they are for, for every stride.
- **Every run** is understood, and what was told is the state of the system.
-/

namespace AlopexOS.Nvme

open QueuePair

/-! ## Stores -/

/-- A store to an address; a word of 32 bits is extended. -/
structure RegStore where
  addr : UInt64
  value : UInt64
  deriving DecidableEq

/-- Where the admin queues lie too. -/
structure RegImage extends Image where
  adminSq : UInt64
  adminCq : UInt64

/-- `m_db_stride`. -/
def dbStride (cap : UInt64) : UInt32 := ((cap >>> 32) &&& 0xF).toUInt32

/-- `ring_sq_doorbell`: the store to the tail doorbell of a submission queue. -/
def ringSqDoorbell (regs : UInt64) (dbStride qid : UInt32) (value : UInt16) : RegStore :=
  let base := regs + 0x1000
  let strideBytes := (4 : UInt32) <<< dbStride
  let offset := (2 * qid) * strideBytes
  ⟨base + offset.toUInt64, value.toUInt64⟩

/-- `ring_cq_doorbell`: the store to the head doorbell of a completion queue. -/
def ringCqDoorbell (regs : UInt64) (dbStride qid : UInt32) (value : UInt16) : RegStore :=
  let base := regs + 0x1000
  let offset := (2 * qid + 1) * ((4 : UInt32) <<< dbStride)
  ⟨base + offset.toUInt64, value.toUInt64⟩

/-- `cc &= ~0x1u`. -/
def disabledCc (cc : UInt32) : UInt32 := cc &&& ~~~0x1

/-- What `enable` makes of `CC`. -/
def enabledCc (cc : UInt32) : UInt32 :=
  let cc := cc &&& ~~~((0x7 : UInt32) <<< 4)
  let cc := cc &&& ~~~((0xF : UInt32) <<< 16)
  let cc := cc &&& ~~~((0xF : UInt32) <<< 20)
  let cc := cc ||| ((0 : UInt32) <<< 4)
  let cc := cc ||| ((6 : UInt32) <<< 16)
  let cc := cc ||| ((4 : UInt32) <<< 20)
  cc ||| 0x1

/-- The stores of `init` between its look at `CC` and `enable`. -/
def initStores (im : RegImage) (regs hhdmOffset : UInt64) (cc : UInt32) : List RegStore :=
  (if cc &&& 0x1 ≠ 0 then [⟨regs + 0x14, (disabledCc cc).toUInt64⟩] else [])
    ++ [⟨regs + 0x24, (((63 : UInt32) <<< 16) ||| 63).toUInt64⟩,
        ⟨regs + 0x28, virtToPhys im.toImage hhdmOffset im.adminSq⟩,
        ⟨regs + 0x30, virtToPhys im.toImage hhdmOffset im.adminCq⟩]

/-- The system with what the driver knows of the registers. -/
structure Wired where
  sys : System
  /-- `m_regs` and `m_db_stride`. -/
  regs : UInt64
  dbStride : UInt32
  /-- The admin call in progress is `init`, not `reset`. -/
  initializing : Bool

/-- What happens. A step that loads `CC` gets `cc`. -/
inductive WiredEvent where
  | admin (ev : AdminEvent) (cc : UInt32)
  | io (ev : IoEvent)

/-- The stores of a step. -/
def Wired.stores (im : RegImage) (w : Wired) : WiredEvent → List RegStore
  | .admin .disable cc =>
      if w.initializing = true then initStores im w.regs w.sys.ctrl.hhdmOffset cc
      else [⟨w.regs + 0x14, (disabledCc cc).toUInt64⟩]
  | .admin (.enable _) cc => [⟨w.regs + 0x14, (enabledCc cc).toUInt64⟩]
  | .admin (.queue .ring) _ => [ringSqDoorbell w.regs w.dbStride 0 (UInt16.ofNat w.sys.ctrl.sqTail)]
  | .admin (.queue (.take _ _)) _ =>
      [ringCqDoorbell w.regs w.dbStride 0 (UInt16.ofNat w.sys.ctrl.consumeAdmin.cqHead)]
  | .io .ring => [ringSqDoorbell w.regs w.dbStride 1 (UInt16.ofNat w.sys.ctrl.ioSqTail)]
  | .io (.take _ _) => [ringCqDoorbell w.regs w.dbStride 1 (UInt16.ofNat w.sys.ctrl.consumeIo.ioCqHead)]
  | _ => []

/-- A call begins; `init` computes where the registers are, unless it returns at once. -/
def Wired.started (cap : UInt64) (w : Wired) (t : System) : AdminCall → Wired
  | .init bar0 hhdmOffset =>
      if w.sys.ctrl.initialized = true ∨ bar0 = 0 then { w with sys := t }
      else ⟨t, bar0 + hhdmOffset, Nvme.dbStride cap, true⟩
  | _ => { w with sys := t, initializing := false }

/-- The driver makes one call at a time. It is called for the controller whose registers are at `base` and
    report `cap`, and `CC.EN` reads back as it was stored. -/
inductive WiredStep (im : RegImage) (base cap : UInt64) (w : Wired) :
    WiredEvent × List RegStore → Wired → Prop
  | start {call : AdminCall} {cc : UInt32} {t : System} (hs : adminStep im.toImage w.sys (.start call) = some t)
      (hidle : w.sys.ioTurn = .idle)
      (hbar : ∀ bar0 hhdmOffset, call = .init bar0 hhdmOffset → bar0 + hhdmOffset = base) :
      WiredStep im base cap w (.admin (.start call) cc, []) (w.started cap t call)
  | admin {ev : AdminEvent} {cc : UInt32} {t : System} (hs : adminStep im.toImage w.sys ev = some t)
      (hstart : ∀ call, ev ≠ .start call) (hcc : cc &&& 0x1 ≠ 0 ↔ w.sys.enabled = true) :
      WiredStep im base cap w (.admin ev cc, w.stores im (.admin ev cc)) { w with sys := t }
  | io {ev : IoEvent} {t : System} (hs : ioStep im.toImage w.sys ev = some t)
      (hbuild : ∀ call, ev = .build call →
        w.sys.ctrl.initialized = true ∧ w.sys.turn = .idle ∧ w.sys.script = []) :
      WiredStep im base cap w (.io ev, w.stores im (.io ev)) { w with sys := t }

/-! ## The controller's ear -/

/-- What a controller was told since it was disabled last; its queues and what is in `CC` last longer. -/
structure Told where
  enabled : Bool
  cc : UInt32
  aqa : UInt32
  asq : UInt64
  acq : UInt64
  /-- By the number of the doorbell: the tail of submission queue `q` is number `2 * q`, the head of completion
      queue `q` number `2 * q + 1`. -/
  doorbell : Nat → Nat

/-- The doorbell `n` rings with `value`. -/
def Told.ring (t : Told) (n value : Nat) : Told := { t with doorbell := Function.update t.doorbell n value }

/-- How many bytes it is from a doorbell to the next. -/
def doorbellStride (cap : UInt64) : Nat := 4 * 2 ^ (cap.toNat / 2 ^ 32 % 16)

/-- What the controller at `base` makes of a store. It expects the admin queues to be set while it is disabled,
    doorbells while it is enabled, and no store to anything else. -/
def Told.hear (base cap : UInt64) (t : Told) (s : RegStore) : Option Told :=
  let offset := (s.addr - base).toNat
  if offset = 0x14 then
    if s.value.toNat % 2 = 0 then
      some { t with enabled := false, doorbell := if t.enabled then fun _ => 0 else t.doorbell }
    else if t.enabled then none
    else some { t with enabled := true, cc := s.value.toUInt32 }
  else if offset < 0x1000 then
    if t.enabled then none
    else if offset = 0x24 then some { t with aqa := s.value.toUInt32 }
    else if offset = 0x28 then some { t with asq := s.value }
    else if offset = 0x30 then some { t with acq := s.value }
    else none
  else if t.enabled ∧ (offset - 0x1000) % doorbellStride cap = 0 then
    some (t.ring ((offset - 0x1000) / doorbellStride cap) s.value.toNat)
  else none

/-- The same for stores one after the other. -/
def Told.hearAll (base cap : UInt64) (t : Told) (stores : List RegStore) : Option Told :=
  stores.foldlM (Told.hear base cap) t

/-! ## Doorbells -/

variable {im : RegImage} {base cap : UInt64} {t t' : Told} {s s' : System} {w w' : Wired}

theorem Told.ring_self (t : Told) (n value : Nat) : (t.ring n value).doorbell n = value :=
  Function.update_self ..

theorem Told.ring_of_ne (t : Told) {n k : Nat} (value : Nat) (h : k ≠ n) :
    (t.ring n value).doorbell k = t.doorbell k := Function.update_of_ne h ..

theorem toNat_dbStride (cap : UInt64) : (dbStride cap).toNat = cap.toNat / 2 ^ 32 % 16 := by
  have hmask : (0xF : UInt64).toNat = 2 ^ 4 - 1 := rfl
  have hshift : (32 : UInt64).toNat % 64 = 32 := rfl
  rw [dbStride, UInt64.toNat_toUInt32, UInt64.toNat_and, UInt64.toNat_shiftRight, hmask,
    Nat.and_two_pow_sub_one_eq_mod, hshift, Nat.shiftRight_eq_div_pow]
  omega

theorem doorbellStride_le (cap : UInt64) : doorbellStride cap ≤ 2 ^ 17 := by
  have hpow : 2 ^ (cap.toNat / 2 ^ 32 % 16) ≤ 2 ^ 15 := Nat.pow_le_pow_right (by decide) (by omega)
  unfold doorbellStride
  omega

theorem doorbellStride_pos (cap : UInt64) : 0 < doorbellStride cap :=
  Nat.mul_pos (by decide) (Nat.pow_pos (by decide))

/-- The driver's stride is the controller's. -/
theorem toNat_strideBytes (cap : UInt64) : ((4 : UInt32) <<< dbStride cap).toNat = doorbellStride cap := by
  have hle := doorbellStride_le cap
  have hlt : cap.toNat / 2 ^ 32 % 16 < 32 := by omega
  rw [UInt32.toNat_shiftLeft, toNat_dbStride, Nat.shiftLeft_eq, Nat.mod_eq_of_lt hlt]
  show doorbellStride cap % 2 ^ 32 = _
  exact Nat.mod_eq_of_lt (by omega)

/-- Where a store is heard that is made some way behind `base`. -/
theorem toNat_offset (base : UInt64) (offset : UInt32) :
    (base + 0x1000 + offset.toUInt64 - base).toNat = 0x1000 + offset.toNat := by
  have hbase := base.toNat_lt
  have hoffset := offset.toNat_lt
  have h0 : (0x1000 : UInt64).toNat = 0x1000 := rfl
  rw [UInt64.toNat_sub, UInt64.toNat_add, UInt64.toNat_add, UInt32.toNat_toUInt64]
  omega

/-- **A store at a multiple of the stride** reaches the doorbell of that number. -/
theorem hear_doorbell {offset : UInt32} {value : UInt64} {n : Nat} (hon : t.enabled = true)
    (hoffset : offset.toNat = n * doorbellStride cap) :
    Told.hear base cap t ⟨base + 0x1000 + offset.toUInt64, value⟩
      = some (t.ring n value.toNat) := by
  have hcc : ¬ 0x1000 + n * doorbellStride cap = 0x14 := by omega
  have hregs : ¬ 0x1000 + n * doorbellStride cap < 0x1000 := by omega
  simp only [Told.hear, toNat_offset, if_neg hcc, if_neg hregs, Nat.add_sub_cancel_left, hoffset,
    Nat.mul_mod_left, Nat.mul_div_cancel _ (doorbellStride_pos cap), hon, and_self, if_true]

/-- **The doorbell of a submission queue.** -/
theorem hear_sqDoorbell {qid : UInt32} {value : UInt16} (hon : t.enabled = true) (hq : qid.toNat < 2 ^ 12) :
    Told.hear base cap t (ringSqDoorbell base (dbStride cap) qid value)
      = some (t.ring (2 * qid.toNat) value.toNat) := by
  have hoffset : (2 * qid * ((4 : UInt32) <<< dbStride cap)).toNat = 2 * qid.toNat * doorbellStride cap := by
    have h2 : (2 : UInt32).toNat = 2 := rfl
    have hprod : 2 * qid.toNat * doorbellStride cap ≤ 2 ^ 13 * 2 ^ 17 :=
      Nat.mul_le_mul (by omega) (doorbellStride_le cap)
    rw [UInt32.toNat_mul, UInt32.toNat_mul, toNat_strideBytes, h2,
      Nat.mod_eq_of_lt (show 2 * qid.toNat < 2 ^ 32 by omega), Nat.mod_eq_of_lt (by omega)]
  exact hear_doorbell hon hoffset

/-- **The doorbell of a completion queue.** -/
theorem hear_cqDoorbell {qid : UInt32} {value : UInt16} (hon : t.enabled = true) (hq : qid.toNat < 2 ^ 12) :
    Told.hear base cap t (ringCqDoorbell base (dbStride cap) qid value)
      = some (t.ring (2 * qid.toNat + 1) value.toNat) := by
  have hoffset : ((2 * qid + 1) * ((4 : UInt32) <<< dbStride cap)).toNat
      = (2 * qid.toNat + 1) * doorbellStride cap := by
    have h2 : (2 : UInt32).toNat = 2 := rfl
    have h1 : (1 : UInt32).toNat = 1 := rfl
    have hprod : (2 * qid.toNat + 1) * doorbellStride cap ≤ 2 ^ 13 * 2 ^ 17 :=
      Nat.mul_le_mul (by omega) (doorbellStride_le cap)
    rw [UInt32.toNat_mul, UInt32.toNat_add, UInt32.toNat_mul, toNat_strideBytes, h2, h1,
      Nat.mod_eq_of_lt (show 2 * qid.toNat < 2 ^ 32 by omega),
      Nat.mod_eq_of_lt (show 2 * qid.toNat + 1 < 2 ^ 32 by omega), Nat.mod_eq_of_lt (by omega)]
  exact hear_doorbell hon hoffset

/-! ## Setting up -/

/-- What `enable` keeps of `CC`, and what it sets. -/
theorem enabledCc_eq (cc : UInt32) : enabledCc cc = cc &&& 0xFF00FF8F ||| 0x00460001 := by
  simp only [enabledCc, UInt32.and_assoc, UInt32.or_assoc]
  rfl

/-- `CC` asks for entries of 64 and of 16 bytes and for the NVM command set, and enables. -/
def Configured (cc : UInt32) : Prop := cc &&& 0xFF0071 = 0x460001

theorem configured_enabledCc (cc : UInt32) : Configured (enabledCc cc) := by
  have hkept : (0xFF00FF8F : BitVec 32) &&& 0xFF0071 ||| 0x460001 = 0x460001 := rfl
  have hset : (0x460001 : BitVec 32) &&& 0xFF0071 = 0x460001 := rfl
  rw [Configured, enabledCc_eq, ← UInt32.toBitVec_inj]
  show (cc.toBitVec &&& 0xFF00FF8F ||| 0x460001) &&& 0xFF0071 = (0x460001 : BitVec 32)
  rw [BitVec.and_or_distrib_right, hset, BitVec.and_assoc]
  generalize (0xFF00FF8F : BitVec 32) &&& 0xFF0071 = kept at *
  calc cc.toBitVec &&& kept ||| 0x460001 = cc.toBitVec &&& kept ||| (kept ||| 0x460001) := by rw [hkept]
    _ = (cc.toBitVec &&& kept ||| kept) ||| 0x460001 := (BitVec.or_assoc _ _ _).symm
    _ = kept ||| 0x460001 := by
        congr 1
        ext i hi
        simp
    _ = 0x460001 := hkept

theorem toNat_register (base offset : UInt64) : (base + offset - base).toNat = offset.toNat := by
  rw [UInt64.add_comm, UInt64.add_sub_cancel]

/-- The bit `EN` of a word as it is stored. -/
theorem enable_bit (cc : UInt32) : cc.toUInt64.toNat % 2 = (cc &&& 0x1).toNat := by
  rw [UInt32.toNat_toUInt64, UInt32.toNat_and]
  exact (Nat.and_one_is_mod cc.toNat).symm

/-- **Disabling**: the doorbells of a controller that was enabled are forgotten. -/
theorem hear_disable (t : Told) (cc : UInt32) :
    Told.hear base cap t ⟨base + 0x14, (disabledCc cc).toUInt64⟩
      = some { t with enabled := false, doorbell := if t.enabled then fun _ => 0 else t.doorbell } := by
  have hbit : disabledCc cc &&& 0x1 = 0 := by
    rw [disabledCc, UInt32.and_assoc]
    exact UInt32.and_zero
  have heven : (disabledCc cc).toUInt64.toNat % 2 = 0 := by
    rw [enable_bit, hbit]
    rfl
  have hoffset : (base + 0x14 - base).toNat = 0x14 := toNat_register base 0x14
  simp only [Told.hear, hoffset, heven, if_true]

/-- **Enabling** a controller that is disabled. -/
theorem hear_enable (hoff : t.enabled = false) (cc : UInt32) :
    Told.hear base cap t ⟨base + 0x14, (enabledCc cc).toUInt64⟩
      = some { t with enabled := true, cc := enabledCc cc } := by
  have hbit : enabledCc cc &&& 0x1 = 1 := by
    calc enabledCc cc &&& 0x1 = (enabledCc cc &&& 0xFF0071) &&& 0x1 := by
          rw [UInt32.and_assoc]
          rfl
      _ = 1 := by
          rw [configured_enabledCc]
          rfl
  have hodd : (enabledCc cc).toUInt64.toNat % 2 = 1 := by
    rw [enable_bit, hbit]
    rfl
  have hoffset : (base + 0x14 - base).toNat = 0x14 := toNat_register base 0x14
  simp only [Told.hear, hoffset, hodd, hoff, UInt32.toUInt32_toUInt64, if_true, if_false, Nat.one_ne_zero,
    Bool.false_eq_true]

/-- The registers of the admin queues hold what `init` puts there: 64 entries each, and where the queues are. -/
structure Told.Programmed (im : RegImage) (hhdmOffset : UInt64) (t : Told) : Prop where
  aqa : t.aqa = 0x3F003F
  asq : t.asq = virtToPhys im.toImage hhdmOffset im.adminSq
  acq : t.acq = virtToPhys im.toImage hhdmOffset im.adminCq

theorem hear_aqa (hoff : t.enabled = false) (value : UInt64) :
    Told.hear base cap t ⟨base + 0x24, value⟩ = some { t with aqa := value.toUInt32 } := by
  have hoffset : (base + 0x24 - base).toNat = 0x24 := toNat_register base 0x24
  simp only [Told.hear, hoffset, hoff]
  rfl

theorem hear_asq (hoff : t.enabled = false) (value : UInt64) :
    Told.hear base cap t ⟨base + 0x28, value⟩ = some { t with asq := value } := by
  have hoffset : (base + 0x28 - base).toNat = 0x28 := toNat_register base 0x28
  simp only [Told.hear, hoffset, hoff]
  rfl

theorem hear_acq (hoff : t.enabled = false) (value : UInt64) :
    Told.hear base cap t ⟨base + 0x30, value⟩ = some { t with acq := value } := by
  have hoffset : (base + 0x30 - base).toNat = 0x30 := toNat_register base 0x30
  simp only [Told.hear, hoffset, hoff]
  rfl

/-- **The stores of `init`** before `enable`, whether the controller is enabled or not. -/
theorem hearAll_initStores {cc : UInt32} (hhdmOffset : UInt64) (hcc : cc &&& 0x1 ≠ 0 ↔ t.enabled = true) :
    ∃ t', Told.hearAll base cap t (initStores im base hhdmOffset cc) = some t' ∧ t'.enabled = false
      ∧ t'.doorbell = (if t.enabled then fun _ => 0 else t.doorbell) ∧ t'.Programmed im hhdmOffset := by
  have hqueues : ∀ t₁ : Told, t₁.enabled = false →
      ∃ t', Told.hearAll base cap t₁ [⟨base + 0x24, (((63 : UInt32) <<< 16) ||| 63).toUInt64⟩,
          ⟨base + 0x28, virtToPhys im.toImage hhdmOffset im.adminSq⟩,
          ⟨base + 0x30, virtToPhys im.toImage hhdmOffset im.adminCq⟩] = some t'
        ∧ t'.enabled = false ∧ t'.doorbell = t₁.doorbell ∧ t'.Programmed im hhdmOffset := by
    intro t₁ hoff
    refine ⟨{ t₁ with
      aqa := (((63 : UInt32) <<< 16) ||| 63).toUInt64.toUInt32
      asq := virtToPhys im.toImage hhdmOffset im.adminSq
      acq := virtToPhys im.toImage hhdmOffset im.adminCq }, ?_, hoff, rfl, rfl, rfl, rfl⟩
    simp only [Told.hearAll, List.foldlM_cons, List.foldlM_nil, Option.bind_eq_bind]
    rw [hear_aqa hoff, Option.bind_some, hear_asq, Option.bind_some, hear_acq, Option.bind_some]
    · rfl
    · exact hoff
    · exact hoff
  unfold initStores
  by_cases hen : t.enabled = true
  · rw [if_pos (hcc.mpr hen)]
    obtain ⟨t', ht', hoff, hbells, hset⟩ :=
      hqueues { t with enabled := false, doorbell := if t.enabled then fun _ => 0 else t.doorbell } rfl
    refine ⟨t', ?_, hoff, hbells, hset⟩
    rw [Told.hearAll, List.foldlM_append]
    show ((Told.hear base cap t _).bind fun t₁ => some t₁).bind _ = _
    rw [hear_disable]
    exact ht'
  · rw [if_neg (mt hcc.mp hen), List.nil_append]
    obtain ⟨t', ht', hoff, hbells, hset⟩ := hqueues t (by simpa using hen)
    exact ⟨t', ht', hoff, by rw [hbells, if_neg hen], hset⟩

/-! ## Every run -/

/-- What the controller was told is what the system has. -/
structure Told.Agrees (t : Told) (s : System) : Prop where
  enabled : t.enabled = s.enabled
  sqTail : t.doorbell 0 = s.admin.rung
  cqHead : t.doorbell 1 = s.admin.freed
  ioSqTail : t.doorbell 2 = s.io.rung
  ioCqHead : t.doorbell 3 = s.io.freed

/-- Nothing of a script disables or enables the controller. -/
def Past (script : List Action) : Prop := .disable ∉ script ∧ .enable ∉ script

/-- Where the driver is with the controller. -/
inductive Phase (im : RegImage) (w : Wired) (t : Told) : Prop
  | unset (hregs : w.sys.ctrl.hasRegs = false) (hscript : w.sys.script = []) (hturn : w.sys.turn = .idle)
  | disabling {rest : List Action} (hregs : w.sys.ctrl.hasRegs = true)
      (hscript : w.sys.script = .disable :: .enable :: rest) (hpast : Past rest) (hturn : w.sys.turn = .idle)
      -- `reset` leaves the registers as an `init` before has set them
      (hset : w.initializing = false → t.Programmed im w.sys.ctrl.hhdmOffset)
  | enabling {rest : List Action} (hregs : w.sys.ctrl.hasRegs = true) (hscript : w.sys.script = .enable :: rest)
      (hpast : Past rest) (hturn : w.sys.turn = .idle) (hoff : w.sys.enabled = false)
      (hset : t.Programmed im w.sys.ctrl.hhdmOffset)
  | working (hregs : w.sys.ctrl.hasRegs = true) (hpast : Past w.sys.script) (hon : w.sys.enabled = true)
      (hset : t.Programmed im w.sys.ctrl.hhdmOffset) (hconf : Configured t.cc)

/-- What holds between the driver and a controller that heard all its stores. -/
structure Heard (im : RegImage) (base cap : UInt64) (w : Wired) (t : Told) : Prop where
  agrees : t.Agrees w.sys
  phase : Phase im w t
  regs : w.sys.ctrl.hasRegs = true → w.regs = base ∧ w.dbStride = dbStride cap
  initialized : w.sys.ctrl.initialized = true → w.sys.ctrl.hasRegs = true
  built : ∀ call, w.sys.turn = .built call → w.sys.ctrl.sqTail < 64
  ioBuilt : ∀ call, w.sys.ioTurn = .built call → w.sys.ctrl.ioSqTail < 64
  alone : w.sys.ioTurn ≠ .idle → w.sys.ctrl.initialized = true ∧ w.sys.turn = .idle ∧ w.sys.script = []

/-- A step that has nothing to do with the registers. -/
structure Quiet (s s' : System) : Prop where
  script : s'.script = s.script
  enabled : s'.enabled = s.enabled
  hasRegs : s'.ctrl.hasRegs = s.ctrl.hasRegs
  initialized : s'.ctrl.initialized = s.ctrl.initialized
  hhdmOffset : s'.ctrl.hhdmOffset = s.ctrl.hhdmOffset
  idle : s'.turn = .idle ↔ s.turn = .idle
  ioIdle : s'.ioTurn = .idle ↔ s.ioTurn = .idle
  built : ∀ call, s'.turn = .built call → s.turn = .built call ∧ s'.ctrl.sqTail = s.ctrl.sqTail
  ioBuilt : ∀ call, s'.ioTurn = .built call → s.ioTurn = .built call ∧ s'.ctrl.ioSqTail = s.ctrl.ioSqTail
  admin : s'.admin.rung = s.admin.rung ∧ s'.admin.freed = s.admin.freed
  io : s'.io.rung = s.io.rung ∧ s'.io.freed = s.io.freed

theorem Told.Agrees.of_eq (h : t.Agrees s) (hen : s'.enabled = s.enabled) (hadmin : s'.admin = s.admin)
    (hio : s'.io = s.io) : t.Agrees s' := by
  refine ⟨h.enabled.trans hen.symm, ?_, ?_, ?_, ?_⟩
  · rw [hadmin]
    exact h.sqTail
  · rw [hadmin]
    exact h.cqHead
  · rw [hio]
    exact h.ioSqTail
  · rw [hio]
    exact h.ioCqHead

theorem Told.Agrees.quiet (h : t.Agrees s) (hq : Quiet s s') : t.Agrees s' where
  enabled := h.enabled.trans hq.enabled.symm
  sqTail := h.sqTail.trans hq.admin.1.symm
  cqHead := h.cqHead.trans hq.admin.2.symm
  ioSqTail := h.ioSqTail.trans hq.io.1.symm
  ioCqHead := h.ioCqHead.trans hq.io.2.symm

theorem Heard.quiet (h : Heard im base cap w t) (hq : Quiet w.sys s') :
    Heard im base cap { w with sys := s' } t where
  agrees := h.agrees.quiet hq
  phase := by
    cases h.phase with
    | unset hregs hscript hturn =>
        exact .unset (hq.hasRegs.trans hregs) (hq.script.trans hscript) (hq.idle.mpr hturn)
    | disabling hregs hscript hpast hturn hset =>
        refine .disabling (hq.hasRegs.trans hregs) (hq.script.trans hscript) hpast (hq.idle.mpr hturn) ?_
        show w.initializing = false → t.Programmed im s'.ctrl.hhdmOffset
        rw [hq.hhdmOffset]
        exact hset
    | enabling hregs hscript hpast hturn hoff hset =>
        refine .enabling (hq.hasRegs.trans hregs) (hq.script.trans hscript) hpast (hq.idle.mpr hturn)
          (hq.enabled.trans hoff) ?_
        show t.Programmed im s'.ctrl.hhdmOffset
        rw [hq.hhdmOffset]
        exact hset
    | working hregs hpast hon hset hconf =>
        refine .working (hq.hasRegs.trans hregs) ?_ (hq.enabled.trans hon) ?_ hconf
        · show Past s'.script
          rw [hq.script]
          exact hpast
        · show t.Programmed im s'.ctrl.hhdmOffset
          rw [hq.hhdmOffset]
          exact hset
  regs hregs := h.regs (hq.hasRegs.symm.trans hregs)
  initialized hinit := hq.hasRegs.trans (h.initialized (hq.initialized.symm.trans hinit))
  built call hcall := by
    obtain ⟨hturn, htail⟩ := hq.built call hcall
    show s'.ctrl.sqTail < 64
    rw [htail]
    exact h.built call hturn
  ioBuilt call hcall := by
    obtain ⟨hturn, htail⟩ := hq.ioBuilt call hcall
    show s'.ctrl.ioSqTail < 64
    rw [htail]
    exact h.ioBuilt call hturn
  alone hbusy := by
    obtain ⟨hinit, hturn, hscript⟩ := h.alone (mt hq.ioIdle.mpr hbusy)
    exact ⟨hq.initialized.trans hinit, hq.idle.mpr hturn, hq.script.trans hscript⟩

/-- A call that works on an enabled controller begins: the registers are set already. -/
theorem Heard.working (h : Heard im base cap w t) (hregs : w.sys.ctrl.hasRegs = true)
    (hscript : w.sys.script = []) :
    w.sys.enabled = true ∧ t.Programmed im w.sys.ctrl.hhdmOffset ∧ Configured t.cc := by
  cases h.phase with
  | unset hno => exact absurd (hno.symm.trans hregs) (by decide)
  | disabling _ hs => exact absurd (hscript.symm.trans hs) (by simp)
  | enabling _ hs => exact absurd (hscript.symm.trans hs) (by simp)
  | working _ _ hon hset hconf => exact ⟨hon, hset, hconf⟩

/-- **A call begins.** -/
theorem Heard.start {call : AdminCall} (h : Heard im base cap w t)
    (hs : adminStep im.toImage w.sys (.start call) = some s') (hidle : w.sys.ioTurn = .idle)
    (hbar : ∀ bar0 hhdmOffset, call = .init bar0 hhdmOffset → bar0 + hhdmOffset = base) :
    Heard im base cap (w.started cap s' call) t := by
  simp only [adminStep] at hs
  split at hs
  · rename_i hturn hscript
    -- all other calls need registers, and leave the driver as it is but for the script
    have hother : ∀ call' : AdminCall, (if w.sys.ctrl.hasRegs = true then
          some { w.sys with script := call'.script } else none) = some s' →
        (call' = .reset ∨ Past call'.script) →
        Heard im base cap { w with sys := s', initializing := false } t := by
      intro call' hs hkind
      split at hs
      · rename_i hregs
        obtain rfl := Option.some.inj hs
        obtain ⟨hon, hset, hconf⟩ := h.working hregs hscript
        refine ⟨h.agrees.of_eq rfl rfl rfl, ?_, h.regs, h.initialized, h.built,
          h.ioBuilt, fun hbusy => absurd hidle hbusy⟩
        rcases hkind with rfl | hpast
        · exact .disabling hregs rfl ⟨List.not_mem_nil, List.not_mem_nil⟩ hturn fun _ => hset
        · exact .working hregs hpast hon hset hconf
      · cases hs
    cases call with
    | init bar0 hhdmOffset =>
        simp only [startCall] at hs
        dsimp only [Wired.started]
        split at hs
        · rename_i hreturn
          obtain rfl := Option.some.inj hs
          rw [if_pos hreturn]
          exact h
        · rename_i hnew
          obtain rfl := Option.some.inj hs
          rw [if_neg hnew]
          refine ⟨h.agrees.of_eq rfl rfl rfl, ?_,
            fun _ => ⟨hbar bar0 hhdmOffset rfl, rfl⟩, fun _ => rfl, h.built, h.ioBuilt,
            fun hbusy => absurd hidle hbusy⟩
          refine .disabling rfl rfl ⟨by decide, by decide⟩ hturn ?_
          intro hno
          cases hno
    | reset => exact hother .reset hs (Or.inl rfl)
    | identify => exact hother .identify hs (Or.inr ⟨by decide, by decide⟩)
    | identifyNamespace => exact hother .identifyNamespace hs (Or.inr ⟨by decide, by decide⟩)
    | formatNamespace => exact hother .formatNamespace hs (Or.inr ⟨by decide, by decide⟩)
    | namespaceAttach => exact hother .namespaceAttach hs (Or.inr ⟨by decide, by decide⟩)
    | createIoQueues => exact hother .createIoQueues hs (Or.inr ⟨by decide, by decide⟩)
  · cases hs

/-- **The controller is disabled**, and its registers are set if it is for `init`. -/
theorem Heard.disable {cc : UInt32} (h : Heard im base cap w t)
    (hs : adminStep im.toImage w.sys .disable = some s') (hcc : cc &&& 0x1 ≠ 0 ↔ w.sys.enabled = true) :
    ∃ t', Told.hearAll base cap t (w.stores im (.admin .disable cc)) = some t'
      ∧ Heard im base cap { w with sys := s' } t' := by
  simp only [adminStep] at hs
  split at hs
  · rename_i rest' hturn hscript'
    obtain rfl := Option.some.inj hs
    cases h.phase with
    | unset _ hno => exact absurd (hscript'.symm.trans hno) (by simp)
    | enabling _ hno => exact absurd (hscript'.symm.trans hno) (by simp)
    | working _ hpast => exact absurd (hscript' ▸ List.mem_cons_self) hpast.1
    | @disabling rest hregs hscript hpast _ hset =>
        obtain rfl : rest' = .enable :: rest := List.tail_eq_of_cons_eq (hscript'.symm.trans hscript)
        obtain ⟨rfl, hstride⟩ := h.regs hregs
        -- what both calls leave of the doorbells
        have hbells : ∀ t' : Told, t'.enabled = false →
            t'.doorbell = (if t.enabled then fun _ => 0 else t.doorbell) →
            t'.Programmed im w.sys.ctrl.hhdmOffset →
            Heard im w.regs cap { w with sys := { w.sys with
              script := .enable :: rest
              enabled := false
              admin := if w.sys.enabled then .fresh else w.sys.admin
              io := if w.sys.enabled then .fresh else w.sys.io } } t' := by
          intro t' hoff hbell hset'
          refine ⟨⟨hoff, ?_, ?_, ?_, ?_⟩, .enabling hregs rfl hpast hturn rfl hset', h.regs, h.initialized,
            h.built, h.ioBuilt, fun hbusy => ?_⟩
          · rw [hbell, h.agrees.enabled]
            split
            · rfl
            · exact h.agrees.sqTail
          · rw [hbell, h.agrees.enabled]
            split
            · rfl
            · exact h.agrees.cqHead
          · rw [hbell, h.agrees.enabled]
            split
            · rfl
            · exact h.agrees.ioSqTail
          · rw [hbell, h.agrees.enabled]
            split
            · rfl
            · exact h.agrees.ioCqHead
          · exact absurd ((h.alone hbusy).2.2.symm.trans hscript) (by simp)
        rw [← h.agrees.enabled] at hcc
        dsimp only [Wired.stores]
        split
        · obtain ⟨t', ht', hoff, hbell, hset'⟩ :=
            @hearAll_initStores im w.regs cap t cc w.sys.ctrl.hhdmOffset hcc
          exact ⟨t', ht', hbells t' hoff hbell hset'⟩
        · rename_i hreset
          refine ⟨_, ?_, hbells { t with
            enabled := false, doorbell := if t.enabled then fun _ => 0 else t.doorbell } rfl rfl ?_⟩
          · show (Told.hear w.regs cap t _).bind _ = _
            rw [hear_disable]
            rfl
          · have hset' := hset (by simpa using hreset)
            exact ⟨hset'.1, hset'.2, hset'.3⟩
  · cases hs

/-- **The controller is enabled** with the registers set. -/
theorem Heard.enable {ready : Bool} {cc : UInt32} (h : Heard im base cap w t)
    (hs : adminStep im.toImage w.sys (.enable ready) = some s') :
    ∃ t', Told.hearAll base cap t (w.stores im (.admin (.enable ready) cc)) = some t'
      ∧ Heard im base cap { w with sys := s' } t' := by
  simp only [adminStep] at hs
  split at hs
  · rename_i rest' hturn hscript'
    obtain rfl := Option.some.inj hs
    cases h.phase with
    | unset _ hno => exact absurd (hscript'.symm.trans hno) (by simp)
    | disabling _ hno => exact absurd (hscript'.symm.trans hno) (by simp)
    | working _ hpast => exact absurd (hscript' ▸ List.mem_cons_self) hpast.2
    | @enabling rest hregs hscript hpast _ hoff hset =>
        obtain rfl : rest' = rest := List.tail_eq_of_cons_eq (hscript'.symm.trans hscript)
        obtain ⟨rfl, hstride⟩ := h.regs hregs
        refine ⟨{ t with enabled := true, cc := enabledCc cc }, ?_,
          ⟨⟨rfl, h.agrees.2, h.agrees.3, h.agrees.4, h.agrees.5⟩,
            .working hregs ?_ rfl ⟨hset.1, hset.2, hset.3⟩ (configured_enabledCc cc), h.regs,
          h.initialized, h.built, h.ioBuilt, fun hbusy => ?_⟩⟩
        · show (Told.hear w.regs cap t _).bind _ = _
          rw [hear_enable (h.agrees.enabled.trans hoff)]
          rfl
        · show Past (if ready = true then rest' else [])
          split
          · exact hpast
          · exact ⟨List.not_mem_nil, List.not_mem_nil⟩
        · exact absurd ((h.alone hbusy).2.2.symm.trans hscript) (by simp)
  · cases hs

/-- While the driver works at a command the controller is enabled. -/
theorem Heard.busy (h : Heard im base cap w t) (hbusy : w.sys.turn ≠ .idle) :
    w.sys.ctrl.hasRegs = true ∧ Past w.sys.script ∧ w.sys.enabled = true
      ∧ t.Programmed im w.sys.ctrl.hhdmOffset ∧ Configured t.cc := by
  cases h.phase with
  | unset _ _ hturn => exact absurd hturn hbusy
  | disabling _ _ _ hturn => exact absurd hturn hbusy
  | enabling _ _ _ hturn => exact absurd hturn hbusy
  | working hregs hpast hon hset hconf => exact ⟨hregs, hpast, hon, hset, hconf⟩

section

variable {A : Type} {turn : Turn A} {a : A}

theorem ne_idle_of_built (h : turn = .built a) : turn ≠ .idle := by
  rw [h]
  intro hidle
  cases hidle

theorem ne_idle_of_matched (h : turn = .matched a) : turn ≠ .idle := by
  rw [h]
  intro hidle
  cases hidle

end

theorem Past.tail {script : List Action} (h : Past script) : Past script.tail :=
  ⟨fun hc => h.1 (List.mem_of_mem_tail hc), fun hc => h.2 (List.mem_of_mem_tail hc)⟩

theorem toNat_slot {n : Nat} (h : n < 64) : (UInt16.ofNat n).toNat = n :=
  Nat.mod_eq_of_lt (Nat.lt_trans h (by decide))

/-- **`init` has returned true.** -/
theorem Heard.markInitialized (h : Heard im base cap w t)
    (hs : adminStep im.toImage w.sys .markInitialized = some s') :
    Heard im base cap { w with sys := s' } t := by
  simp only [adminStep] at hs
  split at hs
  · rename_i rest hturn hscript
    obtain rfl := Option.some.inj hs
    cases h.phase with
    | unset _ hno => exact absurd (hscript.symm.trans hno) (by simp)
    | disabling _ hno => exact absurd (hscript.symm.trans hno) (by simp)
    | enabling _ hno => exact absurd (hscript.symm.trans hno) (by simp)
    | working hregs hpast hon hset hconf =>
        refine ⟨h.agrees.of_eq rfl rfl rfl, .working hregs ?_ hon hset hconf, h.regs,
          fun _ => hregs, h.built, h.ioBuilt, fun hbusy => ?_⟩
        · rw [hscript] at hpast
          exact hpast.tail
        · exact absurd ((h.alone hbusy).2.2.symm.trans hscript) (by simp)
  · cases hs

/-- **An admin command.** Its two doorbells are those of queue 0. -/
theorem Heard.queue {ev : QueueEvent} {cc : UInt32} (h : Heard im base cap w t)
    (hs : queueStep im.toImage w.sys ev = some s') :
    ∃ t', Told.hearAll base cap t (w.stores im (.admin (.queue ev) cc)) = some t'
      ∧ Heard im base cap { w with sys := s' } t' := by
  cases ev with
  | build call =>
      refine ⟨t, rfl, ?_⟩
      simp only [queueStep] at hs
      split at hs
      · rename_i cmd rest hturn hscript
        split at hs
        · obtain rfl := Option.some.inj hs
          cases h.phase with
          | unset _ hno => exact absurd (hscript.symm.trans hno) (by simp)
          | disabling _ hno => exact absurd (hscript.symm.trans hno) (by simp)
          | enabling _ hno => exact absurd (hscript.symm.trans hno) (by simp)
          | working hregs hpast hon hset hconf =>
              refine ⟨h.agrees.of_eq rfl rfl rfl, .working hregs hpast hon hset hconf,
                h.regs, h.initialized, fun _ _ => Nat.mod_lt _ (by decide), h.ioBuilt, fun hbusy => ?_⟩
              exact absurd ((h.alone hbusy).2.2.symm.trans hscript) (by simp)
        · cases hs
      · cases hs
  | ring =>
      simp only [queueStep] at hs
      split at hs
      · rename_i call hturn
        obtain rfl := Option.some.inj hs
        have hne := ne_idle_of_built hturn
        obtain ⟨hregs, hpast, hon, hset, hconf⟩ := h.busy hne
        obtain ⟨rfl, hstride⟩ := h.regs hregs
        refine ⟨t.ring 0 w.sys.ctrl.sqTail, ?_,
          ⟨⟨h.agrees.1, ?_, ?_, ?_, ?_⟩, .working hregs hpast hon ⟨hset.1, hset.2, hset.3⟩ hconf, h.regs,
            h.initialized, fun call' hc => ?_, h.ioBuilt, fun hbusy => ?_⟩⟩
        · show (Told.hear w.regs cap t (ringSqDoorbell w.regs w.dbStride 0 _)).bind _ = _
          rw [hstride, hear_sqDoorbell (h.agrees.enabled.trans hon) (by decide), toNat_slot (h.built call hturn)]
          rfl
        · exact t.ring_self 0 _
        · exact (t.ring_of_ne _ (by decide)).trans h.agrees.cqHead
        · exact (t.ring_of_ne _ (by decide)).trans h.agrees.ioSqTail
        · exact (t.ring_of_ne _ (by decide)).trans h.agrees.ioCqHead
        · cases hc
        · exact absurd (h.alone hbusy).2.1 hne
      · cases hs
  | fetch e =>
      refine ⟨t, rfl, ?_⟩
      simp only [queueStep] at hs
      split at hs
      · obtain ⟨d, hd, rfl⟩ := Option.map_eq_some_iff.mp hs
        refine h.quiet ⟨rfl, rfl, rfl, rfl, rfl, Iff.rfl, Iff.rfl, fun _ hc => ⟨hc, rfl⟩,
          fun _ hc => ⟨hc, rfl⟩, ?_, rfl, rfl⟩
        unfold Device.fetch at hd
        split at hd
        · obtain rfl := Option.some.inj hd
          exact ⟨rfl, rfl⟩
        · cases hd
      · cases hs
  | post e c =>
      refine ⟨t, rfl, ?_⟩
      obtain ⟨d, hd, rfl⟩ := Option.map_eq_some_iff.mp hs
      refine h.quiet ⟨rfl, rfl, rfl, rfl, rfl, Iff.rfl, Iff.rfl, fun _ hc => ⟨hc, rfl⟩,
        fun _ hc => ⟨hc, rfl⟩, ?_, rfl, rfl⟩
      unfold Device.post at hd
      split at hd
      · obtain rfl := Option.some.inj hd
        exact ⟨rfl, rfl⟩
      · cases hd
  | wait =>
      refine ⟨t, rfl, ?_⟩
      simp only [queueStep] at hs
      split at hs
      · split at hs
        · obtain rfl := Option.some.inj hs
          exact h
        · cases hs
      · cases hs
  | see =>
      refine ⟨t, rfl, ?_⟩
      simp only [queueStep] at hs
      split at hs
      · rename_i call hturn
        split at hs
        · obtain rfl := Option.some.inj hs
          refine h.quiet ⟨rfl, rfl, rfl, rfl, rfl, ?_, Iff.rfl, fun call' hc => ?_, fun _ hc => ⟨hc, rfl⟩,
            ⟨rfl, rfl⟩, rfl, rfl⟩
          · simp [hturn]
          · cases hc
        · cases hs
      · cases hs
  | take c r =>
      simp only [queueStep] at hs
      split at hs
      · rename_i call hturn
        split at hs
        · obtain rfl := Option.some.inj hs
          have hne := ne_idle_of_matched hturn
          obtain ⟨hregs, hpast, hon, hset, hconf⟩ := h.busy hne
          obtain ⟨rfl, hstride⟩ := h.regs hregs
          have hslot : w.sys.ctrl.consumeAdmin.cqHead < 64 := Nat.mod_lt _ (by decide)
          refine ⟨t.ring 1 w.sys.ctrl.consumeAdmin.cqHead, ?_,
            ⟨⟨h.agrees.1, ?_, ?_, ?_, ?_⟩, .working hregs ?_ hon ⟨hset.1, hset.2, hset.3⟩ hconf, h.regs,
              h.initialized, fun call' hc => ?_, h.ioBuilt, fun hbusy => ?_⟩⟩
          · show (Told.hear w.regs cap t (ringCqDoorbell w.regs w.dbStride 0 _)).bind _ = _
            rw [hstride, hear_cqDoorbell (h.agrees.enabled.trans hon) (by decide), toNat_slot hslot]
            rfl
          · exact (t.ring_of_ne _ (by decide)).trans h.agrees.sqTail
          · exact t.ring_self 1 _
          · exact (t.ring_of_ne _ (by decide)).trans h.agrees.ioSqTail
          · exact (t.ring_of_ne _ (by decide)).trans h.agrees.ioCqHead
          · show Past (if r = true then w.sys.script.tail else [])
            split
            · exact hpast.tail
            · exact ⟨List.not_mem_nil, List.not_mem_nil⟩
          · cases hc
          · exact absurd (h.alone hbusy).2.1 hne
        · cases hs
      · cases hs

/-- **`read` and `write`.** Their doorbells are those of queue 1. -/
theorem Heard.io {ev : IoEvent} (h : Heard im base cap w t) (hs : ioStep im.toImage w.sys ev = some s')
    (hbuild : ∀ call, ev = .build call →
      w.sys.ctrl.initialized = true ∧ w.sys.turn = .idle ∧ w.sys.script = []) :
    ∃ t', Told.hearAll base cap t (w.stores im (.io ev)) = some t'
      ∧ Heard im base cap { w with sys := s' } t' := by
  -- a call in progress has the controller enabled
  have hbusy : w.sys.ioTurn ≠ .idle →
      w.regs = base ∧ w.dbStride = dbStride cap ∧ t.enabled = true ∧ w.sys.ctrl.hasRegs = true
        ∧ Past w.sys.script ∧ t.Programmed im w.sys.ctrl.hhdmOffset ∧ Configured t.cc := by
    intro hne
    obtain ⟨hinit, _, hscript⟩ := h.alone hne
    have hregs := h.initialized hinit
    obtain ⟨hon, hset, hconf⟩ := h.working hregs hscript
    refine ⟨(h.regs hregs).1, (h.regs hregs).2, h.agrees.enabled.trans hon, hregs, ?_, hset, hconf⟩
    rw [hscript]
    exact ⟨List.not_mem_nil, List.not_mem_nil⟩
  cases ev with
  | build call =>
      refine ⟨t, rfl, ?_⟩
      obtain ⟨hinit, hturn, hscript⟩ := hbuild call rfl
      have hregs := h.initialized hinit
      obtain ⟨hon, hset, hconf⟩ := h.working hregs hscript
      simp only [ioStep] at hs
      split at hs
      · obtain rfl := Option.some.inj hs
        refine ⟨h.agrees.of_eq rfl rfl rfl, .working hregs ?_ hon hset hconf, h.regs,
          h.initialized, h.built, fun _ _ => Nat.mod_lt _ (by decide), fun _ => ⟨hinit, hturn, hscript⟩⟩
        show Past w.sys.script
        rw [hscript]
        exact ⟨List.not_mem_nil, List.not_mem_nil⟩
      · cases hs
  | ring =>
      simp only [ioStep] at hs
      split at hs
      · rename_i call hturn
        obtain rfl := Option.some.inj hs
        have hne := ne_idle_of_built hturn
        obtain ⟨rfl, hstride, hon, hregs, hpast, hset, hconf⟩ := hbusy hne
        refine ⟨t.ring 2 w.sys.ctrl.ioSqTail, ?_, ⟨⟨h.agrees.1, ?_, ?_, ?_, ?_⟩,
          .working hregs hpast (h.agrees.enabled.symm.trans hon) ⟨hset.1, hset.2, hset.3⟩ hconf, h.regs,
          h.initialized, h.built, fun call' hc => ?_, fun _ => h.alone hne⟩⟩
        · show (Told.hear w.regs cap t (ringSqDoorbell w.regs w.dbStride 1 _)).bind _ = _
          rw [hstride, hear_sqDoorbell hon (by decide), toNat_slot (h.ioBuilt call hturn)]
          rfl
        · exact (t.ring_of_ne _ (by decide)).trans h.agrees.sqTail
        · exact (t.ring_of_ne _ (by decide)).trans h.agrees.cqHead
        · exact t.ring_self 2 _
        · exact (t.ring_of_ne _ (by decide)).trans h.agrees.ioCqHead
        · cases hc
      · cases hs
  | fetch e =>
      refine ⟨t, rfl, ?_⟩
      obtain ⟨d, hd, rfl⟩ := Option.map_eq_some_iff.mp hs
      refine h.quiet ⟨rfl, rfl, rfl, rfl, rfl, Iff.rfl, Iff.rfl, fun _ hc => ⟨hc, rfl⟩,
        fun _ hc => ⟨hc, rfl⟩, ⟨rfl, rfl⟩, ?_⟩
      unfold Device.fetch at hd
      split at hd
      · obtain rfl := Option.some.inj hd
        exact ⟨rfl, rfl⟩
      · cases hd
  | post e c =>
      refine ⟨t, rfl, ?_⟩
      obtain ⟨d, hd, rfl⟩ := Option.map_eq_some_iff.mp hs
      refine h.quiet ⟨rfl, rfl, rfl, rfl, rfl, Iff.rfl, Iff.rfl, fun _ hc => ⟨hc, rfl⟩,
        fun _ hc => ⟨hc, rfl⟩, ⟨rfl, rfl⟩, ?_⟩
      unfold Device.post at hd
      split at hd
      · obtain rfl := Option.some.inj hd
        exact ⟨rfl, rfl⟩
      · cases hd
  | wait =>
      refine ⟨t, rfl, ?_⟩
      simp only [ioStep] at hs
      split at hs
      · split at hs
        · obtain rfl := Option.some.inj hs
          exact h
        · cases hs
      · cases hs
  | see =>
      refine ⟨t, rfl, ?_⟩
      simp only [ioStep] at hs
      split at hs
      · rename_i call hturn
        split at hs
        · obtain rfl := Option.some.inj hs
          refine h.quiet ⟨rfl, rfl, rfl, rfl, rfl, Iff.rfl, ?_, fun _ hc => ⟨hc, rfl⟩, fun call' hc => ?_,
            ⟨rfl, rfl⟩, rfl, rfl⟩
          · simp [hturn]
          · cases hc
        · cases hs
      · cases hs
  | take c r =>
      simp only [ioStep] at hs
      split at hs
      · rename_i call hturn
        split at hs
        · obtain rfl := Option.some.inj hs
          obtain ⟨rfl, hstride, hon, hregs, hpast, hset, hconf⟩ := hbusy (ne_idle_of_matched hturn)
          have hslot : w.sys.ctrl.consumeIo.ioCqHead < 64 := Nat.mod_lt _ (by decide)
          refine ⟨t.ring 3 w.sys.ctrl.consumeIo.ioCqHead, ?_, ⟨⟨h.agrees.1, ?_, ?_, ?_, ?_⟩,
            .working hregs hpast (h.agrees.enabled.symm.trans hon) ⟨hset.1, hset.2, hset.3⟩ hconf, h.regs,
            h.initialized, h.built, fun call' hc => ?_, fun hc => absurd rfl hc⟩⟩
          · show (Told.hear w.regs cap t (ringCqDoorbell w.regs w.dbStride 1 _)).bind _ = _
            rw [hstride, hear_cqDoorbell hon (by decide), toNat_slot hslot]
            rfl
          · exact (t.ring_of_ne _ (by decide)).trans h.agrees.sqTail
          · exact (t.ring_of_ne _ (by decide)).trans h.agrees.cqHead
          · exact (t.ring_of_ne _ (by decide)).trans h.agrees.ioSqTail
          · exact t.ring_self 3 _
          · cases hc
        · cases hs
      · cases hs

/-- **What one step stores is heard**, and the two agree again. -/
theorem Heard.step {l : WiredEvent × List RegStore} (h : Heard im base cap w t)
    (hs : WiredStep im base cap w l w') :
    ∃ t', Told.hearAll base cap t l.2 = some t' ∧ Heard im base cap w' t' := by
  cases hs with
  | start hs hidle hbar => exact ⟨t, rfl, h.start hs hidle hbar⟩
  | @admin ev cc s' hs hstart hcc =>
      cases ev with
      | start call => exact absurd rfl (hstart call)
      | disable => exact h.disable hs hcc
      | enable ready => exact h.enable hs
      | markInitialized => exact ⟨t, rfl, h.markInitialized hs⟩
      | queue ev => exact h.queue hs
  | io hs hbuild => exact h.io hs hbuild

/-- Before anything was called nothing is expected of the registers. -/
theorem heard_of_boot (hboot : AtBoot w.sys) (hagrees : t.Agrees w.sys) : Heard im base cap w t := by
  have hctrl := hboot.ctrl
  refine ⟨hagrees, .unset (by rw [hctrl]; rfl) hboot.script hboot.turn, ?_, ?_, ?_, ?_, ?_⟩
  · rw [hctrl]
    intro hregs
    cases hregs
  · rw [hctrl]
    intro hinit
    cases hinit
  · rw [hboot.turn]
    intro call hc
    cases hc
  · rw [hboot.ioTurn]
    intro call hc
    cases hc
  · exact fun hbusy => absurd hboot.ioTurn hbusy

/-- What the controller was told is what the system has. Once there are registers, and unless the driver is about
    to disable or enable the controller, the controller is enabled and its queues are where the driver has
    them. -/
structure Told.SetUp (im : RegImage) (w : Wired) (t : Told) : Prop where
  agrees : t.Agrees w.sys
  programmed : w.sys.ctrl.hasRegs = true → Past w.sys.script →
    t.enabled = true ∧ t.Programmed im w.sys.ctrl.hhdmOffset ∧ Configured t.cc

theorem Heard.setUp (h : Heard im base cap w t) : t.SetUp im w where
  agrees := h.agrees
  programmed hregs hpast := by
    cases h.phase with
    | unset hno => exact absurd (hno.symm.trans hregs) (by decide)
    | disabling _ hscript => exact absurd (by rw [hscript]; exact List.mem_cons_self) hpast.1
    | enabling _ hscript => exact absurd (by rw [hscript]; exact List.mem_cons_self) hpast.2
    | working _ _ hon hset hconf => exact ⟨h.agrees.enabled.trans hon, hset, hconf⟩

/-- **The controller understands the driver.** In every run of the driver's calls, those that fail and resets
    included, each store goes to a register that the controller expects it for, for every BAR and every doorbell
    stride. What the controller was told by then is what the system has; and whenever the driver is not about to
    enable the controller, the queues are set up. -/
theorem driver_understood {w₀ : Wired} {t₀ : Told} {labels : List (WiredEvent × List RegStore)}
    (hboot : AtBoot w₀.sys) (hagrees : t₀.Agrees w₀.sys)
    (hrun : Run (WiredStep im base cap) w₀ labels w) :
    ∃ t, Told.hearAll base cap t₀ (labels.flatMap Prod.snd) = some t ∧ t.SetUp im w := by
  have hheard : ∃ t, Told.hearAll base cap t₀ (labels.flatMap Prod.snd) = some t
      ∧ Heard im base cap w t := by
    refine hrun.history (H := fun labels w => ∃ t, Told.hearAll base cap t₀ (labels.flatMap Prod.snd) = some t
      ∧ Heard im base cap w t) (fun labels w l w' hs hw => ?_) ⟨t₀, rfl, heard_of_boot hboot hagrees⟩
    obtain ⟨t, ht, hw⟩ := hw
    obtain ⟨t', ht', hw'⟩ := hw.step hs
    refine ⟨t', ?_, hw'⟩
    rw [List.flatMap_append, Told.hearAll, List.foldlM_append]
    show (Told.hearAll base cap t₀ _).bind _ = _
    rw [ht, List.flatMap_singleton]
    exact ht'
  obtain ⟨t, ht, hw⟩ := hheard
  exact ⟨t, ht, hw.setUp⟩

/-- The queues of `plainImage`, with the admin queues before them. -/
def plainRegImage : RegImage := ⟨plainImage, 0x8000, 0x9000⟩

/-- A controller that is off, and was told nothing. -/
def offWired : Wired := ⟨coldBoot, 0, 0, false⟩

/-- A controller after power-on. -/
def toldNothing : Told := ⟨false, 0, 0, 0, 0, fun _ => 0⟩

/-- With a stride of 16 bytes, the first doorbell of an `init` rings. -/
theorem driver_understood_a : ∃ (labels : List (WiredEvent × List RegStore)) (t : Told),
    Told.hearAll 0x10000 0x200000000 toldNothing (labels.flatMap Prod.snd) = some t
      ∧ (t.enabled = true ∧ t.Programmed plainRegImage 0 ∧ Configured t.cc) ∧ t.doorbell 0 = 1 := by
  have h₁ : WiredStep plainRegImage 0x10000 0x200000000 offWired _ _ :=
    @WiredStep.start _ _ _ _ (.init 0x10000 0) 0 _ rfl rfl (fun bar0 hhdm h => by
      obtain ⟨rfl, rfl⟩ := AdminCall.init.inj h
      rfl)
  have h₂ := (Run.single h₁).step (@WiredStep.admin _ _ _ _ .disable 0 _ rfl (fun _ h => by cases h) (by decide))
  have h₃ := h₂.step (@WiredStep.admin _ _ _ _ (.enable true) 0 _ rfl (fun _ h => by cases h) (by decide))
  have h₄ := h₃.step (@WiredStep.admin _ _ _ _ (.queue (.build (.identify, 0))) 1 _ rfl (fun _ h => by cases h) (by decide))
  have h₅ := h₄.step (@WiredStep.admin _ _ _ _ (.queue .ring) 1 _ rfl (fun _ h => by cases h) (by decide))
  have hagrees : toldNothing.Agrees offWired.sys := ⟨rfl, rfl, rfl, rfl, rfl⟩
  obtain ⟨t, ht, hset⟩ := driver_understood atBoot_coldBoot hagrees h₅
  exact ⟨_, t, ht, hset.programmed rfl ⟨by decide, by decide⟩, hset.agrees.sqTail⟩

end AlopexOS.Nvme
