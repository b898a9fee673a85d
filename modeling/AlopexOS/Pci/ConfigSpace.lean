import AlopexOS.Lib.Word

/-!
# `Pci.ConfigSpace` — reading configuration registers

Registers are read in two ways: through memory, where ACPI says that a bus is mapped, and through the
ports 0xCF8 and 0xCFC, where an address is written to the one and the value is read from the other. Here
the machine has one configuration space, and both ways lead to it.

## Contents
- **The two ways**, and the addresses that the two readers write to the port.
- **Both give the register**: `portsOf_pciAddr` and `read32_of`.
- **The functions of a machine**: the places where one can be, and what the registers say of it.
-/

namespace AlopexOS

namespace Pci

/-! ## The two ways -/

/-- A value for every register of every function: bus, device, function, offset. -/
abbrev ConfigSpace := UInt8 → UInt8 → UInt8 → UInt8 → UInt32

/-- How configuration space is read. -/
structure ConfigAccess where
  /-- `ECAM::read32`. -/
  ecam : UInt8 → UInt8 → UInt8 → UInt16 → UInt32
  /-- What port 0xCFC gives after the address was written to port 0xCF8. -/
  ports : UInt32 → UInt32

/-- The address `config_read32` writes. -/
def configAddress (bus slot func offset : UInt8) : UInt32 :=
  bus.toUInt32 <<< 16 ||| slot.toUInt32 <<< 11 ||| func.toUInt32 <<< 8 ||| (offset.toUInt32 &&& 0xFC)
    ||| 0x80000000

/-- `PCIe::config_read32`. -/
def configRead32 (a : ConfigAccess) (bus slot func offset : UInt8) : UInt32 :=
  a.ports (configAddress bus slot func offset)

/-- `PCIe::read32`. -/
def read32 (a : ConfigAccess) (bus slot func : UInt8) (offset : UInt16) : UInt32 :=
  let val := a.ecam bus slot func offset
  if val ≠ 0xFFFFFFFF then val else configRead32 a bus slot func offset.toUInt8

/-- The address `scan_pci_bus` writes, without the register. -/
def pciAddr (bus dev func : UInt8) : UInt32 :=
  (1 : UInt32) <<< 31 ||| bus.toUInt32 <<< 16 ||| dev.toUInt32 <<< 11 ||| func.toUInt32 <<< 8

/-- The ports of a machine with this configuration space. -/
def portsOf (cfg : ConfigSpace) (address : UInt32) : UInt32 :=
  if address &&& 0x80000000 = 0 then 0xFFFFFFFF
  else cfg (address >>> 16).toUInt8 (address >>> 11 &&& 31).toUInt8 (address >>> 8 &&& 7).toUInt8
    (address &&& 0xFC).toUInt8

/-- A machine with this configuration space, some buses of which are mapped into memory. -/
def ConfigAccess.of (cfg : ConfigSpace) (mapped : UInt8 → Bool) : ConfigAccess where
  ecam bus slot func offset := if mapped bus = true then cfg bus slot func offset.toUInt8 else 0xFFFFFFFF
  ports := portsOf cfg

/-! ## Both give the register -/

variable {cfg : ConfigSpace} {mapped : UInt8 → Bool} {bus slot func reg : UInt8}

theorem toNat_address (hslot : slot < 32) (hfunc : func < 8) :
    (pciAddr bus slot func ||| reg.toUInt32).toNat
      = 2 ^ 31 + bus.toNat * 2 ^ 16 + slot.toNat * 2 ^ 11 + func.toNat * 2 ^ 8 + reg.toNat := by
  have hb := bus.toNat_lt
  have hr := reg.toNat_lt
  have hs : slot.toNat < 32 := hslot
  have hf : func.toNat < 8 := hfunc
  have hshift : ∀ (x : UInt8) (k : Nat), k < 32 → x.toNat * 2 ^ k < 2 ^ 32 →
      (x.toUInt32 <<< UInt32.ofNat k).toNat = x.toNat * 2 ^ k := by
    intro x k hk hlt
    rw [UInt32.toNat_shiftLeft, UInt8.toNat_toUInt32, Nat.shiftLeft_eq]
    have hmod : (UInt32.ofNat k).toNat % 32 = k := by
      show k % 2 ^ 32 % 32 = k
      omega
    rw [hmod, Nat.mod_eq_of_lt hlt]
  have h16 : (bus.toUInt32 <<< 16).toNat = bus.toNat * 2 ^ 16 := hshift bus 16 (by decide) (by omega)
  have h11 : (slot.toUInt32 <<< 11).toNat = slot.toNat * 2 ^ 11 := hshift slot 11 (by decide) (by omega)
  have h8 : (func.toUInt32 <<< 8).toNat = func.toNat * 2 ^ 8 := hshift func 8 (by decide) (by omega)
  have h31 : ((1 : UInt32) <<< 31).toNat = 2 ^ 31 := by decide
  -- the fields from the top bit down
  have hbus : 2 ^ 31 ||| bus.toNat * 2 ^ 16 = 2 ^ 31 + bus.toNat * 2 ^ 16 :=
    Word.or_eq_add 31 (by omega) (Nat.dvd_refl _)
  have hdev : 2 ^ 31 + bus.toNat * 2 ^ 16 ||| slot.toNat * 2 ^ 11
      = 2 ^ 31 + bus.toNat * 2 ^ 16 + slot.toNat * 2 ^ 11 := Word.or_eq_add 16 (by omega) (by omega)
  have hfun : 2 ^ 31 + bus.toNat * 2 ^ 16 + slot.toNat * 2 ^ 11 ||| func.toNat * 2 ^ 8
      = 2 ^ 31 + bus.toNat * 2 ^ 16 + slot.toNat * 2 ^ 11 + func.toNat * 2 ^ 8 :=
    Word.or_eq_add 11 (by omega) (by omega)
  unfold pciAddr
  rw [UInt32.toNat_or, UInt32.toNat_or, UInt32.toNat_or, UInt32.toNat_or, h31, h16, h11, h8,
    UInt8.toNat_toUInt32, hbus, hdev, hfun]
  exact Word.or_eq_add 8 (by omega) (by omega)

/-- A field of an address, read off by shift and mask. -/
theorem field_eq {address : UInt32} {x : UInt8} (k w : Nat) (hk : k < 32) (hw : w ≤ 8)
    (h : address.toNat / 2 ^ k % 2 ^ w = x.toNat) :
    (address >>> UInt32.ofNat k &&& UInt32.ofNat (2 ^ w - 1)).toUInt8 = x := by
  have hmod : (UInt32.ofNat k).toNat % 32 = k := by
    show k % 2 ^ 32 % 32 = k
    omega
  have hpow : 2 ^ w ≤ 2 ^ 8 := Nat.pow_le_pow_right (by decide) hw
  have hmask : (UInt32.ofNat (2 ^ w - 1)).toNat = 2 ^ w - 1 :=
    UInt32.toNat_ofNat_of_lt' (by show 2 ^ w - 1 < 2 ^ 32; omega)
  apply UInt8.toNat_inj.mp
  rw [UInt32.toNat_toUInt8, UInt32.toNat_and, UInt32.toNat_shiftRight, hmod, hmask,
    Nat.shiftRight_eq_div_pow, Nat.and_two_pow_sub_one_eq_mod, h]
  exact Nat.mod_eq_of_lt x.toNat_lt

/-- **The ports give the register** whose address was written. -/
theorem portsOf_pciAddr (cfg : ConfigSpace) (bus reg : UInt8) (hslot : slot < 32) (hfunc : func < 8)
    (hreg : reg &&& 0xFC = reg) :
    portsOf cfg (pciAddr bus slot func ||| reg.toUInt32) = cfg bus slot func reg := by
  have haddr : (pciAddr bus slot func ||| reg.toUInt32).toNat
      = 2 ^ 31 + bus.toNat * 2 ^ 16 + slot.toNat * 2 ^ 11 + func.toNat * 2 ^ 8 + reg.toNat :=
    toNat_address hslot hfunc
  generalize pciAddr bus slot func ||| reg.toUInt32 = address at haddr
  have hb := bus.toNat_lt
  have hr := reg.toNat_lt
  have hs : slot.toNat < 32 := hslot
  have hf : func.toNat < 8 := hfunc
  -- the enable bit is the one on top
  have henable : ¬ address &&& 0x80000000 = 0 := by
    intro h0
    have hand : address.toNat &&& 2 ^ 31 = 0 := by
      have hzero := congrArg UInt32.toNat h0
      rwa [UInt32.toNat_and] at hzero
    have hbit : (address.toNat &&& 2 ^ 31).testBit 31 = true := by
      rw [Nat.testBit_and, Nat.testBit_two_pow_self, Bool.and_true, Nat.testBit_eq_decide_div_mod_eq]
      exact decide_eq_true (by omega)
    rw [hand, Nat.zero_testBit] at hbit
    cases hbit
  have hbus : (address >>> 16).toUInt8 = bus := by
    apply UInt8.toNat_inj.mp
    rw [UInt32.toNat_toUInt8, UInt32.toNat_shiftRight, Nat.shiftRight_eq_div_pow]
    show address.toNat / 2 ^ 16 % 2 ^ 8 = bus.toNat
    omega
  have hdev : (address >>> 11 &&& 31).toUInt8 = slot :=
    field_eq 11 5 (by decide) (by decide) (by omega)
  have hfun : (address >>> 8 &&& 7).toUInt8 = func :=
    field_eq 8 3 (by decide) (by decide) (by omega)
  have hoff : (address &&& 0xFC).toUInt8 = reg := by
    have hlow : address.toUInt8 = reg := by
      apply UInt8.toNat_inj.mp
      rw [UInt32.toNat_toUInt8]
      omega
    rw [UInt32.toUInt8_and, hlow]
    exact hreg
  unfold portsOf
  rw [if_neg henable, hbus, hdev, hfun, hoff]

/-- **`read32` gives the register**, mapped or not. -/
theorem read32_of (reg : UInt8) (hslot : slot < 32) (hfunc : func < 8) (hreg : reg &&& 0xFC = reg) :
    read32 (ConfigAccess.of cfg mapped) bus slot func reg.toUInt16 = cfg bus slot func reg := by
  have hport : configRead32 (ConfigAccess.of cfg mapped) bus slot func reg = cfg bus slot func reg := by
    have hoff : reg.toUInt32 &&& 0xFC = reg.toUInt32 := by
      rw [show (0xFC : UInt32) = (0xFC : UInt8).toUInt32 from rfl, ← UInt8.toUInt32_and, hreg]
    have haddr : configAddress bus slot func reg = pciAddr bus slot func ||| reg.toUInt32 := by
      unfold configAddress pciAddr
      rw [hoff, show (1 : UInt32) <<< 31 = 0x80000000 by decide, UInt32.or_comm _ 0x80000000]
      simp only [UInt32.or_assoc]
    unfold configRead32
    rw [haddr]
    exact portsOf_pciAddr cfg bus reg hslot hfunc hreg
  have hecam : (ConfigAccess.of cfg mapped).ecam bus slot func reg.toUInt16
      = if mapped bus = true then cfg bus slot func reg else 0xFFFFFFFF := by
    simp only [ConfigAccess.of, UInt8.toUInt8_toUInt16]
  simp only [read32, UInt8.toUInt8_toUInt16, hport, hecam]
  -- a mapped bus gives the register at once, another gives all ones, and so does a register of ones
  by_cases hmap : mapped bus = true
  · rw [if_pos hmap]
    split
    · rfl
    · rfl
  · rw [if_neg hmap]
    rfl

/-! ## The functions of a machine -/

/-- `location.pci`. -/
structure PciLocation where
  bus : UInt8
  device : UInt8
  function : UInt8
  deriving DecidableEq

/-- The values of the loops over buses. -/
def buses : List UInt8 := (List.range 256).map UInt8.ofNat

/-- The values of the loops over slots. -/
def slots : List UInt8 := (List.range 32).map UInt8.ofNat

/-- The values of the loops over functions. -/
def funcs : List UInt8 := (List.range 8).map UInt8.ofNat

/-- Every place a function can be at, in the order of the loops. -/
def locations : List PciLocation :=
  buses.flatMap fun bus => slots.flatMap fun slot => funcs.map fun func => ⟨bus, slot, func⟩

theorem mem_upTo {n : Nat} (hn : n ≤ 256) {x : UInt8} :
    x ∈ (List.range n).map UInt8.ofNat ↔ x.toNat < n := by
  rw [List.mem_map]
  constructor
  · rintro ⟨k, hk, rfl⟩
    have hlt := List.mem_range.mp hk
    rw [UInt8.toNat_ofNat_of_lt' (show k < 2 ^ 8 by omega)]
    exact hlt
  · intro hx
    exact ⟨x.toNat, List.mem_range.mpr hx, UInt8.ofNat_toNat⟩

theorem mem_buses (bus : UInt8) : bus ∈ buses :=
  (mem_upTo (Nat.le_refl _)).mpr bus.toNat_lt

theorem mem_slots : slot ∈ slots ↔ slot < 32 :=
  mem_upTo (by decide)

theorem mem_funcs : func ∈ funcs ↔ func < 8 :=
  mem_upTo (by decide)

theorem mem_locations {loc : PciLocation} :
    loc ∈ locations ↔ loc.device < 32 ∧ loc.function < 8 := by
  constructor
  · intro h
    obtain ⟨bus, -, hbus⟩ := List.mem_flatMap.mp h
    obtain ⟨slot, hslot, hdev⟩ := List.mem_flatMap.mp hbus
    obtain ⟨func, hfunc, rfl⟩ := List.mem_map.mp hdev
    exact ⟨mem_slots.mp hslot, mem_funcs.mp hfunc⟩
  · rintro ⟨hdev, hfun⟩
    apply List.mem_flatMap.mpr
    refine ⟨loc.bus, mem_buses loc.bus, List.mem_flatMap.mpr ⟨loc.device, mem_slots.mpr hdev, ?_⟩⟩
    exact List.mem_map.mpr ⟨loc.function, mem_funcs.mpr hfun, rfl⟩

namespace ConfigSpace

/-- The word of a register of a function. -/
def register (cfg : ConfigSpace) (loc : PciLocation) (reg : UInt8) : UInt32 :=
  cfg loc.bus loc.device loc.function reg

/-- A function is there. -/
def present (cfg : ConfigSpace) (loc : PciLocation) : Bool :=
  (cfg.register loc 0x00 &&& 0xFFFF).toUInt16 ≠ 0xFFFF

theorem present_iff {cfg : ConfigSpace} {loc : PciLocation} :
    cfg.present loc = true
      ↔ (cfg loc.bus loc.device loc.function 0x00 &&& 0xFFFF).toUInt16 ≠ 0xFFFF :=
  decide_eq_true_iff

/-- Mass storage, with non-volatile memory. -/
def nvmeClass (cfg : ConfigSpace) (loc : PciLocation) : Bool :=
  (cfg.register loc 0x08 >>> 24).toUInt8 = 0x01 ∧ (cfg.register loc 0x08 >>> 16).toUInt8 = 0x08

/-- The device has functions beside function 0. -/
def multiFunction (cfg : ConfigSpace) (loc : PciLocation) : Bool :=
  (cfg.register loc 0x0C >>> 16).toUInt8 &&& 0x80 ≠ 0

/-- The high half of the address in BAR 0, when that has one. -/
def bar0High (cfg : ConfigSpace) (loc : PciLocation) : UInt32 :=
  if cfg.register loc 0x10 &&& 0x06 = 0x04 then cfg.register loc 0x14 else 0

end ConfigSpace

end Pci

end AlopexOS
