import AlopexOS.Pci.Pcie
import AlopexOS.Pci.IBus
import Mathlib.Data.List.Basic
import Mathlib.Data.List.Find

/-!
# `Pci.Agreement` — the two enumerations against each other

`AlopexIBus` keeps every function that answers, and the low half of its BAR 0; `PCIe` passes over functions
that function 0 does not announce, and reads both halves. They agree on the machines where neither makes a
difference.

## Contents
- **Agreement** and the two conditions on a configuration space.
- **The same functions** where all are announced; then both look at the same first NVMe controller.
- **The same address** where its high half is zero.
-/

namespace AlopexOS

namespace Pci

/-! ## Agreement -/

/-- The bus scan and the traversals of `PCIe` see the same. -/
structure Agree (a : ConfigAccess) : Prop where
  /-- What `scan_pci_bus` records is what the traversals of `PCIe` visit. -/
  sameFunctions : ∀ loc, (∃ info ∈ scanPciBus a, info.location = loc) ↔ loc ∈ visited a
  /-- The function whose BAR `find_nvme_bar0` returns is listed with that address. -/
  sameAddress : ∀ loc, nvmeFunction a = some loc →
    ∃ info ∈ (scanAllBuses a).getStorageDevices,
      info.location = loc ∧ info.baseAddress = findNvmeBar0 a (initializePCIe a ⟨false⟩)

/-- A function beside function 0 is on a device whose function 0 is there and says that it has more. -/
def Announced (cfg : ConfigSpace) : Prop :=
  ∀ loc ∈ locations, loc.function ≠ 0 → cfg.present loc = true →
    cfg.present { loc with function := 0 } = true ∧ cfg.multiFunction { loc with function := 0 } = true

/-- The first NVMe controller in the order of the loops. -/
def firstNvme (cfg : ConfigSpace) : Option PciLocation :=
  locations.find? fun loc => cfg.present loc && cfg.nvmeClass loc

/-- The registers of the first NVMe controller are below 4 GiB. -/
def LowBar (cfg : ConfigSpace) : Prop :=
  ∀ loc, firstNvme cfg = some loc → cfg.bar0High loc = 0

variable {cfg : ConfigSpace} {mapped : UInt8 → Bool}

/-! ## The same functions -/

theorem recorded_iff {loc : PciLocation} :
    (∃ info ∈ scanPciBus (.of cfg mapped), info.location = loc)
      ↔ loc ∈ locations ∧ cfg.present loc = true := by
  constructor
  · rintro ⟨info, hinfo, rfl⟩
    obtain ⟨loc, hloc, hpres, rfl⟩ := mem_scanPciBus.mp hinfo
    exact ⟨hloc, hpres⟩
  · rintro ⟨hloc, hpres⟩
    exact ⟨recordOf cfg loc, mem_scanPciBus.mpr ⟨loc, hloc, hpres, rfl⟩, rfl⟩

theorem sameFunctions_iff :
    (∀ loc, (∃ info ∈ scanPciBus (.of cfg mapped), info.location = loc) ↔ loc ∈ visited (.of cfg mapped))
      ↔ Announced cfg := by
  constructor
  · intro h loc hloc hfunc hpres
    have hvisited := (h loc).mp (recorded_iff.mpr ⟨hloc, hpres⟩)
    obtain ⟨-, -, hzero | hann⟩ := mem_visited.mp hvisited
    · exact absurd hzero hfunc
    · exact hann
  · intro h loc
    rw [recorded_iff, mem_visited]
    constructor
    · rintro ⟨hloc, hpres⟩
      refine ⟨hloc, hpres, ?_⟩
      by_cases hfunc : loc.function = 0
      · exact .inl hfunc
      · exact .inr (h loc hloc hfunc hpres)
    · rintro ⟨hloc, hpres, -⟩
      exact ⟨hloc, hpres⟩

/-- On a device that announces its functions the loop finds all that are present. -/
theorem presentFuncs_announced (h : Announced cfg) {bus slot : UInt8} (hslot : slot < 32) :
    presentFuncs (.of cfg mapped) bus slot funcs = funcs.filter fun f => cfg.present ⟨bus, slot, f⟩ := by
  -- no function behind function 0 where the loop ends early
  have hnone : ¬ (cfg.present ⟨bus, slot, 0⟩ = true ∧ cfg.multiFunction ⟨bus, slot, 0⟩ = true) →
      funcs.tail.filter (fun f => cfg.present ⟨bus, slot, f⟩) = [] := by
    intro hnot
    apply List.filter_eq_nil_iff.mpr
    intro f hf hpres
    obtain ⟨hf0, hf8⟩ := later_funcs f hf
    exact hnot (h ⟨bus, slot, f⟩ (mem_locations.mpr ⟨hslot, hf8⟩) hf0 hpres)
  rw [presentFuncs_funcs hslot]
  conv_rhs => rw [funcs_eq]
  by_cases hpres : cfg.present ⟨bus, slot, 0⟩ = true
  · rw [if_pos hpres, List.filter_cons_of_pos (p := fun f => cfg.present ⟨bus, slot, f⟩) hpres]
    by_cases hmulti : cfg.multiFunction ⟨bus, slot, 0⟩ = true
    · rw [if_pos hmulti]
    · rw [if_neg hmulti, hnone fun hann => hmulti hann.2]
  · rw [if_neg hpres, List.filter_cons_of_neg (p := fun f => cfg.present ⟨bus, slot, f⟩) hpres,
      hnone fun hann => hpres hann.1]

/-- **Where all functions are announced, the traversals visit those that are present, in order.** -/
theorem visited_announced (h : Announced cfg) :
    visited (.of cfg mapped) = locations.filter cfg.present := by
  unfold visited locations
  rw [List.filter_flatMap]
  apply List.flatMap_congr
  intro bus _
  rw [List.filter_flatMap]
  apply List.flatMap_congr
  intro slot hslot
  rw [presentFuncs_announced h (mem_slots.mp hslot), List.filter_map]
  rfl

theorem nvmeFunction_announced (h : Announced cfg) :
    nvmeFunction (.of cfg mapped) = firstNvme cfg := by
  unfold nvmeFunction firstNvme
  rw [visited_announced h, List.find?_filter]
  apply List.find?_congr
  intro loc hloc
  obtain ⟨hdev, hfunc⟩ := mem_locations.mp hloc
  rw [isNvme_of hdev hfunc, Bool.decide_and, Bool.decide_eq_true, Bool.decide_eq_true]

/-! ## The same address -/

/-- An address in two halves is its low half when the high one is zero. -/
theorem halves_eq_low (hi lo : UInt32) : hi.toUInt64 <<< 32 ||| lo.toUInt64 = lo.toUInt64 ↔ hi = 0 := by
  have hhi := hi.toNat_lt
  have hlo := lo.toNat_lt
  have hshift : (hi.toUInt64 <<< 32).toNat = hi.toNat * 2 ^ 32 := by
    rw [UInt64.toNat_shiftLeft, UInt32.toNat_toUInt64, Nat.shiftLeft_eq]
    exact Nat.mod_eq_of_lt (by show hi.toNat * 2 ^ 32 < 2 ^ 64; omega)
  have hsum : hi.toNat * 2 ^ 32 ||| lo.toNat = hi.toNat * 2 ^ 32 + lo.toNat :=
    Word.or_eq_add 32 hlo (Nat.dvd_mul_left _ _)
  rw [← UInt64.toNat_inj, UInt64.toNat_or, hshift, UInt32.toNat_toUInt64, hsum, ← UInt32.toNat_inj]
  show hi.toNat * 2 ^ 32 + lo.toNat = lo.toNat ↔ hi.toNat = 0
  omega

/-- **The record has the address that is returned** exactly when the high half of that is zero. -/
theorem baseAddress_eq_iff {loc : PciLocation} (hloc : loc ∈ locations)
    (hfirst : nvmeFunction (.of cfg mapped) = some loc) :
    (recordOf cfg loc).baseAddress
        = findNvmeBar0 (.of cfg mapped) (initializePCIe (.of cfg mapped) ⟨false⟩)
      ↔ cfg.bar0High loc = 0 := by
  obtain ⟨hdev, hfunc⟩ := mem_locations.mp hloc
  have hbar : findNvmeBar0 (.of cfg mapped) (initializePCIe (.of cfg mapped) ⟨false⟩)
      = (cfg.bar0High loc).toUInt64 <<< 32 ||| (cfg.register loc 0x10 &&& ~~~0x0F).toUInt64 := by
    rw [findNvmeBar0_eq, hfirst]
    exact bar0_of hdev hfunc
  rw [hbar, ← halves_eq_low (cfg.bar0High loc) (cfg.register loc 0x10 &&& ~~~0x0F)]
  exact eq_comm

theorem firstNvme_spec {loc : PciLocation} (h : firstNvme cfg = some loc) :
    loc ∈ locations ∧ cfg.present loc = true ∧ cfg.nvmeClass loc = true := by
  have hboth := List.find?_some (show locations.find? _ = some loc from h)
  rw [Bool.and_eq_true] at hboth
  exact ⟨List.mem_of_find?_eq_some h, hboth⟩

theorem sameAddress_iff (hann : Announced cfg) :
    (∀ loc, nvmeFunction (.of cfg mapped) = some loc →
        ∃ info ∈ (scanAllBuses (.of cfg mapped)).getStorageDevices,
          info.location = loc ∧ info.baseAddress
            = findNvmeBar0 (.of cfg mapped) (initializePCIe (.of cfg mapped) ⟨false⟩))
      ↔ LowBar cfg := by
  have hfirst : nvmeFunction (.of cfg mapped) = firstNvme cfg := nvmeFunction_announced hann
  constructor
  · intro h loc hloc
    obtain ⟨hmem, -, -⟩ := firstNvme_spec hloc
    obtain ⟨info, hinfo, hat, haddr⟩ := h loc (hfirst.trans hloc)
    -- the record of a place is the only one there
    obtain ⟨loc', -, -, rfl⟩ := mem_scanPciBus.mp (List.mem_filter.mp hinfo).1
    obtain rfl : loc' = loc := hat
    exact (baseAddress_eq_iff hmem (hfirst.trans hloc)).mp haddr
  · intro h loc hloc
    have hfirst' : firstNvme cfg = some loc := hfirst.symm.trans hloc
    obtain ⟨hmem, hpres, hnvme⟩ := firstNvme_spec hfirst'
    refine ⟨recordOf cfg loc, mem_getStorageDevices hmem hpres hnvme, rfl, ?_⟩
    exact (baseAddress_eq_iff hmem hloc).mpr (h loc hfirst')

/-- **The two enumerations agree exactly** on the machines where every function is announced and the
    registers of the first NVMe controller are below 4 GiB. -/
theorem agree_iff (cfg : ConfigSpace) (mapped : UInt8 → Bool) :
    Agree (.of cfg mapped) ↔ Announced cfg ∧ LowBar cfg := by
  constructor
  · intro h
    -- without announced functions the first controller may be one that `PCIe` does not visit
    have hann : Announced cfg := sameFunctions_iff.mp h.sameFunctions
    exact ⟨hann, (sameAddress_iff hann).mp h.sameAddress⟩
  · rintro ⟨hann, hlow⟩
    exact ⟨sameFunctions_iff.mpr hann, (sameAddress_iff hann).mpr hlow⟩

/-- A machine with a controller at 00:04.0 whose registers are at 64 GiB. -/
def highBar : ConfigSpace := fun bus slot func reg =>
  if bus = 0 ∧ slot = 4 ∧ func = 0 then
    if reg = 0x00 then 0x00101B36
    else if reg = 0x08 then 0x01080202
    else if reg = 0x10 then 0x00000004
    else if reg = 0x14 then 0x00000010
    else 0
  else 0xFFFFFFFF

theorem firstNvme_highBar : firstNvme highBar = some ⟨0, 4, 0⟩ := by
  decide +kernel

theorem highBar_disagrees : ¬ ∀ cfg mapped, Agree (.of cfg mapped) := by
  intro h
  have hagree : Agree (.of highBar fun _ => true) := h highBar _
  have hann : Announced highBar := sameFunctions_iff.mp hagree.sameFunctions
  have hlow := (sameAddress_iff hann).mp hagree.sameAddress ⟨0, 4, 0⟩ firstNvme_highBar
  exact absurd hlow (by decide)

end Pci

end AlopexOS
