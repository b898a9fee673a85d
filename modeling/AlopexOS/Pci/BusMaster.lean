import AlopexOS.Pci.Pcie
import Mathlib.Data.List.Nodup

/-!
# `Pci.BusMaster` — the scan that writes (`src/PCI/pcie.cpp`)

`scan_and_leach_resources` sets the bus master bit of every NVMe controller it meets, while it goes on reading
the configuration space it has just written to. `Pci.Pcie` leaves the writes out. Here the scan runs on a
machine that changes under it: which functions it visits is the same, and what it leaves behind is known for
every register.

## Contents
- **Writing a register**, through memory or through the ports.
- **The scan** as a program on the configuration space.
- **What is written** is the command register of the function, whichever way.
- **What the scan leaves.**
-/

namespace AlopexOS

namespace Pci

/-! ## Writing a register -/

/-- A machine whose configuration space can be written to. -/
structure ConfigMachine where
  mapped : UInt8 → Bool
  /-- What a register holds after a write: some of its bits cannot be set, some are cleared by writing ones.
      It depends on what it held, and on what was written. -/
  latch : PciLocation → UInt8 → UInt32 → UInt32 → UInt32

namespace ConfigMachine

variable (M : ConfigMachine)

/-- How the machine answers when its configuration space is `cfg`. -/
def access (cfg : ConfigSpace) : ConfigAccess := .of cfg M.mapped

/-- A register of a function is written. -/
def write (bus slot func reg : UInt8) (val : UInt32) (cfg : ConfigSpace) : ConfigSpace :=
  fun b s f r =>
    if b = bus ∧ s = slot ∧ f = func ∧ r = reg then M.latch ⟨b, s, f⟩ r (cfg b s f r) val else cfg b s f r

/-- `ECAM::write32`. -/
def ecamWrite32 (bus slot func : UInt8) (offset : UInt16) (val : UInt32) (cfg : ConfigSpace) : ConfigSpace :=
  if M.mapped bus = true then M.write bus slot func offset.toUInt8 val cfg else cfg

/-- An address written to port 0xCF8, and then a value to port 0xCFC. -/
def portsWrite (address val : UInt32) (cfg : ConfigSpace) : ConfigSpace :=
  if address &&& 0x80000000 = 0 then cfg
  else M.write (address >>> 16).toUInt8 (address >>> 11 &&& 31).toUInt8 (address >>> 8 &&& 7).toUInt8
    (address &&& 0xFC).toUInt8 val cfg

/-- `PCIe::config_write32`. -/
def configWrite32 (bus slot func offset : UInt8) (val : UInt32) (cfg : ConfigSpace) : ConfigSpace :=
  M.portsWrite (configAddress bus slot func offset) val cfg

/-- `PCIe::write32`. -/
def write32 (bus slot func : UInt8) (offset : UInt16) (val : UInt32) (cfg : ConfigSpace) : ConfigSpace :=
  let ecamAddr := (M.access cfg).ecam bus slot func 0x00
  if ecamAddr ≠ 0xFFFFFFFF then M.ecamWrite32 bus slot func offset val cfg
  else M.configWrite32 bus slot func offset.toUInt8 val cfg

/-! ## The scan -/

/-- `PCIe::enable_bus_master`: bit 2 of the command register is set. -/
def enableBusMaster (bus slot func : UInt8) (cfg : ConfigSpace) : ConfigSpace :=
  let cmdStatus := read32 (M.access cfg) bus slot func 0x04 ||| (1 : UInt32) <<< 2
  M.write32 bus slot func 0x04 cmdStatus cfg

/-- The inner loop of `scan_and_leach_resources` for the functions that are left, with `active`. -/
def scanFuncs (bus slot : UInt8) : List UInt8 → Bool × ConfigSpace → Bool × ConfigSpace
  | [], s => s
  | func :: rest, (active, cfg) =>
      if vendorId (M.access cfg) bus slot func = 0xFFFF then
        if func = 0 then (active, cfg) else scanFuncs bus slot rest (active, cfg)
      else
        let s :=
          if isNvme (M.access cfg) bus slot func = true then (true, M.enableBusMaster bus slot func cfg)
          else (active, cfg)
        -- the header is read after the write
        if func = 0 ∧ headerType (M.access s.2) bus slot func &&& 0x80 = 0 then s
        else scanFuncs bus slot rest s

/-- `scan_and_leach_resources`, with its writes. -/
def scan (s : Bool × ConfigSpace) : Bool × ConfigSpace :=
  buses.foldl (fun s bus => slots.foldl (fun s slot => M.scanFuncs bus slot funcs s) s) s

/-- `initialize`, once the map of ACPI is read. -/
def initializePCIe (s : Bool × ConfigSpace) : Bool × ConfigSpace := if s.1 = true then s else M.scan s

end ConfigMachine

/-! ## What is written -/

variable {M : ConfigMachine} {cfg cfg' : ConfigSpace} {mapped : UInt8 → Bool} {bus slot func reg : UInt8}

/-- The address that is written to the port names the register. -/
theorem configAddress_eq (hreg : reg &&& 0xFC = reg) :
    configAddress bus slot func reg = pciAddr bus slot func ||| reg.toUInt32 := by
  have hoff : reg.toUInt32 &&& 0xFC = reg.toUInt32 := by
    rw [show (0xFC : UInt32) = (0xFC : UInt8).toUInt32 from rfl, ← UInt8.toUInt32_and, hreg]
  have hbit : (1 : UInt32) <<< 31 = 0x80000000 := by decide
  unfold configAddress pciAddr
  rw [hoff, hbit, UInt32.or_comm _ 0x80000000]
  simp only [UInt32.or_assoc]

/-- **The ports decode what was put into an address.** -/
theorem decode_pciAddr (bus reg : UInt8) (hslot : slot < 32) (hfunc : func < 8) (hreg : reg &&& 0xFC = reg) :
    ¬ (pciAddr bus slot func ||| reg.toUInt32) &&& 0x80000000 = 0
      ∧ ((pciAddr bus slot func ||| reg.toUInt32) >>> 16).toUInt8 = bus
      ∧ ((pciAddr bus slot func ||| reg.toUInt32) >>> 11 &&& 31).toUInt8 = slot
      ∧ ((pciAddr bus slot func ||| reg.toUInt32) >>> 8 &&& 7).toUInt8 = func
      ∧ ((pciAddr bus slot func ||| reg.toUInt32) &&& 0xFC).toUInt8 = reg := by
  -- a space whose registers say where they are
  have hports := fun cfg => portsOf_pciAddr cfg bus reg hslot hfunc hreg
  generalize pciAddr bus slot func ||| reg.toUInt32 = address at hports ⊢
  have henable : ¬ address &&& 0x80000000 = 0 := by
    intro h0
    have hzero := hports fun _ _ _ _ => 0
    unfold portsOf at hzero
    rw [if_pos h0] at hzero
    exact absurd hzero (by decide)
  have hfield : ∀ cfg : ConfigSpace, cfg (address >>> 16).toUInt8 (address >>> 11 &&& 31).toUInt8
      (address >>> 8 &&& 7).toUInt8 (address &&& 0xFC).toUInt8 = cfg bus slot func reg := by
    intro cfg
    have hcfg := hports cfg
    unfold portsOf at hcfg
    rwa [if_neg henable] at hcfg
  have hinj : ∀ x y : UInt8, x.toUInt32 = y.toUInt32 → x = y := fun x y h => UInt8.toUInt32_inj.mp h
  exact ⟨henable, hinj _ _ (hfield fun b _ _ _ => b.toUInt32), hinj _ _ (hfield fun _ s _ _ => s.toUInt32),
    hinj _ _ (hfield fun _ _ f _ => f.toUInt32), hinj _ _ (hfield fun _ _ _ r => r.toUInt32)⟩

/-- **`write32` writes the register**, mapped or not. -/
theorem write32_of (reg : UInt8) (val : UInt32) (hslot : slot < 32) (hfunc : func < 8)
    (hreg : reg &&& 0xFC = reg) :
    M.write32 bus slot func reg.toUInt16 val cfg = M.write bus slot func reg val cfg := by
  have hport : M.configWrite32 bus slot func reg val cfg = M.write bus slot func reg val cfg := by
    obtain ⟨henable, hb, hs, hf, hr⟩ := decode_pciAddr bus reg hslot hfunc hreg
    unfold ConfigMachine.configWrite32 ConfigMachine.portsWrite
    rw [configAddress_eq hreg, if_neg henable, hb, hs, hf, hr]
  unfold ConfigMachine.write32 ConfigMachine.ecamWrite32 ConfigMachine.access ConfigAccess.of
  simp only [UInt8.toUInt8_toUInt16, hport]
  by_cases hmap : M.mapped bus = true
  · rw [if_pos hmap]
    split
    · rfl
    · rfl
  · -- an unmapped bus answers with all ones
    rw [if_neg hmap]
    rfl

/-- **`enable_bus_master` sets bit 2 of the command register**, as far as the function lets it. -/
theorem enableBusMaster_of (hslot : slot < 32) (hfunc : func < 8) :
    M.enableBusMaster bus slot func cfg = M.write bus slot func 0x04 (cfg bus slot func 0x04 ||| 4) cfg := by
  have hread : read32 (M.access cfg) bus slot func 0x04 = cfg bus slot func 0x04 :=
    read32_of 0x04 hslot hfunc (by decide)
  unfold ConfigMachine.enableBusMaster
  rw [hread]
  exact write32_of 0x04 _ hslot hfunc (by decide)

/-! ## What the scan leaves -/

/-- The spaces differ in command registers only. -/
def SameScan (cfg cfg' : ConfigSpace) : Prop :=
  ∀ bus slot func reg, reg ≠ 0x04 → cfg' bus slot func reg = cfg bus slot func reg

theorem SameScan.refl (cfg : ConfigSpace) : SameScan cfg cfg := fun _ _ _ _ _ => rfl

theorem SameScan.trans {cfg'' : ConfigSpace} (h : SameScan cfg cfg') (h' : SameScan cfg' cfg'') :
    SameScan cfg cfg'' :=
  fun bus slot func reg hreg => (h' bus slot func reg hreg).trans (h bus slot func reg hreg)

/-- A command register is written. -/
theorem sameScan_write (val : UInt32) : SameScan cfg (M.write bus slot func 0x04 val cfg) := by
  intro b s f r hr
  exact if_neg fun h => hr h.2.2.2

/-- **What the traversals read** of a function is not its command register. -/
theorem SameScan.read32 (h : SameScan cfg cfg') (hslot : slot < 32) (hfunc : func < 8) (reg : UInt8)
    (hreg : reg &&& 0xFC = reg ∧ reg ≠ 0x04) :
    Pci.read32 (.of cfg' mapped) bus slot func reg.toUInt16
      = Pci.read32 (.of cfg mapped) bus slot func reg.toUInt16 := by
  rw [read32_of reg hslot hfunc hreg.1, read32_of reg hslot hfunc hreg.1]
  exact h bus slot func reg hreg.2

theorem SameScan.vendorId (h : SameScan cfg cfg') (hslot : slot < 32) (hfunc : func < 8) :
    Pci.vendorId (.of cfg' mapped) bus slot func = Pci.vendorId (.of cfg mapped) bus slot func :=
  congrArg (fun x : UInt32 => (x &&& 0xFFFF).toUInt16) (h.read32 hslot hfunc 0x00 (by decide))

theorem SameScan.isNvme (h : SameScan cfg cfg') (hslot : slot < 32) (hfunc : func < 8) :
    Pci.isNvme (.of cfg' mapped) bus slot func = Pci.isNvme (.of cfg mapped) bus slot func := by
  have hread : Pci.read32 (.of cfg' mapped) bus slot func 0x08 = Pci.read32 (.of cfg mapped) bus slot func 0x08 :=
    h.read32 hslot hfunc 0x08 (by decide)
  unfold Pci.isNvme
  rw [hread]

theorem SameScan.headerType (h : SameScan cfg cfg') (hslot : slot < 32) (hfunc : func < 8) :
    Pci.headerType (.of cfg' mapped) bus slot func = Pci.headerType (.of cfg mapped) bus slot func :=
  congrArg (fun x : UInt32 => (x >>> 16).toUInt8) (h.read32 hslot hfunc 0x0C (by decide))

theorem SameScan.bar0 (h : SameScan cfg cfg') (hslot : slot < 32) (hfunc : func < 8) :
    Pci.bar0 (.of cfg' mapped) bus slot func = Pci.bar0 (.of cfg mapped) bus slot func := by
  have hlo : Pci.read32 (.of cfg' mapped) bus slot func 0x10 = Pci.read32 (.of cfg mapped) bus slot func 0x10 :=
    h.read32 hslot hfunc 0x10 (by decide)
  have hhi : Pci.read32 (.of cfg' mapped) bus slot func 0x14 = Pci.read32 (.of cfg mapped) bus slot func 0x14 :=
    h.read32 hslot hfunc 0x14 (by decide)
  unfold Pci.bar0
  rw [hlo, hhi]

/-- The same functions are found. -/
theorem SameScan.presentFuncs (h : SameScan cfg cfg') (hslot : slot < 32) {fs : List UInt8} (hfs : ∀ f ∈ fs, f < 8) :
    Pci.presentFuncs (.of cfg' mapped) bus slot fs = Pci.presentFuncs (.of cfg mapped) bus slot fs := by
  induction fs with
  | nil => rfl
  | cons func rest ih =>
      obtain ⟨hfunc, hrest⟩ := List.forall_mem_cons.mp hfs
      unfold Pci.presentFuncs
      rw [h.vendorId hslot hfunc, h.headerType hslot hfunc, ih hrest]

theorem SameScan.leachFuncs (h : SameScan cfg cfg') (hslot : slot < 32) {fs : List UInt8} (hfs : ∀ f ∈ fs, f < 8)
    (active : Bool) :
    Pci.leachFuncs (.of cfg' mapped) bus slot fs active = Pci.leachFuncs (.of cfg mapped) bus slot fs active := by
  induction fs generalizing active with
  | nil => rfl
  | cons func rest ih =>
      obtain ⟨hfunc, hrest⟩ := List.forall_mem_cons.mp hfs
      unfold Pci.leachFuncs
      simp only [h.vendorId hslot hfunc, h.headerType hslot hfunc, h.isNvme hslot hfunc, ih hrest]

theorem SameScan.findFuncs (h : SameScan cfg cfg') (hslot : slot < 32) {fs : List UInt8} (hfs : ∀ f ∈ fs, f < 8) :
    Pci.findFuncs (.of cfg' mapped) bus slot fs = Pci.findFuncs (.of cfg mapped) bus slot fs := by
  induction fs with
  | nil => rfl
  | cons func rest ih =>
      obtain ⟨hfunc, hrest⟩ := List.forall_mem_cons.mp hfs
      unfold Pci.findFuncs
      simp only [h.vendorId hslot hfunc, h.headerType hslot hfunc, h.isNvme hslot hfunc, h.bar0 hslot hfunc,
        ih hrest]

theorem findSome?_congr {α β : Type} {f g : α → Option β} {l : List α} (h : ∀ x ∈ l, f x = g x) :
    l.findSome? f = l.findSome? g := by
  induction l with
  | nil => rfl
  | cons x l ih =>
      obtain ⟨hx, hl⟩ := List.forall_mem_cons.mp h
      rw [List.findSome?_cons, List.findSome?_cons, hx, ih hl]

/-- The same BAR is found. -/
theorem SameScan.findNvmeBar0 (h : SameScan cfg cfg') (p : PCIe) :
    Pci.findNvmeBar0 (.of cfg' mapped) p = Pci.findNvmeBar0 (.of cfg mapped) p := by
  have hfs : ∀ f ∈ funcs, f < 8 := fun f hf => mem_funcs.mp hf
  unfold Pci.findNvmeBar0
  rw [findSome?_congr fun bus _ => findSome?_congr fun slot hslot => h.findFuncs (mem_slots.mp hslot) hfs]

/-- What becomes of the space when a function is visited. -/
def ConfigMachine.visit (M : ConfigMachine) (cfg : ConfigSpace) (loc : PciLocation) : ConfigSpace :=
  if isNvme (M.access cfg) loc.bus loc.device loc.function = true then
    M.write loc.bus loc.device loc.function 0x04 (cfg loc.bus loc.device loc.function 0x04 ||| 4) cfg
  else cfg

theorem sameScan_visit (loc : PciLocation) : SameScan cfg (M.visit cfg loc) := by
  unfold ConfigMachine.visit
  split
  · exact sameScan_write _
  · exact SameScan.refl cfg

theorem sameScan_foldl (locs : List PciLocation) : SameScan cfg (locs.foldl M.visit cfg) := by
  induction locs generalizing cfg with
  | nil => exact SameScan.refl cfg
  | cons loc locs ih => exact (sameScan_visit loc).trans ih

/-- **The inner loop**, with its writes: the functions it finds are visited one after the other. -/
theorem scanFuncs_eq (hslot : slot < 32) {fs : List UInt8} (hfs : ∀ f ∈ fs, f < 8) (active : Bool) :
    M.scanFuncs bus slot fs (active, cfg)
      = (leachFuncs (M.access cfg) bus slot fs active,
          ((presentFuncs (M.access cfg) bus slot fs).map fun func => (⟨bus, slot, func⟩ : PciLocation)).foldl
            M.visit cfg) := by
  induction fs generalizing active cfg with
  | nil => rfl
  | cons func rest ih =>
      obtain ⟨hfunc, hrest⟩ := List.forall_mem_cons.mp hfs
      unfold ConfigMachine.scanFuncs leachFuncs presentFuncs
      split
      · split
        · rfl
        · exact ih hrest active
      · have hvisit : (if isNvme (M.access cfg) bus slot func = true then (true, M.enableBusMaster bus slot func cfg)
            else (active, cfg))
            = (if isNvme (M.access cfg) bus slot func = true then true else active,
                M.visit cfg ⟨bus, slot, func⟩) := by
          unfold ConfigMachine.visit
          split
          · rw [enableBusMaster_of hslot hfunc]
          · rfl
        have hsame : SameScan cfg (M.visit cfg ⟨bus, slot, func⟩) := sameScan_visit _
        have hheader : headerType (M.access (M.visit cfg ⟨bus, slot, func⟩)) bus slot func
            = headerType (M.access cfg) bus slot func := hsame.headerType hslot hfunc
        simp only [hvisit, hheader]
        split
        · rfl
        · -- the rest is scanned on the space as it is now
          have hpresent : presentFuncs (M.access (M.visit cfg ⟨bus, slot, func⟩)) bus slot rest
              = presentFuncs (M.access cfg) bus slot rest := hsame.presentFuncs hslot hrest
          have hleach := fun active => @SameScan.leachFuncs _ _ M.mapped bus slot hsame hslot rest hrest active
          rw [ih hrest, hpresent, List.map_cons, List.foldl_cons]
          exact Prod.ext (hleach _) rfl

/-- The functions of a device that the loops find are some of those they go through. -/
theorem presentFuncs_sublist (a : ConfigAccess) (bus slot : UInt8) (fs : List UInt8) :
    (presentFuncs a bus slot fs).Sublist fs := by
  induction fs with
  | nil => exact .slnil
  | cons func rest ih =>
      unfold presentFuncs
      split
      · split
        · exact List.nil_sublist _
        · exact ih.cons func
      · split
        · exact (List.nil_sublist rest).cons_cons func
        · exact ih.cons_cons func

/-- **No function is visited twice.** -/
theorem nodup_visited (a : ConfigAccess) : (visited a).Nodup := by
  have hbuses : buses.Nodup := by decide +kernel
  have hslots : slots.Nodup := by decide +kernel
  have hfuncs : funcs.Nodup := by decide +kernel
  refine List.nodup_flatMap.mpr ⟨fun bus _ => List.nodup_flatMap.mpr ⟨fun slot _ => ?_, ?_⟩, ?_⟩
  · refine ((presentFuncs_sublist a bus slot funcs).nodup hfuncs).map ?_
    intro f f' heq
    exact congrArg PciLocation.function heq
  · refine hslots.imp fun hne loc h h' => ?_
    obtain ⟨f, -, rfl⟩ := List.mem_map.mp h
    obtain ⟨f', -, heq⟩ := List.mem_map.mp h'
    exact hne (congrArg PciLocation.device heq).symm
  · refine hbuses.imp fun hne loc h h' => ?_
    obtain ⟨slot, -, hloc⟩ := List.mem_flatMap.mp h
    obtain ⟨f, -, rfl⟩ := List.mem_map.mp hloc
    obtain ⟨slot', -, hloc'⟩ := List.mem_flatMap.mp h'
    obtain ⟨f', -, heq⟩ := List.mem_map.mp hloc'
    exact hne (congrArg PciLocation.bus heq).symm

/-- A loop whose rounds set the flag as one says and visit the functions of another. -/
theorem foldl_rounds {α : Type} {f : Bool × ConfigSpace → α → Bool × ConfigSpace} {g : Bool → α → Bool}
    {h : α → List PciLocation} {l : List α} {active : Bool}
    (hround : ∀ x ∈ l, ∀ b c, SameScan cfg c → f (b, c) x = (g b x, (h x).foldl M.visit c))
    (hc : SameScan cfg cfg') : l.foldl f (active, cfg') = (l.foldl g active, (l.flatMap h).foldl M.visit cfg') := by
  induction l generalizing active cfg' with
  | nil => rfl
  | cons x l ih =>
      obtain ⟨hx, hl⟩ := List.forall_mem_cons.mp hround
      rw [List.foldl_cons, List.foldl_cons, hx active cfg' hc, List.flatMap_cons, List.foldl_append]
      exact ih hl (hc.trans (sameScan_foldl _))

/-- The loops over some buses and devices. -/
theorem foldl_scanFuncs (bs ss : List UInt8) (hss : ∀ slot ∈ ss, slot < 32) (active : Bool) :
    bs.foldl (fun s bus => ss.foldl (fun s slot => M.scanFuncs bus slot funcs s) s) (active, cfg)
      = (bs.foldl (fun active bus => ss.foldl (fun active slot =>
            leachFuncs (M.access cfg) bus slot funcs active) active) active,
          (bs.flatMap fun bus => ss.flatMap fun slot => (presentFuncs (M.access cfg) bus slot funcs).map
            fun func => (⟨bus, slot, func⟩ : PciLocation)).foldl M.visit cfg) := by
  have hfs : ∀ f ∈ funcs, f < 8 := fun f hf => mem_funcs.mp hf
  refine foldl_rounds (fun bus _ b c hc => foldl_rounds (fun slot hmem b c hc => ?_) hc) (SameScan.refl cfg)
  have hpresent : presentFuncs (M.access c) bus slot funcs = presentFuncs (M.access cfg) bus slot funcs :=
    hc.presentFuncs (hss slot hmem) hfs
  have hleach := @SameScan.leachFuncs _ _ M.mapped bus slot hc (hss slot hmem) funcs hfs b
  rw [scanFuncs_eq (hss slot hmem) hfs, hpresent]
  exact Prod.ext hleach rfl

/-- **The whole scan**, with its writes. -/
theorem scan_eq (active : Bool) :
    M.scan (active, cfg) = ((scanAndLeachResources (M.access cfg) ⟨active⟩).active,
      (visited (M.access cfg)).foldl M.visit cfg) := by
  have hslots : ∀ slot ∈ slots, slot < 32 := fun _ hmem => mem_slots.mp hmem
  unfold ConfigMachine.scan scanAndLeachResources visited
  dsimp only
  rw [foldl_scanFuncs buses slots hslots active]

/-- A visit changes the command register of an NVMe controller. -/
theorem register_visit {first : PciLocation} (hfirst : first.device < 32 ∧ first.function < 8) (loc : PciLocation)
    (reg : UInt8) :
    (M.visit cfg first).register loc reg
      = if reg = 0x04 ∧ loc = first ∧ cfg.nvmeClass loc = true then
          M.latch loc 0x04 (cfg.register loc 0x04) (cfg.register loc 0x04 ||| 4)
        else cfg.register loc reg := by
  have hclass : isNvme (M.access cfg) first.bus first.device first.function = cfg.nvmeClass first :=
    isNvme_of hfirst.1 hfirst.2
  unfold ConfigMachine.visit
  rw [hclass]
  by_cases hnvme : cfg.nvmeClass first = true
  · rw [if_pos hnvme]
    unfold ConfigSpace.register ConfigMachine.write
    by_cases hloc : loc = first
    · subst hloc
      by_cases hreg : reg = 0x04
      · rw [if_pos ⟨rfl, rfl, rfl, hreg⟩, if_pos ⟨hreg, rfl, hnvme⟩, hreg]
      · rw [if_neg fun h => hreg h.2.2.2, if_neg fun h => hreg h.1]
    · have hne : ¬ (loc.bus = first.bus ∧ loc.device = first.device ∧ loc.function = first.function
          ∧ reg = 0x04) := by
        rintro ⟨hb, hs, hf, -⟩
        obtain ⟨b, s, f⟩ := loc
        obtain ⟨b', s', f'⟩ := first
        exact hloc ((PciLocation.mk.injEq _ _ _ _ _ _).mpr ⟨hb, hs, hf⟩)
      have hother : ¬ (reg = 0x04 ∧ loc = first ∧ cfg.nvmeClass loc = true) := fun h => hloc h.2.1
      rw [if_neg hne, if_neg hother]
  · have hother : ¬ (reg = 0x04 ∧ loc = first ∧ cfg.nvmeClass loc = true) := by
      rintro ⟨-, rfl, hnvme'⟩
      exact hnvme hnvme'
    rw [if_neg hnvme, if_neg hother]

theorem nvmeClass_visit (first loc : PciLocation) : (M.visit cfg first).nvmeClass loc = cfg.nvmeClass loc := by
  unfold ConfigSpace.nvmeClass ConfigSpace.register
  rw [sameScan_visit first loc.bus loc.device loc.function 0x08 (by decide)]

/-- **Functions that are visited once each.** -/
theorem register_foldl_visit {locs : List PciLocation} (hnodup : locs.Nodup)
    (hlocs : ∀ loc ∈ locs, loc.device < 32 ∧ loc.function < 8) (loc : PciLocation) (reg : UInt8) :
    (locs.foldl M.visit cfg).register loc reg
      = if reg = 0x04 ∧ loc ∈ locs ∧ cfg.nvmeClass loc = true then
          M.latch loc 0x04 (cfg.register loc 0x04) (cfg.register loc 0x04 ||| 4)
        else cfg.register loc reg := by
  induction locs generalizing cfg with
  | nil => exact (if_neg fun h => List.not_mem_nil h.2.1).symm
  | cons first rest ih =>
      obtain ⟨hnew, hrest⟩ := List.nodup_cons.mp hnodup
      obtain ⟨hfirst, hlater⟩ := List.forall_mem_cons.mp hlocs
      have hvisit := fun reg => @register_visit M cfg first hfirst loc reg
      rw [List.foldl_cons, ih hrest hlater, nvmeClass_visit, hvisit, hvisit]
      by_cases hloc : loc = first
      · subst hloc
        simp only [hnew, false_and, and_false, if_false, true_and, List.mem_cons, true_or]
      · simp only [hloc, false_and, and_false, if_false, List.mem_cons, false_or]

/-- **The scan enables bus mastering where it should, and nowhere else.** After `initialize` exactly the command
    registers of the NVMe controllers among the visited functions were written, each once and with bit 2 set in
    what it held. The writes disturb neither the scan nor the search for BAR 0 that follows it. -/
theorem initialize_enables (M : ConfigMachine) (cfg : ConfigSpace) :
    (M.initializePCIe (false, cfg)).1 = (initializePCIe (M.access cfg) ⟨false⟩).active
    ∧ (∀ loc reg, (M.initializePCIe (false, cfg)).2.register loc reg
        = if reg = 0x04 ∧ loc ∈ visited (M.access cfg) ∧ cfg.nvmeClass loc = true then
            M.latch loc 0x04 (cfg.register loc 0x04) (cfg.register loc 0x04 ||| 4)
          else cfg.register loc reg)
    ∧ findNvmeBar0 (M.access (M.initializePCIe (false, cfg)).2) ⟨(M.initializePCIe (false, cfg)).1⟩
        = findNvmeBar0 (M.access cfg) (initializePCIe (M.access cfg) ⟨false⟩) := by
  have hscan : M.initializePCIe (false, cfg) = ((initializePCIe (M.access cfg) ⟨false⟩).active,
      (visited (M.access cfg)).foldl M.visit cfg) := by
    unfold ConfigMachine.initializePCIe initializePCIe
    simp only [Bool.false_eq_true, if_false]
    rw [scan_eq]
  generalize initializePCIe (M.access cfg) ⟨false⟩ = p at hscan ⊢
  rw [hscan]
  refine ⟨rfl, fun loc reg => ?_, ?_⟩
  · refine register_foldl_visit (nodup_visited _) (fun loc hloc => ?_) loc reg
    exact mem_locations.mp (mem_visited.mp hloc).1
  · exact (sameScan_foldl (visited (M.access cfg))).findNvmeBar0 _

end Pci

end AlopexOS
