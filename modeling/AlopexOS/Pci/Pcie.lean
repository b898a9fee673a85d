import AlopexOS.Pci.ConfigSpace

/-!
# `Pci.Pcie` — the traversals of `PCIe` (`src/PCI/pcie.cpp`)

`PCIe` goes through the buses twice: `scan_and_leach_resources` to see whether there is an NVMe controller,
and `find_nvme_bar0` for the address of the first. The command register that the first one writes is read by
neither. Both are compared with one list, that of the functions the loops find present.

## Contents
- **What a function says**, through `read32`.
- **The two traversals**, `initialize`.
- **Visited functions**: the loops without their bodies, and what each traversal is in terms of them.
- **On a machine** the readings are those of the configuration space; which functions are visited.
-/

namespace AlopexOS

namespace Pci

/-! ## What a function says -/

/-- The vendor that a function reads as. -/
def vendorId (a : ConfigAccess) (bus slot func : UInt8) : UInt16 :=
  (read32 a bus slot func 0x00 &&& 0xFFFF).toUInt16

/-- The class test of both traversals. -/
def isNvme (a : ConfigAccess) (bus slot func : UInt8) : Bool :=
  let classRev := read32 a bus slot func 0x08
  let classCode := (classRev >>> 24).toUInt8
  let subclass := (classRev >>> 16).toUInt8
  classCode = 0x01 ∧ subclass = 0x08

/-- The header type that it reads as. -/
def headerType (a : ConfigAccess) (bus slot func : UInt8) : UInt8 :=
  (read32 a bus slot func 0x0C >>> 16).toUInt8

/-- `bar0`: the address in BAR 0, with its high half where the BAR says that there is one. -/
def bar0 (a : ConfigAccess) (bus slot func : UInt8) : UInt64 :=
  let bar0Lo := read32 a bus slot func 0x10
  let bar0Hi := if bar0Lo &&& 0x06 = 0x04 then read32 a bus slot func 0x14 else 0
  bar0Hi.toUInt64 <<< 32 ||| (bar0Lo &&& ~~~0x0F).toUInt64

/-! ## The two traversals -/

/-- `PCIe`: whether an NVMe controller was seen. -/
structure PCIe where
  active : Bool

/-- The inner loop of `scan_and_leach_resources` for the functions that are left, with `active`. -/
def leachFuncs (a : ConfigAccess) (bus slot : UInt8) : List UInt8 → Bool → Bool
  | [], active => active
  | func :: rest, active =>
      if vendorId a bus slot func = 0xFFFF then
        -- `break` at function 0, `continue` at the others
        if func = 0 then active else leachFuncs a bus slot rest active
      else
        let active := if isNvme a bus slot func = true then true else active
        -- a device that is not multi-function has no other functions
        if func = 0 ∧ headerType a bus slot func &&& 0x80 = 0 then active
        else leachFuncs a bus slot rest active

/-- `PCIe::scan_and_leach_resources`. -/
def scanAndLeachResources (a : ConfigAccess) (p : PCIe) : PCIe :=
  ⟨buses.foldl (fun active bus => slots.foldl (fun active slot => leachFuncs a bus slot funcs active) active)
    p.active⟩

/-- `initialize`, once the map of ACPI is read. -/
def initializePCIe (a : ConfigAccess) (p : PCIe) : PCIe :=
  if p.active = true then p else scanAndLeachResources a p

/-- The inner loop of `find_nvme_bar0`; `some` is its early return. -/
def findFuncs (a : ConfigAccess) (bus slot : UInt8) : List UInt8 → Option UInt64
  | [] => none
  | func :: rest =>
      if vendorId a bus slot func = 0xFFFF then
        if func = 0 then none else findFuncs a bus slot rest
      else if isNvme a bus slot func = true then some (bar0 a bus slot func)
      else if func = 0 ∧ headerType a bus slot func &&& 0x80 = 0 then none
      else findFuncs a bus slot rest

/-- `PCIe::find_nvme_bar0`: the first address, or 0. -/
def findNvmeBar0 (a : ConfigAccess) (p : PCIe) : UInt64 :=
  if p.active = true then
    (buses.findSome? fun bus => slots.findSome? fun slot => findFuncs a bus slot funcs).getD 0
  else 0

/-! ## Visited functions -/

/-- The functions of a device that the inner loops find present. -/
def presentFuncs (a : ConfigAccess) (bus slot : UInt8) : List UInt8 → List UInt8
  | [] => []
  | func :: rest =>
      if vendorId a bus slot func = 0xFFFF then
        if func = 0 then [] else presentFuncs a bus slot rest
      else if func = 0 ∧ headerType a bus slot func &&& 0x80 = 0 then [func]
      else func :: presentFuncs a bus slot rest

/-- The functions that the traversals visit, in their order. -/
def visited (a : ConfigAccess) : List PciLocation :=
  buses.flatMap fun bus => slots.flatMap fun slot =>
    (presentFuncs a bus slot funcs).map fun func => ⟨bus, slot, func⟩

/-- The function whose BAR `find_nvme_bar0` returns. -/
def nvmeFunction (a : ConfigAccess) : Option PciLocation :=
  (visited a).find? fun loc => isNvme a loc.bus loc.device loc.function

variable (a : ConfigAccess) (bus slot : UInt8)

theorem leachFuncs_eq (fs : List UInt8) (active : Bool) :
    leachFuncs a bus slot fs active = (active || (presentFuncs a bus slot fs).any (isNvme a bus slot)) := by
  induction fs generalizing active with
  | nil => exact (Bool.or_false active).symm
  | cons func rest ih =>
      have hactive : (if isNvme a bus slot func = true then true else active)
          = (active || isNvme a bus slot func) := by
        cases isNvme a bus slot func <;> cases active <;> rfl
      unfold leachFuncs presentFuncs
      simp only [hactive]
      split
      · split
        · exact (Bool.or_false active).symm
        · exact ih active
      · split
        · rw [List.any_cons, List.any_nil, Bool.or_false]
        · rw [ih, List.any_cons, Bool.or_assoc]

theorem findFuncs_eq (fs : List UInt8) :
    findFuncs a bus slot fs
      = ((presentFuncs a bus slot fs).find? (isNvme a bus slot)).map (bar0 a bus slot) := by
  induction fs with
  | nil => rfl
  | cons func rest ih =>
      unfold findFuncs presentFuncs
      split
      · split
        · rfl
        · exact ih
      · by_cases hnvme : isNvme a bus slot func = true
        · -- the early return, whatever the header says
          rw [if_pos hnvme]
          split
          · rw [List.find?_cons_of_pos hnvme, Option.map_some]
          · rw [List.find?_cons_of_pos hnvme, Option.map_some]
        · rw [if_neg hnvme]
          split
          · rw [List.find?_cons_of_neg hnvme]
            rfl
          · rw [List.find?_cons_of_neg hnvme]
            exact ih

/-- A loop that sets a flag where `f` holds. -/
theorem foldl_or {α : Type} (f : α → Bool) (l : List α) (active : Bool) :
    l.foldl (fun active x => active || f x) active = (active || l.any f) := by
  induction l generalizing active with
  | nil => exact (Bool.or_false active).symm
  | cons x l ih => rw [List.foldl_cons, ih, List.any_cons, Bool.or_assoc]

/-- **After the scan `PCIe` is active if some visited function is an NVMe controller.** -/
theorem initializePCIe_active :
    (initializePCIe a ⟨false⟩).active
      = (visited a).any fun loc => isNvme a loc.bus loc.device loc.function := by
  unfold initializePCIe scanAndLeachResources
  rw [if_neg Bool.false_ne_true]
  simp only [leachFuncs_eq, foldl_or, Bool.false_or, visited, List.any_flatMap, List.any_map]
  rfl

/-- **`find_nvme_bar0` returns the BAR of the first NVMe controller that is visited**, and 0 when there is
    none. -/
theorem findNvmeBar0_eq :
    findNvmeBar0 a (initializePCIe a ⟨false⟩)
      = match nvmeFunction a with
        | some loc => bar0 a loc.bus loc.device loc.function
        | none => 0 := by
  have hsearch : (buses.findSome? fun bus => slots.findSome? fun slot => findFuncs a bus slot funcs)
      = (nvmeFunction a).map fun loc => bar0 a loc.bus loc.device loc.function := by
    have hslot : ∀ bus slot, findFuncs a bus slot funcs
        = ((((presentFuncs a bus slot funcs).map fun func => (⟨bus, slot, func⟩ : PciLocation)).find?
            fun loc => isNvme a loc.bus loc.device loc.function).map
              fun loc => bar0 a loc.bus loc.device loc.function) := by
      intro bus slot
      rw [findFuncs_eq, List.find?_map, Option.map_map]
      rfl
    simp only [nvmeFunction, visited, List.find?_flatMap, List.map_findSome?, Function.comp_def, hslot]
  unfold findNvmeBar0
  rw [hsearch, initializePCIe_active]
  cases hfun : nvmeFunction a with
  | some loc =>
      have hany : ((visited a).any fun loc => isNvme a loc.bus loc.device loc.function) = true := by
        have hnvme := List.find?_some (show (visited a).find? _ = some loc from hfun)
        exact List.any_eq_true.mpr ⟨loc, List.mem_of_find?_eq_some hfun, hnvme⟩
      rw [if_pos hany]
      rfl
  | none =>
      split
      · rfl
      · rfl

/-! ## On a machine -/

section Machine

variable {cfg : ConfigSpace} {mapped : UInt8 → Bool} {bus slot func : UInt8}

theorem vendorId_of (hslot : slot < 32) (hfunc : func < 8) :
    vendorId (.of cfg mapped) bus slot func = 0xFFFF ↔ ¬ cfg.present ⟨bus, slot, func⟩ = true := by
  have hread : read32 (.of cfg mapped) bus slot func 0x00 = cfg bus slot func 0x00 :=
    read32_of 0x00 hslot hfunc (by decide)
  unfold vendorId
  rw [hread, ConfigSpace.present_iff, not_not]

theorem isNvme_of (hslot : slot < 32) (hfunc : func < 8) :
    isNvme (.of cfg mapped) bus slot func = cfg.nvmeClass ⟨bus, slot, func⟩ := by
  have hread : read32 (.of cfg mapped) bus slot func 0x08 = cfg bus slot func 0x08 :=
    read32_of 0x08 hslot hfunc (by decide)
  unfold isNvme
  rw [hread]
  rfl

theorem headerType_of (hslot : slot < 32) (hfunc : func < 8) :
    headerType (.of cfg mapped) bus slot func &&& 0x80 = 0
      ↔ ¬ cfg.multiFunction ⟨bus, slot, func⟩ = true := by
  have hread : read32 (.of cfg mapped) bus slot func 0x0C = cfg bus slot func 0x0C :=
    read32_of 0x0C hslot hfunc (by decide)
  unfold headerType ConfigSpace.multiFunction
  rw [hread, decide_eq_true_iff, not_not]
  rfl

theorem bar0_of (hslot : slot < 32) (hfunc : func < 8) :
    bar0 (.of cfg mapped) bus slot func
      = (cfg.bar0High ⟨bus, slot, func⟩).toUInt64 <<< 32
        ||| (cfg.register ⟨bus, slot, func⟩ 0x10 &&& ~~~0x0F).toUInt64 := by
  have hlo : read32 (.of cfg mapped) bus slot func 0x10 = cfg bus slot func 0x10 :=
    read32_of 0x10 hslot hfunc (by decide)
  have hhi : read32 (.of cfg mapped) bus slot func 0x14 = cfg bus slot func 0x14 :=
    read32_of 0x14 hslot hfunc (by decide)
  unfold bar0
  rw [hlo, hhi]
  rfl

/-- Behind function 0 the loop goes on to the last function. -/
theorem presentFuncs_rest (hslot : slot < 32) (fs : List UInt8) (hne : ∀ f ∈ fs, f ≠ 0 ∧ f < 8) :
    presentFuncs (.of cfg mapped) bus slot fs = fs.filter fun f => cfg.present ⟨bus, slot, f⟩ := by
  induction fs with
  | nil => rfl
  | cons f rest ih =>
      obtain ⟨⟨hf0, hf8⟩, hrest⟩ := List.forall_mem_cons.mp hne
      unfold presentFuncs
      by_cases hpres : cfg.present ⟨bus, slot, f⟩ = true
      · rw [if_neg fun h => (vendorId_of hslot hf8).mp h hpres, if_neg fun h => hf0 h.1, ih hrest,
          List.filter_cons_of_pos (p := fun f => cfg.present ⟨bus, slot, f⟩) hpres]
      · rw [if_pos ((vendorId_of hslot hf8).mpr hpres), if_neg hf0, ih hrest,
          List.filter_cons_of_neg (p := fun f => cfg.present ⟨bus, slot, f⟩) hpres]

theorem funcs_eq : funcs = 0 :: funcs.tail := rfl

theorem later_funcs : ∀ f ∈ funcs.tail, f ≠ 0 ∧ f < 8 := by decide +kernel

/-- **What the loop finds on a device**: nothing without function 0, that function alone when its header
    names no other, and else every function that is present. -/
theorem presentFuncs_funcs (hslot : slot < 32) :
    presentFuncs (.of cfg mapped) bus slot funcs
      = if cfg.present ⟨bus, slot, 0⟩ = true then
          0 :: if cfg.multiFunction ⟨bus, slot, 0⟩ = true then
            funcs.tail.filter fun f => cfg.present ⟨bus, slot, f⟩ else []
        else [] := by
  have hzero : (0 : UInt8) < 8 := by decide
  rw [funcs_eq]
  unfold presentFuncs
  by_cases hpres : cfg.present ⟨bus, slot, 0⟩ = true
  · rw [if_neg fun h => (vendorId_of hslot hzero).mp h hpres, if_pos hpres]
    by_cases hmulti : cfg.multiFunction ⟨bus, slot, 0⟩ = true
    · rw [if_neg fun h => (headerType_of hslot hzero).mp h.2 hmulti, if_pos hmulti,
        presentFuncs_rest hslot funcs.tail later_funcs]
      rfl
    · rw [if_pos ⟨rfl, (headerType_of hslot hzero).mpr hmulti⟩, if_neg hmulti]
  · rw [if_pos ((vendorId_of hslot hzero).mpr hpres), if_pos rfl, if_neg hpres]

theorem mem_presentFuncs (hslot : slot < 32) :
    func ∈ presentFuncs (.of cfg mapped) bus slot funcs
      ↔ func < 8 ∧ cfg.present ⟨bus, slot, func⟩ = true
        ∧ (func = 0 ∨ cfg.present ⟨bus, slot, 0⟩ = true ∧ cfg.multiFunction ⟨bus, slot, 0⟩ = true) := by
  rw [← mem_funcs, presentFuncs_funcs hslot]
  constructor
  · intro h
    split at h
    · rename_i hpres
      rcases List.mem_cons.mp h with rfl | hlater
      · exact ⟨List.mem_cons_self, hpres, .inl rfl⟩
      · split at hlater
        · rename_i hmulti
          obtain ⟨hmem, hfunc⟩ := List.mem_filter.mp hlater
          exact ⟨List.mem_of_mem_tail hmem, hfunc, .inr ⟨hpres, hmulti⟩⟩
        · cases hlater
    · cases h
  · -- a later function counts only when function 0 announces it
    rintro ⟨hmem, hfunc, hann⟩
    rw [funcs_eq] at hmem
    rcases List.mem_cons.mp hmem with rfl | hlater
    · rw [if_pos hfunc]
      exact List.mem_cons_self
    · obtain ⟨hpres, hmulti⟩ := hann.resolve_left (later_funcs func hlater).1
      rw [if_pos hpres, if_pos hmulti]
      exact List.mem_cons_of_mem _ (List.mem_filter.mpr ⟨hlater, hfunc⟩)

theorem mem_visited {loc : PciLocation} :
    loc ∈ visited (.of cfg mapped)
      ↔ loc ∈ locations ∧ cfg.present loc = true
        ∧ (loc.function = 0 ∨ cfg.present { loc with function := 0 } = true
            ∧ cfg.multiFunction { loc with function := 0 } = true) := by
  rw [mem_locations]
  constructor
  · intro h
    obtain ⟨bus, -, hbus⟩ := List.mem_flatMap.mp h
    obtain ⟨slot, hslot, hdev⟩ := List.mem_flatMap.mp hbus
    obtain ⟨func, hfunc, rfl⟩ := List.mem_map.mp hdev
    have hslot' := mem_slots.mp hslot
    obtain ⟨hlt, hrest⟩ := (mem_presentFuncs hslot').mp hfunc
    exact ⟨⟨hslot', hlt⟩, hrest⟩
  · rintro ⟨⟨hslot, hlt⟩, hrest⟩
    apply List.mem_flatMap.mpr
    refine ⟨loc.bus, mem_buses loc.bus, List.mem_flatMap.mpr ⟨loc.device, mem_slots.mpr hslot, ?_⟩⟩
    exact List.mem_map.mpr ⟨loc.function, (mem_presentFuncs hslot).mpr ⟨hlt, hrest⟩, rfl⟩

end Machine

end Pci

end AlopexOS
