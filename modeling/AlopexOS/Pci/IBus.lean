import AlopexOS.Pci.ConfigSpace

/-!
# `Pci.IBus` — the scan of `AlopexIBus` (`src/AlopexIBus/AlopexIBus.cpp`)

`scan_pci_bus` asks every function of every device through the ports and keeps a record of each that is
there; `get_storage_devices` gives those whose type is one of storage.

## Contents
- **Data**: types and records.
- **The scan** and the storage devices.
- **On a machine** the records are those of the functions that are present.
-/

namespace AlopexOS

namespace Pci

/-! ## Data -/

/-- `BusType`. -/
inductive BusType where
  | pci
  | pcie
  | nrzi
  | serial
  | gpio
  deriving DecidableEq

/-- `PhysicalDeducedType`. -/
inductive PhysicalDeducedType where
  | unknown
  | nvme
  | ahciSata
  | usbHost
  | genericSerialPort
  | rawBlockStorage
  | gpioController
  | gpioBitbangDevice
  deriving DecidableEq

/-- `BusDeviceInfo`, as far as the scan fills it in. -/
structure BusDeviceInfo where
  busType : BusType
  deducedType : PhysicalDeducedType
  vendorId : UInt16
  deviceId : UInt16
  baseAddress : UInt64
  location : PciLocation
  deriving DecidableEq

/-- `AlopexIBus`: the devices that were found. -/
structure AlopexIBus where
  discoveredDevices : List BusDeviceInfo

/-! ## The scan -/

/-- `AlopexIBus::deduce_pci_type`. -/
def deducePciType (classCode subclassCode progIf : UInt8) : PhysicalDeducedType :=
  if classCode = 0x01 then
    if subclassCode = 0x08 ∧ progIf = 0x02 then .nvme
    else if subclassCode = 0x06 ∧ progIf = 0x01 then .ahciSata
    else .rawBlockStorage
  else if classCode = 0x0C ∧ subclassCode = 0x03 then .usbHost
  else .unknown

/-- A round of the inner loop of `scan_pci_bus`. -/
def scanFunction (a : ConfigAccess) (bus dev func : UInt8) : Option BusDeviceInfo :=
  let vendorDevice := a.ports (pciAddr bus dev func)
  let vendorId := (vendorDevice &&& 0xFFFF).toUInt16
  if vendorId = 0xFFFF then none
  else
    let deviceId := (vendorDevice >>> 16 &&& 0xFFFF).toUInt16
    let classRev := a.ports (pciAddr bus dev func ||| 0x08)
    let progIf := (classRev >>> 8 &&& 0xFF).toUInt8
    let subclassCode := (classRev >>> 16 &&& 0xFF).toUInt8
    let classCode := (classRev >>> 24 &&& 0xFF).toUInt8
    let bar0 := a.ports (pciAddr bus dev func ||| 0x10)
    some {
      busType := .pcie
      deducedType := deducePciType classCode subclassCode progIf
      vendorId
      deviceId
      baseAddress := (bar0 &&& ~~~0x0F).toUInt64
      location := ⟨bus, dev, func⟩ }

/-- The records that `scan_pci_bus` appends. -/
def scanPciBus (a : ConfigAccess) : List BusDeviceInfo :=
  buses.flatMap fun bus => slots.flatMap fun dev => funcs.filterMap fun func => scanFunction a bus dev func

/-- `scan_all_buses`; there is nothing on the GPIO bus. -/
def scanAllBuses (a : ConfigAccess) : AlopexIBus := ⟨scanPciBus a⟩

namespace AlopexIBus

/-- `AlopexIBus::get_storage_devices`. -/
def getStorageDevices (ibus : AlopexIBus) : List BusDeviceInfo :=
  ibus.discoveredDevices.filter fun info =>
    info.deducedType = .nvme ∨ info.deducedType = .ahciSata ∨ info.deducedType = .rawBlockStorage

end AlopexIBus

/-- What a function is recorded as when its class is mass storage. -/
theorem deducePciType_storage (subclassCode progIf : UInt8) :
    deducePciType 0x01 subclassCode progIf = .nvme ∨ deducePciType 0x01 subclassCode progIf = .ahciSata
      ∨ deducePciType 0x01 subclassCode progIf = .rawBlockStorage := by
  unfold deducePciType
  rw [if_pos rfl]
  split
  · exact .inl rfl
  · split
    · exact .inr (.inl rfl)
    · exact .inr (.inr rfl)

/-! ## On a machine -/

variable {cfg : ConfigSpace} {mapped : UInt8 → Bool}

/-- The record of a function. -/
def recordOf (cfg : ConfigSpace) (loc : PciLocation) : BusDeviceInfo where
  busType := .pcie
  deducedType := deducePciType (cfg.register loc 0x08 >>> 24).toUInt8 (cfg.register loc 0x08 >>> 16).toUInt8
    (cfg.register loc 0x08 >>> 8).toUInt8
  vendorId := (cfg.register loc 0x00 &&& 0xFFFF).toUInt16
  deviceId := (cfg.register loc 0x00 >>> 16 &&& 0xFFFF).toUInt16
  baseAddress := (cfg.register loc 0x10 &&& ~~~0x0F).toUInt64
  location := loc

theorem toUInt8_and_0xFF (x : UInt32) : (x &&& 0xFF).toUInt8 = x.toUInt8 := by
  rw [UInt32.toUInt8_and]
  exact UInt8.and_neg_one

theorem scanFunction_of {bus dev func : UInt8} (hdev : dev < 32) (hfunc : func < 8) :
    scanFunction (.of cfg mapped) bus dev func
      = if cfg.present ⟨bus, dev, func⟩ = true then some (recordOf cfg ⟨bus, dev, func⟩) else none := by
  -- the address of register 0 is the one with nothing added
  have hid : portsOf cfg (pciAddr bus dev func) = cfg bus dev func 0x00 := by
    have hread := portsOf_pciAddr cfg bus 0x00 hdev hfunc (by decide)
    rwa [show (0x00 : UInt8).toUInt32 = 0 from rfl, UInt32.or_zero] at hread
  have hclass : portsOf cfg (pciAddr bus dev func ||| 0x08) = cfg bus dev func 0x08 :=
    portsOf_pciAddr cfg bus 0x08 hdev hfunc (by decide)
  have hbar : portsOf cfg (pciAddr bus dev func ||| 0x10) = cfg bus dev func 0x10 :=
    portsOf_pciAddr cfg bus 0x10 hdev hfunc (by decide)
  have hports : (ConfigAccess.of cfg mapped).ports = portsOf cfg := rfl
  unfold scanFunction
  rw [hports, hid, hclass, hbar]
  simp only [toUInt8_and_0xFF]
  by_cases hpres : cfg.present ⟨bus, dev, func⟩ = true
  · rw [if_pos hpres, if_neg (ConfigSpace.present_iff.mp hpres)]
    rfl
  · rw [if_neg hpres, if_pos (not_not.mp fun h => hpres (ConfigSpace.present_iff.mpr h))]

/-- **The scan records exactly the functions that are present.** -/
theorem mem_scanPciBus {info : BusDeviceInfo} :
    info ∈ scanPciBus (.of cfg mapped)
      ↔ ∃ loc ∈ locations, cfg.present loc = true ∧ info = recordOf cfg loc := by
  constructor
  · intro h
    obtain ⟨bus, -, hbus⟩ := List.mem_flatMap.mp h
    obtain ⟨dev, hdev, hslot⟩ := List.mem_flatMap.mp hbus
    obtain ⟨func, hfunc, hinfo⟩ := List.mem_filterMap.mp hslot
    have hdev' := mem_slots.mp hdev
    have hfunc' := mem_funcs.mp hfunc
    rw [scanFunction_of hdev' hfunc'] at hinfo
    split at hinfo
    · rename_i hpres
      exact ⟨⟨bus, dev, func⟩, mem_locations.mpr ⟨hdev', hfunc'⟩, hpres, (Option.some.inj hinfo).symm⟩
    · cases hinfo
  · rintro ⟨loc, hloc, hpres, rfl⟩
    obtain ⟨hdev, hfunc⟩ := mem_locations.mp hloc
    apply List.mem_flatMap.mpr
    refine ⟨loc.bus, mem_buses loc.bus, List.mem_flatMap.mpr ⟨loc.device, mem_slots.mpr hdev, ?_⟩⟩
    apply List.mem_filterMap.mpr
    refine ⟨loc.function, mem_funcs.mpr hfunc, ?_⟩
    rw [scanFunction_of hdev hfunc]
    exact if_pos hpres

/-- A function of the class that `PCIe` looks for is listed, whatever its programming interface. -/
theorem mem_getStorageDevices {loc : PciLocation} (hloc : loc ∈ locations)
    (hpres : cfg.present loc = true) (hnvme : cfg.nvmeClass loc = true) :
    recordOf cfg loc ∈ (scanAllBuses (.of cfg mapped)).getStorageDevices := by
  have hclass : (cfg.register loc 0x08 >>> 24).toUInt8 = 0x01 := (of_decide_eq_true hnvme).1
  apply List.mem_filter.mpr
  constructor
  · exact mem_scanPciBus.mpr ⟨loc, hloc, hpres, rfl⟩
  · apply decide_eq_true
    show deducePciType (cfg.register loc 0x08 >>> 24).toUInt8 _ _ = _ ∨ _
    simp only [recordOf, hclass]
    exact deducePciType_storage _ _

end Pci

end AlopexOS
