import AlopexOS.Avfs.Avfs
import AlopexOS.Lib.Run
import Mathlib.Data.List.Nodup
import Mathlib.Data.List.TakeWhile

/-!
# `Avfs.Drives` — the list of drives

`Init` registers a drive for each storage device of the bus under the name of a `gaossd` device. Before it
does, it looks for a drive with that name, and says so when it skips one. The comparison is one of pointers
into different arrays, so it never finds any, and every storage device is registered.

## Contents
- **The name** a storage device gets.
- **Calls of `Init`** and the names they leave.
- **When names are unique**.
-/

namespace AlopexOS

open Packed CString

/-! ## The name of a storage device -/

/-- The name of a device as `Init` shows it. -/
def PhysicalStorage.shownName (dev : PhysicalStorage) : List UInt8 :=
  if dev.name.get 0 ≠ 0 then cstr dev.name.get 0 64 else AVFS.defaultName

/-- The device behind an address: the first that has it, or the first of all. -/
def deviceBehind (devices : List PhysicalStorage) (base : UInt64) : Option PhysicalStorage :=
  (devices.find? fun dev => dev.address = base).or devices.head?

/-- One call of `Init`, with the device table and the bus it finds. -/
structure InitCall where
  gaossd : DeviceTable
  bus : BusReport

/-- The names that the storage devices of the bus get, for as long as there is a device at all. -/
def InitCall.names (call : InitCall) : List (List UInt8) :=
  call.bus.storageDevices.filterMap fun base =>
    (deviceBehind call.gaossd.devices base).map PhysicalStorage.shownName

namespace AVFS

variable {a a' : AVFS} {devices : List PhysicalStorage} {base : UInt64}

/-- How the loop over the table ends. -/
theorem matchFrom_cases (base : UInt64) (devices : List PhysicalStorage) (h : Nat) :
    (∃ k dev, matchFrom base devices h = some (h + k) ∧ devices[k]? = some dev
      ∧ (devices.find? fun dev => dev.address = base) = some dev)
    ∨ matchFrom base devices h = none ∧ (devices.find? fun dev => dev.address = base) = none := by
  induction devices generalizing h with
  | nil => exact Or.inr ⟨rfl, rfl⟩
  | cons dev devices ih =>
      simp only [matchFrom]
      by_cases heq : dev.address = base
      · rw [if_pos heq, List.find?_cons_of_pos (by simpa using heq)]
        exact Or.inl ⟨0, dev, rfl, rfl, rfl⟩
      · rw [if_neg heq, List.find?_cons_of_neg (by simpa using heq)]
        rcases ih (h + 1) with ⟨k, dev', hk, hget, hfind⟩ | hnone
        · refine Or.inl ⟨k + 1, dev', ?_, ?_, hfind⟩
          · rw [hk]
            congr 1
            omega
          · rw [List.getElem?_cons_succ, hget]
        · exact Or.inr hnone

/-- **The entry at the matched handle** is the device behind the address. -/
theorem matchedHandle_cases (devices : List PhysicalStorage) (base : UInt64) :
    (∃ h dev, matchedHandle devices base = some h ∧ devices[h]? = some dev
      ∧ deviceBehind devices base = some dev)
    ∨ matchedHandle devices base = none ∧ devices = [] ∧ deviceBehind devices base = none := by
  unfold matchedHandle deviceBehind
  rcases matchFrom_cases base devices 0 with ⟨k, dev, hk, hget, hfind⟩ | ⟨hno, hfind⟩
  · rw [hk, hfind, Nat.zero_add]
    exact Or.inl ⟨k, dev, rfl, hget, rfl⟩
  · rw [hno, hfind]
    cases devices with
    | nil => exact Or.inr ⟨rfl, rfl, rfl⟩
    | cons dev devices => exact Or.inl ⟨0, dev, rfl, rfl, rfl⟩

/-- No copied name is where the name of a device is. -/
theorem isRegistered_deviceName (drives : List Drive) (h : Nat) (dev : PhysicalStorage) :
    isRegistered drives (deviceName h dev).1 = false := by
  unfold isRegistered deviceName
  rw [List.any_eq_false]
  intro k _
  split <;> simp

theorem deviceName_snd (h : Nat) (dev : PhysicalStorage) : (deviceName h dev).2 = dev.shownName := by
  unfold deviceName PhysicalStorage.shownName
  split <;> rfl

/-! ## Calls of `Init` -/

/-- **One round registers a drive** whenever there is a device, whatever is registered already. -/
theorem register_eq (a : AVFS) (base : UInt64) :
    a.register base = { a with
      drives := a.drives ++ ((deviceBehind a.gaossd.devices base).map fun dev =>
        (⟨base, dev.shownName, []⟩ : Drive)).toList } := by
  unfold register
  rcases matchedHandle_cases a.gaossd.devices base with ⟨h, dev, hm, hget, hdev⟩ | ⟨hm, _, hdev⟩
  · simp only [hm, hget, hdev, isRegistered_deviceName, deviceName_snd, Bool.false_eq_true, if_false]
    rfl
  · simp only [hm, hdev, Option.map_none, Option.toList_none, List.append_nil]

/-- A drive that was registered and is not mounted. -/
def newDrive (devices : List PhysicalStorage) (base : UInt64) : Option Drive :=
  (deviceBehind devices base).map fun dev => ⟨base, dev.shownName, []⟩

theorem foldl_register (bases : List UInt64) (a : AVFS) :
    bases.foldl register a
      = { a with drives := a.drives ++ bases.filterMap (newDrive a.gaossd.devices) } := by
  induction bases generalizing a with
  | nil => simp
  | cons base bases ih =>
      rw [List.foldl_cons, ih, register_eq]
      simp only [List.append_assoc, List.filterMap_cons, newDrive]
      cases deviceBehind a.gaossd.devices base <;> rfl

/-- **`Init` appends a drive for each storage device.** -/
theorem drives_init (a : AVFS) (bus : BusReport) :
    (a.init bus).drives
      = a.drives ++ bus.storageDevices.filterMap (newDrive a.gaossd.devices) := by
  rw [init, foldl_register]

/-- A call of `Init` after the device table was attached. -/
def InitStep (a : AVFS) (call : InitCall) (a' : AVFS) : Prop :=
  a' = (a.attachGaossd call.gaossd).init call.bus

theorem names_init (h : InitStep a call a') :
    a'.drives.map Drive.name = a.drives.map Drive.name ++ call.names := by
  rw [h, drives_init, List.map_append, List.map_filterMap]
  congr 2
  funext base
  simp only [newDrive, Option.map_map]
  rfl

/-- **The names after a run** are those of all its calls, one after the other. -/
theorem names_of_run {g : DeviceTable} {calls : List InitCall} (h : Run InitStep (attached g) calls a) :
    a.drives.map Drive.name = calls.flatMap InitCall.names := by
  refine h.history (H := fun calls a => a.drives.map Drive.name = calls.flatMap InitCall.names)
    (fun as s c s' hstep ih => ?_) rfl
  rw [names_init hstep, ih, List.flatMap_append, List.flatMap_singleton]

/-- `Init` mounts nothing. -/
theorem format_of_run {g : DeviceTable} {calls : List InitCall} (h : Run InitStep (attached g) calls a) :
    ∀ d ∈ a.drives, d.format = [] := by
  refine h.invariant (I := fun a => ∀ d ∈ a.drives, d.format = []) (fun s call s' hstep hs => ?_) (by simp [attached])
  rw [hstep, drives_init]
  refine List.forall_mem_append.mpr ⟨hs, fun d hd => ?_⟩
  obtain ⟨base, _, hnew⟩ := List.mem_filterMap.mp hd
  obtain ⟨dev, _, rfl⟩ := Option.map_eq_some_iff.mp hnew
  rfl

/-! ## When names are unique -/

/-- No two drives have the same name. -/
def UniqueNames (a : AVFS) : Prop := (a.drives.map Drive.name).Nodup

/-- The drive that is found under a name is the only one that has it. -/
def FirstMatchOnly (a : AVFS) : Prop :=
  ∀ (name : List UInt8) (i j : Fin a.drives.length),
    a.retrieveDrive name = .ok i → (a.drives.get j).name = name → j = i

/-- What `retrieveDrive` finds has the name. -/
theorem name_retrieveDrive {name : List UInt8} {i : Fin a.drives.length}
    (h : a.retrieveDrive name = .ok i) : (a.drives.get i).name.takeWhile (· ≠ 0) = name := by
  unfold retrieveDrive at h
  split at h
  · rename_i j hj
    obtain rfl := Except.ok.inj h
    simpa using (List.findFinIdx?_eq_some_iff.mp hj).1
  · cases h

/-- A name is a string without NULs. -/
theorem zero_not_mem_shownName (dev : PhysicalStorage) : 0 ∉ dev.shownName := by
  unfold PhysicalStorage.shownName
  split
  · exact zero_not_mem_cstr _ _ _
  · decide

theorem zero_not_mem_names {call : InitCall} {name : List UInt8} (h : name ∈ call.names) : 0 ∉ name := by
  obtain ⟨base, _, hname⟩ := List.mem_filterMap.mp h
  obtain ⟨dev, _, rfl⟩ := Option.map_eq_some_iff.mp hname
  exact zero_not_mem_shownName dev

theorem zero_not_mem_of_run {g : DeviceTable} {calls : List InitCall}
    (h : Run InitStep (attached g) calls a) : ∀ d ∈ a.drives, 0 ∉ d.name := by
  intro d hd
  have hmem : d.name ∈ calls.flatMap InitCall.names := by
    rw [← names_of_run h]
    exact List.mem_map_of_mem hd
  obtain ⟨call, _, hcall⟩ := List.mem_flatMap.mp hmem
  exact zero_not_mem_names hcall

theorem firstMatchOnly_of_unique (hnul : ∀ d ∈ a.drives, 0 ∉ d.name) (hu : a.UniqueNames) :
    a.FirstMatchOnly := by
  intro name i j hi hj
  -- a stored name has no NUL to stop at
  have hwhole : (a.drives.get i).name.takeWhile (· ≠ 0) = (a.drives.get i).name :=
    takeWhile_eq_self (hnul _ (List.get_mem a.drives i))
  have hname : (a.drives.get i).name = name := by rw [← hwhole, name_retrieveDrive hi]
  have hinj := List.nodup_iff_injective_get.mp hu
  have heq := @hinj ⟨j, by simp⟩ ⟨i, by simp⟩ (by simpa using hj.trans hname.symm)
  exact Fin.ext (Fin.mk.inj heq)

/-- **Names are unique exactly when all storage devices get different names**, over all calls of
    `Init`. -/
theorem uniqueNames_iff {g : DeviceTable} {calls : List InitCall}
    (h : Run InitStep (attached g) calls a) :
    (a.UniqueNames ∧ a.FirstMatchOnly) ↔ (calls.flatMap InitCall.names).Nodup := by
  rw [← names_of_run h]
  exact ⟨fun hu => hu.1, fun hu => ⟨hu, firstMatchOnly_of_unique (zero_not_mem_of_run h) hu⟩⟩

/-- A table with one device, and a bus with one storage device that it does not know. -/
def oneEntry : DeviceTable := ⟨[⟨0, Bytes.zero⟩], by decide⟩

def oneDisk : BusReport := ⟨[0x1000], 0⟩

/-- A table with the devices `d` and `e`. -/
def tableDE : DeviceTable :=
  ⟨[⟨0x1000, Bytes.put Bytes.zero 0 0x64⟩, ⟨0x2000, Bytes.put Bytes.zero 0 0x65⟩], by decide⟩

/-- `Init` is called three times, and finds two disks, none, and one without a name. -/
def threeCalls : List InitCall :=
  [⟨tableDE, ⟨[0x2000, 0x1000], 0⟩⟩, ⟨tableDE, ⟨[], 0⟩⟩, ⟨oneEntry, ⟨[0x3000], 0x100⟩⟩]

theorem uniqueNames_threeCalls : ∃ a, Run InitStep (attached tableDE) threeCalls a
    ∧ a.drives.map Drive.name = [[0x65], [0x64], defaultName] ∧ a.UniqueNames ∧ a.FirstMatchOnly := by
  have hrun : Run InitStep (attached tableDE) threeCalls _ := ((Run.single rfl).step rfl).step rfl
  exact ⟨_, hrun, names_of_run hrun, (uniqueNames_iff hrun).mpr (by decide)⟩

/-- **Two storage devices and one device** give two drives with one name. -/
theorem two_disks_one_name :
    ∃ a, Run InitStep (attached oneEntry) [⟨oneEntry, ⟨[0x1000, 0x2000], 0⟩⟩] a ∧ ¬ a.UniqueNames := by
  refine ⟨_, Run.single rfl, ?_⟩
  rw [UniqueNames, names_init rfl]
  decide

/-- With one device in the table, names are unique as long as `Init` finds one storage device in all its
    calls. -/
theorem uniqueNames_one_device {g : DeviceTable} {dev : PhysicalStorage} {calls : List InitCall}
    (h : Run InitStep (attached g) calls a) (hone : ∀ call ∈ calls, call.gaossd.devices = [dev]) :
    a.UniqueNames ↔ (calls.map fun call => call.bus.storageDevices.length).sum ≤ 1 := by
  have hbehind : ∀ base, deviceBehind [dev] base = some dev := by
    intro base
    unfold deviceBehind
    by_cases heq : dev.address = base
    · rw [List.find?_cons_of_pos (by simpa using heq)]
      rfl
    · rw [List.find?_cons_of_neg (by simpa using heq)]
      rfl
  have hcalls : calls.flatMap InitCall.names
      = List.replicate (calls.map fun call => call.bus.storageDevices.length).sum dev.shownName := by
    -- the names of every call are the same one, as often as there are storage devices
    clear h
    induction calls with
    | nil => rfl
    | cons call calls ih =>
        have hnames : call.names = List.replicate call.bus.storageDevices.length dev.shownName := by
          unfold InitCall.names
          rw [hone call (by simp)]
          simp only [hbehind, Option.map_some]
          rw [List.filterMap_eq_map', List.map_const']
        rw [List.flatMap_cons, ih fun c hc => hone c (by simp [hc]), hnames, List.map_cons,
          List.sum_cons, List.replicate_append_replicate]
  rw [UniqueNames, names_of_run h, hcalls, List.nodup_replicate]

end AVFS

end AlopexOS
