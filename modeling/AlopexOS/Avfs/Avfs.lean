import AlopexOS.Abtrfs.Target

/-!
# `Avfs.Avfs` — the virtual file system (`src/AVFS/avfs.cpp`, `src/AVFS/drive.cpp`)

An `AVFS` keeps a list of drives. A path names a drive and a file on it, as in `drive://file`; each call
resolves the drive, the `gaossd` device behind it, and works on a file system object of its own. Strings are
the bytes they spell, and what they ask of `operator new` is not followed.

## Contents
- **Data**: drives, the device table, the bus.
- **`init`** registers a drive for each storage device of the bus.
- **Paths**: `findDrive`, `findPathAfterDrive`, `retrieveDrive`.
- **`mount`**, **`dismount`**, **`write`**, **`read`** and **`exists`**.
-/

namespace AlopexOS

open Packed CString Prog

/-! ## Data -/

/-- `AVFS::drive`. -/
structure Drive where
  baseAddress : UInt64
  name : List UInt8
  /-- The file system that is mounted, empty when none is. -/
  format : List UInt8

/-- An entry of the device table of `gaossd`. -/
structure PhysicalStorage where
  address : UInt64
  name : Bytes 64

/-- A `gaossd`, by its device table. No array fills the address space. -/
structure DeviceTable where
  devices : List PhysicalStorage
  count_lt : devices.length < 2 ^ 64 - 1

/-- What `AlopexIBus` reports after a scan. -/
structure BusReport where
  /-- `base_address` of each of the storage devices. -/
  storageDevices : List UInt64
  hhdmOffset : UInt64

/-- An `AVFS`: its drives, the offset of the direct map and the devices of its `gaossd`. -/
structure AVFS where
  drives : List Drive
  hhdm : UInt64
  gaossd : DeviceTable

namespace AVFS

/-- `AVFS{}` with a `gaossd` attached. -/
def attached (gaossd : DeviceTable) : AVFS := ⟨[], 0, gaossd⟩

/-- `AVFS::attach_gaossd`. -/
def attachGaossd (a : AVFS) (gaossd : DeviceTable) : AVFS := { a with gaossd := gaossd }

/-! ## `init` -/

/-- The loop over the device table from entry `h` on. -/
def matchFrom (base : UInt64) : List PhysicalStorage → Nat → Option Nat
  | [], _ => none
  | dev :: devices, h => if dev.address = base then some h else matchFrom base devices (h + 1)

/-- `matched_handle`: the first device with the address, or the first of all; `none` is
    `InvalidHandle`. -/
def matchedHandle (devices : List PhysicalStorage) (base : UInt64) : Option Nat :=
  match matchFrom base devices 0 with
  | some h => some h
  -- no device has the address
  | none => if 0 < devices.length then some 0 else none

/-- Where the characters of a `const char*` are. -/
inductive NamePlace where
  /-- In the table entry `h`. -/
  | device (h : Nat)
  /-- In the program. -/
  | literal
  /-- In entry `k` of a list of drives that was copied. -/
  | copied (k : Nat)
  deriving DecidableEq

/-- "ALOPEX_NVME_01". -/
def defaultName : List UInt8 :=
  [0x41, 0x4C, 0x4F, 0x50, 0x45, 0x58, 0x5F, 0x4E, 0x56, 0x4D, 0x45, 0x5F, 0x30, 0x31]

/-- `device_name` for the entry `h`: the pointer, and the string at it. -/
def deviceName (h : Nat) (dev : PhysicalStorage) : NamePlace × List UInt8 :=
  if dev.name.get 0 ≠ 0 then (.device h, cstr dev.name.get 0 64) else (.literal, defaultName)

/-- `exists`. The list is passed by value, so its names have characters of their own, and the pointers are
    what is compared. -/
def isRegistered (drives : List Drive) (name : NamePlace) : Bool :=
  (List.range drives.length).any fun k => NamePlace.copied k = name

/-- One round of the loop of `Init`. -/
def register (a : AVFS) (base : UInt64) : AVFS :=
  match matchedHandle a.gaossd.devices base with
  | none => a
  | some h =>
      match a.gaossd.devices[h]? with
      | none => a
      | some dev =>
          let (place, name) := deviceName h dev
          if isRegistered a.drives place then a
          else { a with drives := a.drives ++ [⟨base, name, []⟩] }

/-- `AVFS::Init`: one drive for each storage device that the bus reports. -/
def init (a : AVFS) (bus : BusReport) : AVFS :=
  bus.storageDevices.foldl register { a with hhdm := bus.hhdmOffset }

/-! ## Paths -/

/-- The character `:`. -/
def colon : UInt8 := 0x3A

/-- The blank. -/
def blank : UInt8 := 0x20

/-- Whether `//` is behind the colon at `i`. -/
def slashesAt (path : Path) (i : Nat) : Bool :=
  (i + 1 < 2048 ∧ path.get (i + 1) = slash) ∧ i + 2 < 2048 ∧ path.get (i + 2) = slash

/-- The name without the blanks at its end. -/
def trimmed (name : List UInt8) : List UInt8 := (name.reverse.dropWhile (· = blank)).reverse

/-- The loop of `findDrive` from byte `i` on. -/
def findDriveFrom (path : Path) : Nat → Nat → List UInt8 → Except ErrorCode (List UInt8)
  | 0, _, _ => .error .genericError
  | n + 1, i, driveName =>
      if path.get i = 0 then .error .genericError
      else if path.get i = colon then
        if slashesAt path i = true then .ok (trimmed driveName) else .error .genericError
      else findDriveFrom path n (i + 1) (driveName ++ [path.get i])

/-- `AVFS::findDrive`: what is in front of `://`. -/
def findDrive (path : Path) : Except ErrorCode (List UInt8) := findDriveFrom path 2048 0 []

/-- The first loop of `findPathAfterDrive` from byte `i` on: `start_index`. -/
def startIndexFrom (path : Path) : Nat → Nat → Except ErrorCode Nat
  | 0, _ => .error .genericError
  | n + 1, i =>
      if path.get i = 0 then .error .genericError
      else if path.get i = colon then
        if slashesAt path i = true then .ok (i + 3) else .error .genericError
      else startIndexFrom path n (i + 1)

/-- The NUL behind the copied bytes. -/
def terminated (dirIndex : Nat) (directory : Path) : Path :=
  if dirIndex < 2048 then directory.put dirIndex 0 else directory

/-- The second loop of `findPathAfterDrive` from byte `i` on. -/
def copyDirectoryFrom (path : Path) : Nat → Nat → Nat → Path → Path
  | 0, _, dirIndex, directory => terminated dirIndex directory
  | n + 1, i, dirIndex, directory =>
      let directory := directory.put dirIndex (path.get i)
      if path.get i = 0 then terminated (dirIndex + 1) directory
      else copyDirectoryFrom path n (i + 1) (dirIndex + 1) directory

/-- `AVFS::findPathAfterDrive`: what is behind it. -/
def findPathAfterDrive (path : Path) : Except ErrorCode Path :=
  match startIndexFrom path 2048 0 with
  | .error e => .error e
  | .ok start => .ok (copyDirectoryFrom path (2048 - start) start 0 Bytes.zero)

/-- `retrieveDrive`: the first drive with the name. A stored name is read up to its first NUL. -/
def retrieveDrive (a : AVFS) (name : List UInt8) : Except ErrorCode (Fin a.drives.length) :=
  match a.drives.findFinIdx? fun d => d.name.takeWhile (· ≠ 0) = name with
  | some i => .ok i
  | none => .error .notFound

/-- The drive a path names. -/
def locate (a : AVFS) (path : Path) : Except ErrorCode (Fin a.drives.length) :=
  match findDrive path with
  | .error e => .error e
  | .ok name => a.retrieveDrive name

/-- The device of a drive. -/
def handleOf (a : AVFS) (i : Fin a.drives.length) : Option Handle :=
  (matchedHandle a.gaossd.devices (a.drives.get i).baseAddress).map UInt64.ofNat

/-! ## Calls -/

variable {σ β : Type}

/-- `Format_Set`. -/
def setFormat (a : AVFS) (i : Nat) (format : List UInt8) : AVFS :=
  { a with drives := a.drives.modify i fun d => { d with format := format } }

/-- "abtrfs". -/
def abtrfsFormat : List UInt8 := [0x61, 0x62, 0x74, 0x72, 0x66, 0x73]

/-- `AVFS::mount`: the drive is marked when there is a volume on its device. -/
def mount (P : Platform σ) (a : AVFS) (path : Path) : Prog σ (ErrorCode × AVFS) :=
  match a.locate path with
  | .error e => pure (e, a)
  | .ok i =>
      match a.handleOf i with
      | none => pure (.deviceNotMounted, a)
      | some handle => do
          let r ← AlopexOS.mount P AbtrFS.init (a.drives.get i).baseAddress a.hhdm handle
          if r.2.isMounted = true then pure (.success, a.setFormat i abtrfsFormat)
          else pure (.deviceNotMounted, a)

/-- `AVFS::dismount`: the mark is taken back. -/
def dismount (a : AVFS) (path : Path) : ErrorCode × AVFS :=
  match a.locate path with
  | .error e => (e, a)
  | .ok i => (.success, a.setFormat i [])

/-- `reserve` on an empty array. -/
def reserve (P : Platform σ) (n : Nat) : Prog σ Unit := if 0 < n then P.operatorNew n else pure ()

/-- `AVFS::write`: the bytes other than NUL go to the file, through an `AbtrFS` of its own. -/
def write (P : Platform σ) (a : AVFS) (path : Path) (data : List UInt8) : Prog σ ErrorCode :=
  match a.locate path with
  | .error e => pure e
  | .ok i =>
      match a.handleOf i with
      | none => pure .deviceNotMounted
      | some handle =>
          match findPathAfterDrive path with
          | .error e => pure e
          | .ok directory => do
              -- `clean_data`
              reserve P data.length
              let fs ← mountExisting P AbtrFS.init (a.drives.get i).baseAddress a.hhdm handle
              let r ← writeFile P fs directory (data.filter (· ≠ 0)) 0
              pure r.1

/-- `read` into an array `data` of `size` bytes: the result, and the array afterwards. -/
def read (P : Platform σ) (T : Target σ β) (a : AVFS) (path : Path) (data : β) (size : UInt64) :
    Prog σ (ErrorCode × β) :=
  match a.locate path with
  | .error e => pure (e, data)
  | .ok i =>
      match a.handleOf i with
      | none => pure (.deviceNotMounted, data)
      | some handle =>
          match findPathAfterDrive path with
          | .error e => pure (e, data)
          | .ok directory => do
              let fs ← mountExisting P AbtrFS.init (a.drives.get i).baseAddress a.hhdm handle
              let r ← readFileInto P T fs directory data 0 size
              match r.1 with
              | .error e => pure (e, r.2)
              | .ok _ => pure (.success, r.2)

/-- `exists`; it looks for the drive only. -/
def exists' (a : AVFS) (path : Path) : ErrorCode :=
  match a.locate path with
  | .error e => e
  | .ok _ => .success

/-! ## Paths that name a drive -/

variable {a : AVFS} {path : Path}

/-- Both loops look for the same separator. -/
theorem startIndexFrom_of_findDriveFrom {n i : Nat} {acc name : List UInt8}
    (h : findDriveFrom path n i acc = .ok name) : ∃ start, startIndexFrom path n i = .ok start := by
  induction n generalizing i acc with
  | zero => cases h
  | succ n ih =>
      simp only [findDriveFrom, startIndexFrom] at h ⊢
      split at h
      · cases h
      · rename_i h0
        rw [if_neg h0]
        split at h
        · rename_i hc
          rw [if_pos hc]
          split at h
          · rename_i hs
            rw [if_pos hs]
            exact ⟨_, rfl⟩
          · cases h
        · rename_i hc
          rw [if_neg hc]
          exact ih h

/-- **A path that names a drive names a file on it.** -/
theorem findPathAfterDrive_of_locate {i : Fin a.drives.length} (h : a.locate path = .ok i) :
    ∃ directory, findPathAfterDrive path = .ok directory := by
  unfold locate at h
  split at h
  · cases h
  · rename_i name hname
    obtain ⟨start, hstart⟩ := startIndexFrom_of_findDriveFrom hname
    unfold findPathAfterDrive
    rw [hstart]
    exact ⟨_, rfl⟩

end AVFS

end AlopexOS
