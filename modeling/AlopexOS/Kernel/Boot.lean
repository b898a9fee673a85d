import AlopexOS.Avfs.StoreRuns
import AlopexOS.Kernel.Screens

/-!
# `Kernel.Boot` — storage and the main screen in `kmain` (`src/main.cpp`)

`kmain` formats the first storage device of the bus as device 0, registers the drives, mounts one of them and
writes a file to it. It goes on whatever these calls answer, but it does not look whether there is a storage
device at all. Once the volume is there, what was on the disk before plays no part any more. The color of the main
screen says at the end whether a drive is mounted.

## Contents

- **`kmain`**.
- **The formatted device**: no stores but empty ones.
- **After the boot** whatever is read was written since.
- **The main screen**: `boot_shows`.
-/

namespace AlopexOS

open Packed ByteString Prog BlockStore

variable {σ : Type}

/-! ## `kmain` -/

/-- "QEMU NVMe Ctrl://". -/
def bootDrive : Path :=
  Path.ofBytes [0x51, 0x45, 0x4D, 0x55, 0x20, 0x4E, 0x56, 0x4D, 0x65, 0x20, 0x43, 0x74, 0x72, 0x6C, 0x3A, 0x2F, 0x2F]

/-- "QEMU NVMe Ctrl://Fabian.txt". -/
def bootFile : Path :=
  Path.ofBytes [0x51, 0x45, 0x4D, 0x55, 0x20, 0x4E, 0x56, 0x4D, 0x65, 0x20, 0x43, 0x74, 0x72, 0x6C, 0x3A, 0x2F, 0x2F,
    0x46, 0x61, 0x62, 0x69, 0x61, 0x6E, 0x2E, 0x74, 0x78, 0x74]

/-- What the calls answered, and the AVFS that stays. -/
structure Booted where
  formatted : Bool
  mounted : ErrorCode
  written : ErrorCode
  avfs : AVFS

/-- `kmain` with the device table of its `gaossd`. The bus is scanned once here and once by `Init`, and `data` is
    the text of the file. -/
def kmain (P : Platform σ) (gaossd : DeviceTable) (bus bus' : BusReport) (data : List UInt8) : Prog σ Booted :=
  match bus.storageDevices with
  -- `storage_devices[0]`
  | [] => Prog.fail .wild
  | base :: _ => do
      let formatted ← format P AbtrFS.init base bus.hhdmOffset 0
      let avfs := (AVFS.attached gaossd).init bus'
      let mounted ← avfs.mount P bootDrive
      let written ← mounted.2.write P bootFile data
      pure ⟨formatted.1, mounted.1, written, mounted.2⟩

/-- The calls of the AVFS in `kmain`, with their answers. -/
def Booted.calls (b : Booted) (data : List UInt8) : List (DriveCall × DriveAnswer) :=
  [(.mount bootDrive, (b.mounted, [])), (.write bootFile data, (b.written, []))]

/-! ## The formatted device -/

variable {B : Board} {gaossd : DeviceTable} {bus bus' : BusReport} {data : List UInt8} {s s₁ s' : Computer}
  {b : Booted} {a : AVFS} {path directory : Path} {handle : Handle} {disk : Nat → Block} {e : ErrorCode}

theorem AVFS.gaossd_init (a : AVFS) (bus : BusReport) : (a.init bus).gaossd = a.gaossd := by
  unfold AVFS.init
  rw [AVFS.foldl_register]

/-- In a table with one device every path that stands for a file has the handle 0. -/
theorem handle_of_resolve (hone : a.gaossd.devices.length ≤ 1)
    (h : a.resolve path = .ok (handle, directory)) : handle = 0 := by
  obtain ⟨⟨i, _, hh⟩, _⟩ := AVFS.names_of_resolve h
  obtain ⟨k, hk, rfl⟩ := Option.map_eq_some_iff.mp hh
  rcases AVFS.matchedHandle_cases a.gaossd.devices (a.drives.get i).baseAddress with
    ⟨k', dev, hk', hdev, _⟩ | ⟨hnone, _⟩
  · obtain rfl : k' = k := Option.some.inj (hk'.symm.trans hk)
    have hlt := (List.getElem?_eq_some_iff.mp hdev).1
    obtain rfl : k' = 0 := by omega
    rfl
  · rw [hnone] at hk
    cases hk

theorem keepsStores_format (hone : a.gaossd.devices.length ≤ 1)
    (hdisk : (s.device 0).disk = setBlock disk (0, formatHeader.bytes)) :
    KeepsStores a s fun _ => blank formatFree := by
  intro path handle directory hres
  obtain rfl := handle_of_resolve hone hres
  rw [hdisk]
  exact storeOn_format disk

/-- The walk on a formatted disk finds nothing, so any data fit. -/
theorem fitsOn_format (disk : Nat → Block) (path : Path) (data : List UInt8) :
    FitsOn (setBlock disk (0, formatHeader.bytes)) path data := by
  intro n r₀ header r h
  have h0 : setBlock disk (0, formatHeader.bytes) 0 = formatHeader.bytes := if_pos rfl
  have hused : ¬ (1 : UInt64) < PartitionHeader.used ⟨formatHeader.bytes⟩ := by decide +kernel
  rw [h0] at h
  cases n with
  | zero => cases h
  | succ n =>
      unfold scan at h
      rw [if_neg hused] at h
      cases h

/-! ## After the boot -/

/-- **The boot is a format and two calls**, on the AVFS as `Init` leaves it. -/
theorem steps_of_kmain (hone : gaossd.devices.length ≤ 1) (hread : ∀ h k, B.readOk h k = true)
    (hsmall : data.length < 2 ^ 63) (hboot : (kmain B.platform gaossd bus bus' data).run s = (.ok b, s₁))
    (hformat : b.formatted = true) :
    ∃ s₀, KeepsStores ((AVFS.attached gaossd).init bus') s₀ (fun _ => blank formatFree)
      ∧ Run (DriveStep B) ((AVFS.attached gaossd).init bus', s₀) (b.calls data) (b.avfs, s₁) := by
  unfold kmain at hboot
  split at hboot
  · cases hboot
  rename_i base _ _
  generalize ha : (AVFS.attached gaossd).init bus' = avfs at hboot ⊢
  have hdevices : avfs.gaossd.devices.length ≤ 1 := by
    rw [← ha, AVFS.gaossd_init]
    exact hone
  obtain ⟨⟨ok, fs⟩, s₀, hfmt, hboot⟩ := bind_eq_ok hboot
  obtain ⟨⟨mounted, a₁⟩, s₂, hmount, hboot⟩ := bind_eq_ok hboot
  obtain ⟨written, s₃, hwrite, hboot⟩ := bind_eq_ok hboot
  obtain ⟨hres, rfl⟩ := Prod.mk.inj hboot
  obtain rfl := Except.ok.inj hres
  obtain rfl : ok = true := hformat
  -- the volume
  rw [(B.sees 0).format] at hfmt
  obtain ⟨hfmt, hset⟩ := zoom_eq_ok hfmt
  obtain ⟨_, hdisk, _⟩ | ⟨hfalse, _⟩ := format_cases (by decide) hfmt
  swap
  · cases hfalse
  have hdisk₀ : (s₀.device 0).disk = setBlock (s.device 0).disk (0, formatHeader.bytes) := hdisk
  have hkeeps := keepsStores_format hdevices hdisk₀
  refine ⟨s₀, hkeeps, ?_⟩
  -- the calls
  obtain ⟨hsame, hdrives, _⟩ := drive_mount hkeeps hread hmount
  have hstep : DriveStep B (avfs, s₀) (.mount bootDrive, (mounted, [])) (a₁, s₂) := by
    refine ⟨?_, trivial⟩
    show ((avfs.mount B.platform bootDrive) >>= _).run s₀ = _
    rw [run_bind, hmount]
    rfl
  refine Run.step (Run.single hstep) ⟨?_, hsmall, fun handle directory hr => ?_⟩
  · show ((a₁.write B.platform bootFile data) >>= _).run s₂ = _
    rw [run_bind, hwrite]
    rfl
  · rw [hdrives.resolve_eq] at hr
    obtain rfl := handle_of_resolve hdevices hr
    rw [hsame 0, hdisk₀]
    exact fitsOn_format _ _ _

variable {y : AvfsState} {calls : List (DriveCall × DriveAnswer)}

/-- **After the boot, what is read was written since.** Whatever is on the disks before, once `kmain` has formatted
    its device, a read of any file after any calls gives what the successful writes since then come to, the one
    of `kmain` included. -/
theorem booted_reads_replayed (hone : gaossd.devices.length ≤ 1) (hread : ∀ h k, B.readOk h k = true)
    (hsmall : data.length < 2 ^ 63) (hboot : (kmain B.platform gaossd bus bus' data).run s = (.ok b, s₁))
    (hformat : b.formatted = true) (h : Run (DriveStep B) (b.avfs, s₁) calls y)
    (hres : ((AVFS.attached gaossd).init bus').resolve path = .ok (handle, directory))
    (hcut : ∀ l ∈ b.calls data ++ calls, ¬ DriveCut ((AVFS.attached gaossd).init bus') handle directory l)
    {d d' : Dynarr}
    (hrun : (y.1.read B.platform (Dynarr.target B.platform) path d (UInt64.ofNat d.elems.length)).run y.2
      = (.ok (e, d'), s')) :
    (e, d'.elems) = match answerFor (replayed ((AVFS.attached gaossd).init bus') (fun _ => blank formatFree)
        (b.calls data ++ calls) handle directory) directory 0 (UInt64.ofNat d.elems.length) with
      | .error e => (e, d.elems)
      | .ok w => (.success, w) := by
  obtain ⟨s₀, hkeeps, hcalls⟩ := steps_of_kmain hone hread hsmall hboot hformat
  obtain ⟨t', hstores, hsame, hkeeps'⟩ := KeepsStores.run hread hkeeps (hcalls.trans h)
  rw [← hsame.resolve_eq] at hres
  have hdone := (drive_read hres (hkeeps' path handle directory hres) (hread handle) hrun).2
  rw [replayed_of_run hstores hcut] at hdone
  exact hdone

/-- A table with the one device that `kmain` names. -/
def tableQemu : DeviceTable :=
  ⟨[⟨0x1000, chunk 64 [0x51, 0x45, 0x4D, 0x55, 0x20, 0x4E, 0x56, 0x4D, 0x65, 0x20, 0x43, 0x74, 0x72, 0x6C] 0⟩],
    by decide⟩

/-- The boot on a disk of zeros. -/
def bootQemu : Except Fault Booted × Computer :=
  (kmain (board fun _ => true).platform tableQemu AVFS.oneDisk AVFS.oneDisk [0x41]).run
    ⟨0, fun _ => ⟨fun _ => Bytes.zero, 0, 0, []⟩⟩

theorem names_bootFile : ∃ directory, Names ((AVFS.attached tableQemu).init AVFS.oneDisk) bootFile 0 directory
    ∧ directory.str = [0x46, 0x61, 0x62, 0x69, 0x61, 0x6E, 0x2E, 0x74, 0x78, 0x74] := by
  have hdrive : ∃ i, ((AVFS.attached tableQemu).init AVFS.oneDisk).locate bootFile = .ok i
      ∧ ((AVFS.attached tableQemu).init AVFS.oneDisk).handleOf i = some 0 :=
    ⟨⟨0, by decide⟩, by decide +kernel, by decide +kernel⟩
  obtain ⟨i, hi, hh⟩ := hdrive
  obtain ⟨directory, hdir⟩ := AVFS.findPathAfterDrive_of_locate hi
  have hstr : (AVFS.findPathAfterDrive bootFile).map Path.str
      = .ok [0x46, 0x61, 0x62, 0x69, 0x61, 0x6E, 0x2E, 0x74, 0x78, 0x74] := by decide +kernel
  rw [hdir] at hstr
  exact ⟨directory, ⟨⟨i, hi, hh⟩, hdir⟩, Except.ok.inj hstr⟩

/-- A file that was written in the boot is read. -/
theorem booted_reads_replayed_a : ∃ b s₁ d' s', bootQemu = (.ok b, s₁)
    ∧ (b.avfs.read (board fun _ => true).platform (Dynarr.target (board fun _ => true).platform) bootFile
      ⟨[0, 0], 2, by decide⟩ 2).run s₁ = (.ok (.success, d'), s') ∧ d'.elems = [0x41] := by
  have hboot : bootQemu.1.map (fun b => (b.formatted, b.mounted, b.written)) = .ok (true, .success, .success) := by
    decide +kernel
  have hok : (bootQemu.1.map fun b => ((b.avfs.read (board fun _ => true).platform
      (Dynarr.target (board fun _ => true).platform) bootFile ⟨[0, 0], 2, by decide⟩ 2).run bootQemu.2).1.map
        Prod.fst) = .ok (.ok .success) := by decide +kernel
  generalize hb : bootQemu = r at hboot hok
  obtain ⟨res, s₁⟩ := r
  obtain ⟨b, rfl, hanswers⟩ := map_eq_ok hboot
  obtain ⟨hformat, hcalls⟩ := Prod.mk.inj hanswers
  have hwritten := (Prod.mk.inj hcalls).2
  replace hok := Except.ok.inj hok
  dsimp only at hok
  generalize hr : (b.avfs.read (board fun _ => true).platform (Dynarr.target (board fun _ => true).platform)
    bootFile ⟨[0, 0], 2, by decide⟩ 2).run s₁ = r at hok
  obtain ⟨res, s'⟩ := r
  obtain ⟨⟨e, d'⟩, rfl, rfl⟩ := map_eq_ok hok
  obtain ⟨directory, hn, hstr⟩ := names_bootFile
  have hres := AVFS.resolve_of_names hn
  have hread := booted_reads_replayed (by decide) (fun _ _ => rfl) (by decide) hb hformat .start hres
    (fun l hl hc => by
      obtain ⟨p, data, q, w, rfl, _⟩ := hc
      simp [Booted.calls, hwritten] at hl) (d := ⟨[0, 0], 2, by decide⟩) hr
  have hseg : chopPath directory ≠ [] := chopPath_ne_nil ⟨0x46, by rw [hstr]; simp, by decide⟩
  have hname : nameOf directory = some [0x46, 0x61, 0x62, 0x69, 0x61, 0x6E, 0x2E, 0x74, 0x78, 0x74] := by
    rw [nameOf, hstr, if_pos (by decide)]
  have hcontent : replayed ((AVFS.attached tableQemu).init AVFS.oneDisk) (fun _ => blank formatFree)
      (b.calls [0x41] ++ []) 0 directory = some [0x41] := by
    simp only [replayed, hname, Option.bind_some, Booted.calls, hwritten, List.append_nil, List.filterMap_cons,
      List.filterMap_nil, driveEvent, hres]
    decide +kernel
  rw [hcontent, answerFor, if_neg hseg] at hread
  exact ⟨b, s₁, d', s', rfl, hr, (Prod.mk.inj hread).2⟩

/-! ## The main screen -/

open Display

/-- The color of a step of the fade-in. -/
def fadeColor (step : UInt32) : UInt32 :=
  let r := 0x02 * step / 5
  let g := 0x66 * step / 5
  let b := 0x99 * step / 5
  r <<< 16 ||| g <<< 8 ||| b

/-- The fade-in on a screen of the size. -/
def fadeIn (size : Vector2D) : List Call :=
  (List.range 6).flatMap fun step =>
    upFrom size.y (fun y => upFrom size.x (fun x => [.setPixel ⟨x, y⟩ (fadeColor (UInt32.ofNat step))]) 0) 0

/-- What `kmain` draws on its main screen. -/
def Booted.draws (b : Booted) (size : Vector2D) : List Call :=
  fadeIn size ++ [.clear 0x001E1E24, .clear 0x00003366] ++ (if b.formatted then [] else [.clear 0x00800000])
    ++ [.clear (if b.mounted = .success then 0x00FF8800 else 0x00880000)]

variable {d : Displays} {fb : Framebuffer} {m m' : Words}

/-- `kmain` sets points and clears. -/
theorem fits_of_mem_draws {size : Vector2D} {c : Draw} (hc : c ∈ (b.draws size).map (Draw.mk 0)) : d.Fits c := by
  rintro fb -
  have hcalls : ∀ call ∈ b.draws size, call.Fits fb := by
    unfold Booted.draws
    rw [List.forall_mem_append, List.forall_mem_append, List.forall_mem_append, List.forall_mem_singleton]
    refine ⟨⟨⟨?_, ?_⟩, ?_⟩, trivial⟩
    · intro call hcall
      obtain ⟨step, -, hcall⟩ := List.mem_flatMap.mp hcall
      obtain ⟨y, -, -, hcall⟩ := mem_upFrom.mp hcall
      obtain ⟨x, -, -, hcall⟩ := mem_upFrom.mp hcall
      obtain rfl := List.mem_singleton.mp hcall
      trivial
    · rw [List.forall_mem_cons, List.forall_mem_singleton]
      exact ⟨trivial, trivial⟩
    · split
      · exact List.forall_mem_nil _
      · rw [List.forall_mem_singleton]
        trivial
  obtain ⟨call, hcall, rfl⟩ := List.mem_map.mp hc
  exact hcalls call hcall

/-- **The main screen says whether a drive is mounted**, and nothing but its points has changed in memory. -/
theorem boot_shows (hd : d.Apart) (hmain : d.getScreen 0 = some (some fb)) (hnull : fb.address ≠ 0)
    (h : Run d.Draws m ((b.draws fb.getScreenSize).map (Draw.mk 0)) m') :
    (∀ p, fb.OnScreen p → m' (fb.pixel p) = if b.mounted = .success then 0x00FF8800 else 0x00880000)
      ∧ ∀ a, (∀ p, fb.OnScreen p → fb.pixel p ≠ a) → m' a = m a := by
  constructor
  · intro p hp
    have hsplit := h
    unfold Booted.draws at hsplit
    rw [List.map_append, List.map_singleton] at hsplit
    obtain ⟨m₁, -, hclear⟩ := hsplit.of_snoc
    have hfits : d.Fits ⟨0, .clear (if b.mounted = .success then 0x00FF8800 else 0x00880000)⟩ := fun _ _ => trivial
    obtain ⟨s, ⟨hcolor, points, hpoints, hcovers⟩, hpaints⟩ := paints_of_draws hd hfits hclear
    obtain rfl : points = Set.univ := hcovers fb hmain
    rw [← d.cell_of_getScreen hmain]
    refine (hpaints.covered (0, p) ⟨fb, hmain, hnull, hp⟩ ?_).trans hcolor
    rw [hpoints]
    exact ⟨rfl, Set.mem_univ _⟩
  · intro a ha
    apply others_of_run hd (fun c hc => fits_of_mem_draws hc) h
    rintro c hc p ⟨fb', hfb', -, hon⟩
    obtain ⟨call, -, rfl⟩ := List.mem_map.mp hc
    obtain rfl := Option.some.inj (Option.some.inj (hmain.symm.trans hfb'))
    rw [d.cell_of_getScreen hmain]
    exact ha p hon

end AlopexOS
