import AlopexOS.Abtrfs.StoreRuns
import AlopexOS.Avfs.Exists

/-!
# `Avfs.StoreRuns` — drives over whole runs

Each call of an `AVFS` makes a file system object of its own, mounts it on the device behind the drive and
drops it. All that lasts is on the devices. So with a volume on every device that a path can name, a run of
calls is a run of stores of contents, one for each device: a call works on the store of the device its path
stands for, and on no other. Two drives can share a device, and then they share the store.

## Contents
- **`resolve`**: the device and the file that a path stands for. No call changes that.
- **Calls** and `DriveStep`; the same calls on stores, `DriveStoreStep`.
- **The simulation**, for any block writes that fail.
- **What follows** for one file of one device.
-/

namespace AlopexOS

open Packed ByteString CString Prog BlockStore

/-! ## What paths stand for -/

namespace AVFS

variable {a a' : AVFS} {path : Path}

/-- The device and the file on it that a path stands for. -/
def resolve (a : AVFS) (path : Path) : Except ErrorCode (Handle × Path) :=
  match a.locate path with
  | .error e => .error e
  | .ok i =>
      match a.handleOf i with
      | none => .error .deviceNotMounted
      | some handle =>
          match findPathAfterDrive path with
          | .error e => .error e
          | .ok directory => .ok (handle, directory)

/-- What a path is resolved by. -/
def driveKeys (a : AVFS) : List (UInt64 × List UInt8) := a.drives.map fun d => (d.baseAddress, d.name)

/-- The drive that is located is the first one with the name. -/
theorem locate_keys (a : AVFS) (path : Path) :
    (a.locate path).map (fun i => ((a.drives.get i).baseAddress, (a.drives.get i).name))
      = match findDrive path with
        | .error e => .error e
        | .ok name =>
            match a.driveKeys.find? fun k => k.2.takeWhile (· ≠ 0) = name with
            | none => .error .notFound
            | some k => .ok k := by
  unfold locate driveKeys
  cases findDrive path with
  | error e => rfl
  | ok name =>
      dsimp only
      rw [List.find?_map]
      have hfind : a.drives.find? (fun d => decide (d.name.takeWhile (· ≠ 0) = name)) = _ :=
        List.find?_eq_map_findFinIdx?_getElem
      have hcomp : ((fun k : UInt64 × List UInt8 => decide (k.2.takeWhile (· ≠ 0) = name))
          ∘ fun d : Drive => (d.baseAddress, d.name))
          = fun d => decide (d.name.takeWhile (· ≠ 0) = name) := rfl
      rw [hcomp, hfind]
      unfold retrieveDrive
      cases a.drives.findFinIdx? fun d => decide (d.name.takeWhile (· ≠ 0) = name) with
      | none => rfl
      | some i => rfl

/-- The drives have the names and addresses they had. -/
def SameDrives (a a' : AVFS) : Prop :=
  a'.driveKeys = a.driveKeys ∧ a'.gaossd = a.gaossd

theorem SameDrives.trans {a'' : AVFS} (h : SameDrives a a') (h' : SameDrives a' a'') : SameDrives a a'' :=
  ⟨h'.1.trans h.1, h'.2.trans h.2⟩

theorem sameDrives_setFormat (a : AVFS) (i : Nat) (format : List UInt8) :
    SameDrives a (a.setFormat i format) := by
  refine ⟨?_, rfl⟩
  unfold driveKeys setFormat
  apply List.ext_getElem
  · simp
  · intro k h₁ h₂
    simp only [List.getElem_map, List.getElem_modify]
    split <;> rfl

/-- **Such drives resolve paths alike.** -/
theorem SameDrives.resolve_eq (h : SameDrives a a') (path : Path) : a'.resolve path = a.resolve path := by
  have hk := locate_keys a path
  have hk' := locate_keys a' path
  rw [h.1, ← hk] at hk'
  unfold resolve
  generalize a.locate path = r at hk' ⊢
  generalize a'.locate path = r' at hk' ⊢
  cases r with
  | error e =>
      cases r' with
      | error e' =>
          obtain rfl := Except.error.inj hk'
          rfl
      | ok i' => cases hk'
  | ok i =>
      cases r' with
      | error e' => cases hk'
      | ok i' =>
          obtain ⟨hbase, _⟩ := Prod.mk.inj (Except.ok.inj hk')
          have hhandle : a'.handleOf i' = a.handleOf i := by
            unfold handleOf
            rw [h.2, hbase]
          dsimp only
          rw [hhandle]

/-- They answer `exists` alike. -/
theorem SameDrives.exists_eq (h : SameDrives a a') (path : Path) : a'.exists' path = a.exists' path := by
  have hk := locate_keys a path
  have hk' := locate_keys a' path
  rw [h.1, ← hk] at hk'
  unfold exists'
  generalize a.locate path = r at hk' ⊢
  generalize a'.locate path = r' at hk' ⊢
  cases r with
  | error e =>
      cases r' with
      | error e' =>
          obtain rfl := Except.error.inj hk'
          rfl
      | ok i' => cases hk'
  | ok i =>
      cases r' with
      | error e' => cases hk'
      | ok i' => rfl

/-- A path that stands for a file names a drive with a device. -/
theorem names_of_resolve {handle : Handle} {directory : Path} (h : a.resolve path = .ok (handle, directory)) :
    Names a path handle directory := by
  unfold resolve at h
  split at h
  · cases h
  · rename_i i hi
    split at h
    · cases h
    · rename_i handle' hh
      split at h
      · cases h
      · rename_i directory' hd
        obtain ⟨rfl, rfl⟩ := Prod.mk.inj (Except.ok.inj h)
        exact ⟨⟨i, hi, hh⟩, hd⟩

theorem resolve_of_names {handle : Handle} {directory : Path} (h : Names a path handle directory) :
    a.resolve path = .ok (handle, directory) := by
  obtain ⟨⟨i, hi, hh⟩, hdir⟩ := h
  unfold resolve
  simp only [hi, hh, hdir]

end AVFS

/-! ## Calls -/

/-- The calls on drives, with the array that is read into. -/
inductive DriveCall where
  | mount (path : Path)
  | dismount (path : Path)
  | write (path : Path) (data : List UInt8)
  /-- `array` owns its storage, and its size is the limit. -/
  | read (path : Path) (array : Dynarr)
  | exists' (path : Path)

/-- The result of a call, and what is in the array after a read. -/
abbrev DriveAnswer := ErrorCode × List UInt8

/-- The call, its answer and the AVFS afterwards. -/
def DriveCall.run (B : Board) (a : AVFS) : DriveCall → Prog Computer (DriveAnswer × AVFS)
  | .mount path => do
      let r ← a.mount B.platform path
      pure ((r.1, []), r.2)
  | .dismount path => pure (((a.dismount path).1, []), (a.dismount path).2)
  | .write path data => do
      let e ← a.write B.platform path data
      pure ((e, []), a)
  | .read path array => do
      let r ← a.read B.platform (Dynarr.target B.platform) path array (UInt64.ofNat array.elems.length)
      pure ((r.1, r.2.elems), a)
  | .exists' path => pure ((a.exists' path, []), a)

/-- A write of `data` at the start of a file that is on the disk needs no more blocks than its header counts,
    or does not get them. -/
def FitsOn (disk : Nat → Block) (path : Path) (data : List UInt8) : Prop :=
  ∀ n r₀ header r,
    scan (fun _ => true) disk path (PartitionHeader.used ⟨disk 0⟩) n 1 r₀ = some (some header, r) →
      requiredBlocks (finalSize (some header) data 0) ≤ header.sectionCount
        ∨ claimBlocks ⟨disk 0⟩ (some header) (requiredBlocks (finalSize (some header) data 0)) = none

/-- What is asked of a call: sizes can be counted, and no file that is there is made to grow. -/
def DriveCall.Sound (a : AVFS) (s : Computer) : DriveCall → Prop
  | .write path data => data.length < 2 ^ 63 ∧ ∀ handle directory,
      a.resolve path = .ok (handle, directory) → FitsOn (s.device handle).disk directory (cleanData data)
  | .read _ array => array.elems.length < 2 ^ 64
  | _ => True

/-- One call returns. -/
structure DriveStep (B : Board) (x : AvfsState) (l : DriveCall × DriveAnswer) (y : AvfsState) : Prop where
  returns : (l.1.run B x.1).run x.2 = (.ok (l.2, y.1), y.2)
  sound : l.1.Sound x.1 x.2

/-! ## The same calls on stores -/

/-- A store for each device. -/
abbrev DeviceStores := Handle → BlockStore (List UInt8)

/-- What `read` answers, and what is in the array then. -/
def driveRead (a : AVFS) (t : DeviceStores) (path : Path) (array : Dynarr) : DriveAnswer :=
  match a.resolve path with
  | .error e => (e, array.elems)
  | .ok (handle, directory) =>
      match answerFor ((t handle).get (nameOf directory)) directory 0 (UInt64.ofNat array.elems.length) with
      | .error e => (e, array.elems)
      | .ok w => (.success, w)

/-- The same call on the stores: the drives only say which store it is about. -/
inductive DriveStoreStep (a : AVFS) (t : DeviceStores) : DriveCall × DriveAnswer → DeviceStores → Prop
  | mount (path : Path) (e : ErrorCode)
      (h : e = match a.resolve path with | .error e => e | .ok _ => .success) :
      DriveStoreStep a t (.mount path, (e, [])) t
  | dismount (path : Path) : DriveStoreStep a t (.dismount path, (a.exists' path, [])) t
  | unresolved {path : Path} {e : ErrorCode} (data : List UInt8) (h : a.resolve path = .error e) :
      DriveStoreStep a t (.write path data, (e, [])) t
  | invalid {path directory : Path} {handle : Handle} (data : List UInt8)
      (h : a.resolve path = .ok (handle, directory)) (hseg : chopPath directory = []) :
      DriveStoreStep a t (.write path data, (.invalidPath, [])) t
  | write {path directory : Path} {handle : Handle} {data : List UInt8} {o : Outcome}
      {s' : BlockStore (List UInt8)} (h : a.resolve path = .ok (handle, directory))
      (hseg : chopPath directory ≠ [])
      (hw : (t handle).Writes 4096 (nameOf directory) ⟨0, cleanData data⟩ o s') :
      DriveStoreStep a t (.write path data, (answerOf o, [])) (fun h => if h = handle then s' else t h)
  | read (path : Path) (array : Dynarr) :
      DriveStoreStep a t (.read path array, driveRead a t path array) t
  | exists' (path : Path) : DriveStoreStep a t (.exists' path, (a.exists' path, [])) t

/-- Each device that a path can stand for has a volume that keeps its store. -/
def KeepsStores (a : AVFS) (s : Computer) (t : DeviceStores) : Prop :=
  ∀ path handle directory, a.resolve path = .ok (handle, directory) → StoreOn (s.device handle).disk (t handle)

/-! ## The simulation -/

section Simulation

variable {B : Board} {a a' : AVFS} {path directory : Path} {handle : Handle} {s s' : Computer} {t : DeviceStores}
  {st : BlockStore (List UInt8)} {data : List UInt8} {e : ErrorCode}

/-- The disks are as they were. -/
def SameDisks (s s' : Computer) : Prop := ∀ h, (s'.device h).disk = (s.device h).disk

theorem KeepsStores.congr (h : KeepsStores a s t) (hs : SameDisks s s') : KeepsStores a s' t := by
  intro path handle directory hres
  rw [hs handle]
  exact h path handle directory hres

/-- A machine with the same disk put back leaves all disks as they were. -/
theorem sameDisks_set {m : Machine} (hm : m.disk = (s.device handle).disk) :
    SameDisks s ((Computer.machine handle).set s m) := by
  intro h
  show (if h = handle then _ else s.device h : DeviceState).disk = _
  split
  · rename_i heq
    rw [heq]
    exact hm
  · rfl

theorem FitsOn.within {c : Conditions} {fs : AbtrFS} {m : Machine} (h : FitsOn m.disk path data)
    (hread : ∀ k, c.readOk k = true) (hsync : InSync fs m.disk) : WithinBlocks c fs m path data 0 := by
  intro n header r hlook
  have hok : c.readOk = fun _ => true := funext hread
  rw [lookUp, if_neg hsync.handle, hok, hsync.header] at hlook
  rw [hsync.header]
  exact h n m.reads header r hlook

/-- A new object on a device with a volume. -/
theorem run_mountExisting_store (hst : StoreOn (s.device handle).disk st) (hv : handle ≠ invalidHandle)
    (hread : ∀ k, B.readOk handle k = true) (base hhdm : UInt64) :
    (mountExisting B.platform AbtrFS.init base hhdm handle).run s
      = (.ok (mountedOn AbtrFS.init base hhdm handle (s.device handle).disk),
        (Computer.machine handle).set s (afterMount handle s)) := by
  rw [(B.sees handle).mountExisting, run_zoom]
  have hm : Mountable (B.conditions handle) ((Computer.machine handle).get s) handle :=
    ⟨hv, hread _, hst.magic (m := (Computer.machine handle).get s)⟩
  rw [hm.run]
  rfl

/-- A path that stands for nothing is refused. -/
theorem write_unresolved {e₀ : ErrorCode} (hres : a.resolve path = .error e₀)
    (hrun : (a.write B.platform path data).run s = (.ok e, s')) : e = e₀ ∧ s' = s := by
  unfold AVFS.resolve at hres
  unfold AVFS.write at hrun
  split at hres
  · rename_i e₁ hi
    obtain rfl := Except.error.inj hres
    simp only [hi] at hrun
    obtain ⟨h, rfl⟩ := Prod.mk.inj hrun
    exact ⟨(Except.ok.inj h).symm, rfl⟩
  · rename_i i hi
    split at hres
    · rename_i hh
      obtain rfl := Except.error.inj hres
      simp only [hi, hh] at hrun
      obtain ⟨h, rfl⟩ := Prod.mk.inj hrun
      exact ⟨(Except.ok.inj h).symm, rfl⟩
    · obtain ⟨directory, hdir⟩ := AVFS.findPathAfterDrive_of_locate hi
      rw [hdir] at hres
      cases hres

theorem read_unresolved {β : Type} {T : Target Computer β} {d d' : β} {n : UInt64} {e₀ : ErrorCode}
    (hres : a.resolve path = .error e₀)
    (hrun : (a.read B.platform T path d n).run s = (.ok (e, d'), s')) : e = e₀ ∧ d' = d ∧ s' = s := by
  unfold AVFS.resolve at hres
  unfold AVFS.read at hrun
  split at hres
  · rename_i e₁ hi
    obtain rfl := Except.error.inj hres
    simp only [hi] at hrun
    obtain ⟨h, rfl⟩ := Prod.mk.inj hrun
    obtain ⟨rfl, rfl⟩ := Prod.mk.inj (Except.ok.inj h)
    exact ⟨rfl, rfl, rfl⟩
  · rename_i i hi
    split at hres
    · rename_i hh
      obtain rfl := Except.error.inj hres
      simp only [hi, hh] at hrun
      obtain ⟨h, rfl⟩ := Prod.mk.inj hrun
      obtain ⟨rfl, rfl⟩ := Prod.mk.inj (Except.ok.inj h)
      exact ⟨rfl, rfl, rfl⟩
    · obtain ⟨directory, hdir⟩ := AVFS.findPathAfterDrive_of_locate hi
      rw [hdir] at hres
      cases hres

/-- **A write on a drive** is one on the store of its device. -/
theorem drive_write (hres : a.resolve path = .ok (handle, directory))
    (hst : StoreOn (s.device handle).disk st) (hread : ∀ k, B.readOk handle k = true)
    (hsmall : data.length < 2 ^ 63) (hfits : FitsOn (s.device handle).disk directory (cleanData data))
    (hrun : (a.write B.platform path data).run s = (.ok e, s')) :
    (∀ h, h ≠ handle → (s'.device h).disk = (s.device h).disk)
    ∧ ((chopPath directory = [] ∧ e = .invalidPath ∧ SameDisks s s')
      ∨ chopPath directory ≠ [] ∧ ∃ o st', e = answerOf o
        ∧ st.Writes 4096 (nameOf directory) ⟨0, cleanData data⟩ o st' ∧ StoreOn (s'.device handle).disk st') := by
  have hn := AVFS.names_of_resolve hres
  have hv := hn.handle_ne
  obtain ⟨⟨i, hi, hh⟩, hdir⟩ := hn
  unfold AVFS.write at hrun
  simp only [hi, hh, hdir] at hrun
  obtain ⟨_, s₁, hreserve, hrest⟩ := bind_eq_ok hrun
  obtain ⟨r, s₁', hres₁, hdev, _⟩ := run_reserve B data.length s
  obtain ⟨_, rfl⟩ := Prod.mk.inj (hreserve.symm.trans hres₁)
  have hst₁ : StoreOn (s₁.device handle).disk st := by
    rw [hdev]
    exact hst
  simp only [run_bind, run_mountExisting_store hst₁ hv hread, andThen_ok] at hrest
  obtain ⟨⟨e', fs'⟩, s₂, hwrite, hpure⟩ := bind_eq_ok hrest
  obtain ⟨hres₂, rfl⟩ := Prod.mk.inj hpure
  obtain rfl : e' = e := Except.ok.inj hres₂
  rw [(B.sees handle).writeFile rfl] at hwrite
  obtain ⟨hwrite, hset⟩ := zoom_eq_ok hwrite
  rw [Component.get_set] at hwrite
  have hother : ∀ h, h ≠ handle → (s₂.device h).disk = (s.device h).disk := by
    intro h hne
    rw [hset]
    show (if h = handle then _ else if h = handle then _ else s₁.device h : DeviceState).disk = _
    rw [if_neg hne, if_neg hne, hdev]
  refine ⟨hother, ?_⟩
  have hsync : InSync (mountedOn AbtrFS.init (a.drives.get i).baseAddress a.hhdm handle
      (s₁.device handle).disk) (afterMount handle s₁).disk := inSync_mountedOn hv _ _
  by_cases hseg : chopPath directory = []
  · obtain ⟨rfl, _, hm⟩ := writeFile_invalid hsync.mounted hseg hwrite
    refine Or.inl ⟨hseg, rfl, fun h => ?_⟩
    by_cases hne : h = handle
    · subst hne
      have hdisk : ((Computer.machine h).get s₂).disk = (s₁.device h).disk := by
        rw [hm]
        rfl
      rw [hdev] at hdisk
      exact hdisk
    · exact hother h hne
  · have hclean : (cleanData data).length ≤ data.length := List.length_filter_le _ _
    have hfits' : WithinBlocks (B.conditions handle) (mountedOn AbtrFS.init (a.drives.get i).baseAddress a.hhdm
        handle (s₁.device handle).disk) (afterMount handle s₁) directory (cleanData data) 0 := by
      refine FitsOn.within ?_ hread hsync
      show FitsOn (s₁.device handle).disk directory (cleanData data)
      rw [hdev]
      exact hfits
    have hzero : (0 : UInt64).toNat + (cleanData data).length < 2 ^ 63 := by
      have h0 : (0 : UInt64).toNat = 0 := rfl
      omega
    obtain ⟨o, st', hcode, hw, hst', _⟩ := StoreOn.write (m := afterMount handle s₁) hst₁ hsync hseg hread
      hzero hfits' hwrite
    exact Or.inr ⟨hseg, o, st', hcode, hw, hst'⟩

/-- **A read on a drive** answers from the store of its device. -/
theorem drive_read {d d' : Dynarr} {n : UInt64} (hres : a.resolve path = .ok (handle, directory))
    (hst : StoreOn (s.device handle).disk st) (hread : ∀ k, B.readOk handle k = true)
    (hrun : (a.read B.platform (Dynarr.target B.platform) path d n).run s = (.ok (e, d'), s')) :
    SameDisks s s' ∧ (e, d'.elems) =
      match answerFor (st.get (nameOf directory)) directory 0 n with
      | .error e => (e, d.elems)
      | .ok w => (.success, w) := by
  have hn := AVFS.names_of_resolve hres
  have hv := hn.handle_ne
  obtain ⟨⟨i, hi, hh⟩, hdir⟩ := hn
  unfold AVFS.read at hrun
  simp only [hi, hh, hdir, run_bind, run_mountExisting_store hst hv hread, andThen_ok] at hrun
  obtain ⟨⟨res, d₁⟩, s₂, hfile, hpure⟩ := bind_eq_ok hrun
  have hfile' := run_readFile_some hfile
  rw [(B.sees handle).readFile rfl] at hfile'
  obtain ⟨hfile', hset⟩ := zoom_eq_ok hfile'
  rw [Component.get_set] at hfile'
  have hsync : InSync (mountedOn AbtrFS.init (a.drives.get i).baseAddress a.hhdm handle
      (s.device handle).disk) (afterMount handle s).disk := inSync_mountedOn hv _ _
  obtain ⟨hq, hanswer, harray⟩ := (StoreOn.read (m := afterMount handle s) (c := B.conditions handle) hst hsync
    hread (some d) 0 n).returned hfile'
  have hsame : SameDisks s s₂ := by
    intro h
    rw [hset]
    show (if h = handle then _ else if h = handle then _ else s.device h : DeviceState).disk = _
    split
    · rename_i heq
      subst heq
      exact hq.disk
    · rfl
  rw [show res = readAnswer st directory 0 n from hanswer, readAnswer] at hpure
  unfold readAnswer at harray
  generalize answerFor (st.get (nameOf directory)) directory 0 n = r at hpure harray ⊢
  cases r with
  | error e' =>
      obtain ⟨hres₂, rfl⟩ := Prod.mk.inj hpure
      obtain ⟨rfl, rfl⟩ := Prod.mk.inj (Except.ok.inj hres₂)
      have helems : d₁.elems = d.elems := Option.some.inj harray
      exact ⟨hsame, by rw [helems]⟩
  | ok w =>
      obtain ⟨hres₂, rfl⟩ := Prod.mk.inj hpure
      obtain ⟨rfl, rfl⟩ := Prod.mk.inj (Except.ok.inj hres₂)
      have helems : d₁.elems = w := Option.some.inj harray
      exact ⟨hsame, by rw [helems]⟩

/-- **Mounting a drive** succeeds, and marks it. -/
theorem drive_mount (hkeeps : KeepsStores a s t) (hread : ∀ h k, B.readOk h k = true)
    (hrun : (a.mount B.platform path).run s = (.ok (e, a'), s')) :
    SameDisks s s' ∧ AVFS.SameDrives a a'
      ∧ e = match a.resolve path with | .error e => e | .ok _ => .success := by
  have hrefl : AVFS.SameDrives a a := ⟨rfl, rfl⟩
  cases hi : a.locate path with
  | error e₀ =>
      unfold AVFS.mount at hrun
      simp only [hi] at hrun
      obtain ⟨hres, rfl⟩ := Prod.mk.inj hrun
      obtain ⟨rfl, rfl⟩ := Prod.mk.inj (Except.ok.inj hres)
      refine ⟨fun _ => rfl, hrefl, ?_⟩
      unfold AVFS.resolve
      rw [hi]
  | ok i =>
      cases hh : a.handleOf i with
      | none =>
          unfold AVFS.mount at hrun
          simp only [hi, hh] at hrun
          obtain ⟨hres, rfl⟩ := Prod.mk.inj hrun
          obtain ⟨rfl, rfl⟩ := Prod.mk.inj (Except.ok.inj hres)
          refine ⟨fun _ => rfl, hrefl, ?_⟩
          unfold AVFS.resolve
          simp only [hi, hh]
      | some handle =>
          obtain ⟨directory, hdir⟩ := AVFS.findPathAfterDrive_of_locate hi
          have hres : a.resolve path = .ok (handle, directory) := by
            unfold AVFS.resolve
            simp only [hi, hh, hdir]
          have hst := hkeeps path handle directory hres
          have hv := AVFS.handleOf_ne_invalid hh
          unfold AVFS.mount at hrun
          simp only [hi, hh, run_bind, (B.sees handle).mount, run_zoom] at hrun
          have hmagic : PartitionHeader.magic ⟨((Computer.machine handle).get s).disk 0⟩ = volumeMagic :=
            hst.magic (m := (Computer.machine handle).get s)
          rw [run_mount (c := B.conditions handle) hv (hread handle _) hmagic] at hrun
          simp only [andThen_ok, mountedOn, if_true, run_pure] at hrun
          obtain ⟨hres₂, rfl⟩ := Prod.mk.inj hrun
          obtain ⟨rfl, rfl⟩ := Prod.mk.inj (Except.ok.inj hres₂)
          refine ⟨sameDisks_set rfl, AVFS.sameDrives_setFormat a i _, ?_⟩
          rw [hres]

theorem drive_dismount (a : AVFS) (path : Path) :
    (a.dismount path).1 = a.exists' path ∧ AVFS.SameDrives a (a.dismount path).2 := by
  unfold AVFS.dismount AVFS.exists'
  cases a.locate path with
  | error e => exact ⟨rfl, rfl, rfl⟩
  | ok i => exact ⟨rfl, AVFS.sameDrives_setFormat a i []⟩

/-- **One call is the same call on the stores**, with the same answer. -/
theorem KeepsStores.step {a₀ : AVFS} {x y : AvfsState} {l : DriveCall × DriveAnswer}
    (hread : ∀ h k, B.readOk h k = true) (h : DriveStep B x l y) (hsame : AVFS.SameDrives a₀ x.1)
    (hkeeps : KeepsStores x.1 x.2 t) :
    ∃ t', (AVFS.SameDrives a₀ y.1 ∧ KeepsStores y.1 y.2 t') ∧ DriveStoreStep a₀ t l t' := by
  obtain ⟨a, s⟩ := x
  obtain ⟨a', s'⟩ := y
  obtain ⟨call, answer⟩ := l
  obtain ⟨hrun, hsound⟩ := h
  dsimp only at hrun hsound hsame hkeeps
  have hresolve := hsame.resolve_eq
  have hkeep : ∀ {a' : AVFS} {s' : Computer}, AVFS.SameDrives a a' → SameDisks s s' →
      AVFS.SameDrives a₀ a' ∧ KeepsStores a' s' t := by
    intro a' s' ha hs
    refine ⟨hsame.trans ha, fun path handle directory hres => ?_⟩
    rw [ha.resolve_eq] at hres
    exact hkeeps.congr hs path handle directory hres
  have hrefl : AVFS.SameDrives a a := ⟨rfl, rfl⟩
  cases call with
  | mount path =>
      obtain ⟨⟨e, a₁⟩, s₁, hmount, hpure⟩ := bind_eq_ok hrun
      obtain ⟨hres, rfl⟩ := Prod.mk.inj hpure
      obtain ⟨rfl, rfl⟩ := Prod.mk.inj (Except.ok.inj hres)
      obtain ⟨hdisks, hdrives, hcode⟩ := drive_mount hkeeps hread hmount
      rw [hresolve] at hcode
      exact ⟨t, hkeep hdrives hdisks, .mount path e hcode⟩
  | dismount path =>
      obtain ⟨hres, rfl⟩ := Prod.mk.inj hrun
      obtain ⟨rfl, rfl⟩ := Prod.mk.inj (Except.ok.inj hres)
      obtain ⟨hcode, hdrives⟩ := drive_dismount a path
      rw [hcode, hsame.exists_eq]
      exact ⟨t, hkeep hdrives fun _ => rfl, .dismount path⟩
  | write path data =>
      obtain ⟨e, s₁, hwrite, hpure⟩ := bind_eq_ok hrun
      obtain ⟨hres, rfl⟩ := Prod.mk.inj hpure
      obtain ⟨rfl, rfl⟩ := Prod.mk.inj (Except.ok.inj hres)
      obtain ⟨hsmall, hfits⟩ := hsound
      cases hr : a.resolve path with
      | error e₀ =>
          obtain ⟨rfl, rfl⟩ := write_unresolved hr hwrite
          rw [hresolve] at hr
          exact ⟨t, hkeep hrefl fun _ => rfl, .unresolved data hr⟩
      | ok r =>
          obtain ⟨handle, directory⟩ := r
          obtain ⟨hother, hcases⟩ := drive_write hr (hkeeps path handle directory hr) (hread handle) hsmall
            (hfits handle directory hr) hwrite
          rw [hresolve] at hr
          rcases hcases with ⟨hseg, rfl, hdisks⟩ | ⟨hseg, o, st', rfl, hw, hst'⟩
          · exact ⟨t, hkeep hrefl hdisks, .invalid data hr hseg⟩
          · refine ⟨_, ⟨hsame, fun path' handle' directory' hr' => ?_⟩, .write hr hseg hw⟩
            show StoreOn (s₁.device handle').disk (if handle' = handle then st' else t handle')
            by_cases heq : handle' = handle
            · subst heq
              rw [if_pos rfl]
              exact hst'
            · rw [if_neg heq, hother handle' heq]
              exact hkeeps path' handle' directory' hr'
  | read path array =>
      obtain ⟨⟨e, d'⟩, s₁, hr₁, hpure⟩ := bind_eq_ok hrun
      obtain ⟨hres, rfl⟩ := Prod.mk.inj hpure
      obtain ⟨rfl, rfl⟩ := Prod.mk.inj (Except.ok.inj hres)
      have hdone : SameDisks s s₁ ∧ (e, d'.elems) = driveRead a₀ t path array := by
        unfold driveRead
        cases hr : a.resolve path with
        | error e₀ =>
            obtain ⟨rfl, rfl, rfl⟩ := read_unresolved hr hr₁
            rw [hresolve] at hr
            rw [hr]
            exact ⟨fun _ => rfl, rfl⟩
        | ok r =>
            obtain ⟨handle, directory⟩ := r
            have hdone := drive_read hr (hkeeps path handle directory hr) (hread handle) hr₁
            rw [hresolve] at hr
            rw [hr]
            exact hdone
      rw [hdone.2]
      exact ⟨t, hkeep hrefl hdone.1, .read path array⟩
  | exists' path =>
      obtain ⟨hres, rfl⟩ := Prod.mk.inj hrun
      obtain ⟨rfl, rfl⟩ := Prod.mk.inj (Except.ok.inj hres)
      rw [hsame.exists_eq]
      exact ⟨t, hkeep hrefl fun _ => rfl, .exists' path⟩

variable {x y : AvfsState} {calls : List (DriveCall × DriveAnswer)} {t' : DeviceStores}

theorem KeepsStores.run (hread : ∀ h k, B.readOk h k = true) (hkeeps : KeepsStores x.1 x.2 t)
    (h : Run (DriveStep B) x calls y) :
    ∃ t', Run (DriveStoreStep x.1) t calls t' ∧ AVFS.SameDrives x.1 y.1 ∧ KeepsStores y.1 y.2 t' := by
  obtain ⟨t', hrun, hsame, hkeeps'⟩ := h.simulates (S := DriveStoreStep x.1) (g := some)
    (P := fun y t => AVFS.SameDrives x.1 y.1 ∧ KeepsStores y.1 y.2 t)
    (fun y l z u hl hy => by
      obtain ⟨u', hz, hs⟩ := hy.2.step hread hl hy.1
      exact ⟨u', hz, Or.inr ⟨l, rfl, hs⟩⟩) ⟨⟨rfl, rfl⟩, hkeeps⟩
  rw [List.filterMap_some] at hrun
  exact ⟨t', hrun, hsame, hkeeps'⟩

/-- **Drives are stores of contents.** From any state with a volume on every device that a path can stand
    for, whatever is called and whichever block writes fail, each call answers as it does on the stores, and
    the devices keep these stores. -/
theorem drives_refine_stores (hread : ∀ h k, B.readOk h k = true) (hkeeps : KeepsStores x.1 x.2 t)
    (h : Run (DriveStep B) x calls y) :
    ∃ t', Run (DriveStoreStep x.1) t calls t' ∧ KeepsStores y.1 y.2 t'
      ∧ ∀ path, y.1.resolve path = x.1.resolve path := by
  obtain ⟨t', hrun, hsame, hkeeps'⟩ := hkeeps.run hread h
  exact ⟨t', hrun, hkeeps', hsame.resolve_eq⟩

/-- A freshly formatted computer keeps empty stores. -/
theorem keepsStores_formatted (a : AVFS) : KeepsStores a formattedComputer fun _ => blank formatFree := by
  intro path handle directory _
  refine ⟨⟨[], wellLaidOutOn_formatted.toVolumeOn, nofun, rfl⟩, ?_, ?_⟩
  · show formatFree = (PartitionHeader.freeBlocksCount ⟨layDisk [] 0⟩).toNat
    decide +kernel
  · show (PartitionHeader.totalBlocks ⟨layDisk [] 0⟩).toNat ≤ _
    decide +kernel

/-- The computer once a file is written there. -/
def writtenComputer : Computer :=
  ((avfsD.write (board fun _ => true).platform pathDA [0x41]).run formattedComputer).2

theorem step_drive_formatted : DriveStep (board fun _ => true) (avfsD, formattedComputer)
    (.write pathDA [0x41], (.success, [])) (avfsD, writtenComputer) := by
  have hcode : ((avfsD.write (board fun _ => true).platform pathDA [0x41]).run formattedComputer).1
      = .ok .success := by decide +kernel
  refine ⟨?_, by decide, fun handle directory _ n r₀ header r h => ?_⟩
  · have hrun : (avfsD.write (board fun _ => true).platform pathDA [0x41]).run formattedComputer
        = (.ok .success, writtenComputer) := Prod.ext hcode rfl
    show ((avfsD.write (board fun _ => true).platform pathDA [0x41]) >>= _).run formattedComputer = _
    rw [run_bind, hrun]
    rfl
  · have hused : ¬ (1 : UInt64) < PartitionHeader.used ⟨layDisk [] 0⟩ := by decide +kernel
    have hscan : scan (fun _ => true) (layDisk []) directory (PartitionHeader.used ⟨layDisk [] 0⟩) n 1 r₀
        = some (some header, r) := h
    cases n with
    | zero => cases hscan
    | succ n =>
        unfold scan at hscan
        rw [if_neg hused] at hscan
        cases hscan

/-- It is about runs there are. -/
theorem drives_refine_stores_a : ∃ (y : AvfsState) (t' : DeviceStores),
    Run (DriveStoreStep avfsD) (fun _ => blank formatFree) [(.write pathDA [0x41], (.success, []))] t'
      ∧ KeepsStores y.1 y.2 t' := by
  obtain ⟨t', hrun, hkeeps, _⟩ := drives_refine_stores (B := board fun _ => true) (fun _ _ => rfl)
    (keepsStores_formatted avfsD) (Run.single step_drive_formatted)
  exact ⟨_, t', hrun, hkeeps⟩

/-! ## One device -/

/-- What a call did to the store of a device. -/
def driveEvent (a : AVFS) (handle : Handle) : DriveCall × DriveAnswer → Option (Event (List UInt8))
  | (.write path data, (e, _)) =>
      match a.resolve path with
      | .error _ => none
      | .ok (h, directory) =>
          if h = handle then (outcomeOf e).map fun o => .write (nameOf directory) ⟨0, cleanData data⟩ o else none
  | _ => none

theorem DriveStoreStep.device {l : DriveCall × DriveAnswer} (h : DriveStoreStep a t l t') (handle : Handle) :
    (driveEvent a handle l = none ∧ t' handle = t handle)
      ∨ ∃ e, driveEvent a handle l = some e ∧ BlockStore.Step 4096 (t handle) e (t' handle) := by
  cases h with
  | mount path e h => exact Or.inl ⟨rfl, rfl⟩
  | dismount path => exact Or.inl ⟨rfl, rfl⟩
  | unresolved data h =>
      refine Or.inl ⟨?_, rfl⟩
      simp only [driveEvent, h]
  | @invalid path directory h' data h hseg =>
      refine Or.inl ⟨?_, rfl⟩
      simp only [driveEvent, h]
      split <;> rfl
  | @write path directory h' data o s' h hseg hw =>
      by_cases heq : h' = handle
      · subst heq
        refine Or.inr ⟨.write (nameOf directory) ⟨0, cleanData data⟩ o, ?_, ?_⟩
        · simp only [driveEvent, h, if_true, outcomeOf_answerOf, Option.map_some]
        · dsimp only
          rw [if_pos rfl]
          exact .write hw
      · refine Or.inl ⟨?_, if_neg fun hc => heq hc.symm⟩
        simp only [driveEvent, h, if_neg heq]
  | read path array => exact Or.inl ⟨rfl, rfl⟩
  | exists' path => exact Or.inl ⟨rfl, rfl⟩

/-- **A run on all drives is one on each device**: the writes whose paths stand for files of it. -/
theorem run_device (h : Run (DriveStoreStep a) t calls t') (handle : Handle) :
    Run (BlockStore.Step 4096) (t handle) (calls.filterMap (driveEvent a handle)) (t' handle) := by
  obtain ⟨s, hrun, rfl⟩ := h.simulates (S := BlockStore.Step 4096) (P := fun t s => s = t handle)
    (g := driveEvent a handle)
    (fun t l t' s hl hs => by
      subst hs
      exact ⟨t' handle, rfl, hl.device handle⟩) rfl
  exact hrun

/-- The content under the path of a file of a device after a run: that from before, with the data of each
    successful write over it. -/
def replayed (a : AVFS) (t : DeviceStores) (calls : List (DriveCall × DriveAnswer)) (handle : Handle)
    (directory : Path) : Option (List UInt8) :=
  (nameOf directory).bind fun v =>
    (calls.filterMap (driveEvent a handle)).foldl (Event.replay v) ((t handle).content v)

/-- The call is a write of the file that was cut short. -/
def DriveCut (a : AVFS) (handle : Handle) (directory : Path) (l : DriveCall × DriveAnswer) : Prop :=
  ∃ path data q w, l = (.write path data, (.writeFailed, w)) ∧ a.resolve path = .ok (handle, q)
    ∧ nameOf q = nameOf directory

/-- A run without such a write leaves the content that is replayed. -/
theorem replayed_of_run (h : Run (DriveStoreStep a) t calls t')
    (hcut : ∀ l ∈ calls, ¬ DriveCut a handle directory l) :
    (t' handle).get (nameOf directory) = replayed a t calls handle directory := by
  unfold replayed
  cases hv : nameOf directory with
  | none => rfl
  | some v =>
      refine content_of_run (run_device h handle) fun ev hmem hc => ?_
      obtain ⟨l, hl, hevent⟩ := List.mem_filterMap.mp hmem
      obtain ⟨call, e₁, w⟩ := l
      cases call with
      | write p data =>
          simp only [driveEvent] at hevent
          split at hevent
          · cases hevent
          · rename_i h₁ q hq
            split at hevent
            · rename_i heq
              obtain ⟨o, ho, rfl⟩ := Option.map_eq_some_iff.mp hevent
              obtain ⟨hname, rfl⟩ := hc
              obtain rfl : e₁ = .writeFailed := by
                cases e₁ <;> first | rfl | cases ho
              exact hcut _ hl ⟨p, data, q, w, rfl, by rw [hq, heq], hname.trans hv.symm⟩
            · cases hevent
      | mount p => cases hevent
      | dismount p => cases hevent
      | read p array => cases hevent
      | exists' p => cases hevent

/-- **A file is read as it was written.** After any run in which no write of the file was cut short, a read
    under any path that stands for the file gives its content from before the run with the successful writes
    laid over it in turn. Writes to other files, on the same device or others, do not matter. -/
theorem drive_reads_replayed (hread : ∀ h k, B.readOk h k = true) (hkeeps : KeepsStores x.1 x.2 t)
    (h : Run (DriveStep B) x calls y) (hres : x.1.resolve path = .ok (handle, directory))
    (hcut : ∀ l ∈ calls, ¬ DriveCut x.1 handle directory l) {d d' : Dynarr}
    (hrun : (y.1.read B.platform (Dynarr.target B.platform) path d (UInt64.ofNat d.elems.length)).run y.2
      = (.ok (e, d'), s')) :
    (e, d'.elems) = match answerFor (replayed x.1 t calls handle directory) directory 0
        (UInt64.ofNat d.elems.length) with
      | .error e => (e, d.elems)
      | .ok w => (.success, w) := by
  obtain ⟨t', hstores, hsame, hkeeps'⟩ := hkeeps.run hread h
  rw [← hsame.resolve_eq] at hres
  have hdone := (drive_read hres (hkeeps' path handle directory hres) (hread handle) hrun).2
  rw [replayed_of_run hstores hcut] at hdone
  exact hdone

/-- The byte that was written is read. -/
theorem drive_reads_replayed_a : ∃ d' s',
    (avfsD.read (board fun _ => true).platform (Dynarr.target (board fun _ => true).platform) pathDA
      ⟨[0], 1, by decide⟩ 1).run writtenComputer = (.ok (.success, d'), s') ∧ d'.elems = [0x41] := by
  obtain ⟨directory, hn, hstr⟩ := names_pathDA
  have hres := AVFS.resolve_of_names hn
  have hok : ((avfsD.read (board fun _ => true).platform (Dynarr.target (board fun _ => true).platform) pathDA
      ⟨[0], 1, by decide⟩ 1).run writtenComputer).1.map Prod.fst = .ok .success := by decide +kernel
  generalize hr : (avfsD.read (board fun _ => true).platform (Dynarr.target (board fun _ => true).platform)
    pathDA ⟨[0], 1, by decide⟩ 1).run writtenComputer = r at hok
  obtain ⟨res, s'⟩ := r
  obtain ⟨⟨e, d'⟩, rfl, rfl⟩ := map_eq_ok hok
  have hread := drive_reads_replayed (B := board fun _ => true) (fun _ _ => rfl)
    (keepsStores_formatted avfsD) (Run.single step_drive_formatted) hres (fun l hl hc => by
      obtain ⟨p, data, q, w, heq, _⟩ := hc
      rw [List.mem_singleton.mp hl] at heq
      cases heq) (d := ⟨[0], 1, by decide⟩) hr
  have hseg : chopPath directory ≠ [] := chopPath_ne_nil ⟨0x61, by rw [hstr]; simp, by decide⟩
  have hname : nameOf directory = some [0x61] := by
    rw [nameOf, hstr, if_pos (by decide)]
  have hcontent : replayed avfsD (fun _ => blank formatFree) [(.write pathDA [0x41], (.success, []))] 0 directory
      = some [0x41] := by
    simp only [replayed, hname, Option.bind_some, List.filterMap_cons, List.filterMap_nil, driveEvent, hres]
    decide +kernel
  rw [hcontent, answerFor, if_neg hseg] at hread
  exact ⟨d', s', rfl, (Prod.mk.inj hread).2⟩

end Simulation

end AlopexOS
