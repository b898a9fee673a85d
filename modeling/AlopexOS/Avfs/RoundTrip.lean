import AlopexOS.Avfs.Mounted
import AlopexOS.Abtrfs.Stored

/-!
# `Avfs.RoundTrip` — what is read after a write

`write` leaves out the zeros of what it is given and puts the rest over the start of the old content;
`read` takes the size of the array for its limit, and 0 for none. The two calls work on the same device with
objects of their own.

## Contents
- **Calls inverted**: what a call that returns did on its device.
- **The round trip.**
-/

namespace AlopexOS

open Packed ByteString CString Prog

variable {B : Board} {a : AVFS} {path directory : Path} {handle : Handle} {s s₁ s₂ : Computer}
  {files : List File} {data old x : List UInt8} {d d' : Dynarr} {n : UInt64}

/-! ## Calls inverted -/

/-- The path names a file on a device. -/
structure Names (a : AVFS) (path : Path) (handle : Handle) (directory : Path) : Prop where
  drive : ∃ i, a.locate path = .ok i ∧ a.handleOf i = some handle
  file : AVFS.findPathAfterDrive path = .ok directory

/-- No device has the handle that stands for none. -/
theorem AVFS.handleOf_ne_invalid {i : Fin a.drives.length} (h : a.handleOf i = some handle) :
    handle ≠ invalidHandle := by
  unfold AVFS.handleOf at h
  rcases AVFS.matchedHandle_cases a.gaossd.devices (a.drives.get i).baseAddress with
    ⟨k, dev, hk, hget, _⟩ | ⟨hk, _, _⟩
  · rw [hk] at h
    obtain rfl := Option.some.inj h
    have hlt : k < a.gaossd.devices.length := (List.getElem?_eq_some_iff.mp hget).1
    have hcount := a.gaossd.count_lt
    intro heq
    have := congrArg UInt64.toNat heq
    rw [Word.toNat_ofNat (by omega)] at this
    have hinv : invalidHandle.toNat = 2 ^ 64 - 1 := rfl
    omega
  · rw [hk] at h
    cases h

theorem Names.handle_ne (h : Names a path handle directory) : handle ≠ invalidHandle := by
  obtain ⟨i, _, hh⟩ := h.drive
  exact AVFS.handleOf_ne_invalid hh

/-- What `write` stores of the data it is given. -/
def cleanData (data : List UInt8) : List UInt8 := data.filter (· ≠ 0)

/-- **A successful `write`** is one on the device, by an object that was mounted on it. -/
theorem write_inv (hn : Names a path handle directory)
    (hrun : (a.write B.platform path data).run s = (.ok .success, s₁)) :
    ∃ base m fs, m.disk = (s.device handle).disk
      ∧ (writeFile (honest (B.conditions handle)) (mountedOn AbtrFS.init base a.hhdm handle m.disk) directory
          (cleanData data) 0).run m = (.ok (.success, fs), (Computer.machine handle).get s₁) := by
  obtain ⟨⟨i, hi, hh⟩, hdir⟩ := hn
  unfold AVFS.write at hrun
  simp only [hi, hh, hdir] at hrun
  obtain ⟨_, c₁, hreserve, hrest⟩ := bind_eq_ok hrun
  obtain ⟨r, c₁', hres₁, hdev, _⟩ := run_reserve B data.length s
  obtain ⟨_, rfl⟩ := Prod.mk.inj (hreserve.symm.trans hres₁)
  obtain ⟨fs, c₂, hmount, hrest⟩ := bind_eq_ok hrest
  obtain ⟨⟨e, fs'⟩, c₃, hwrite, hrest⟩ := bind_eq_ok hrest
  obtain ⟨he, rfl⟩ := Prod.mk.inj hrest
  obtain rfl : e = .success := Except.ok.inj he
  rw [(B.sees handle).mountExisting] at hmount
  obtain ⟨hmount, _⟩ := zoom_eq_ok hmount
  have hdisk : ((Computer.machine handle).get c₁).disk = (s.device handle).disk := by
    show (c₁.device handle).disk = _
    rw [hdev]
  by_cases hm : Mountable (B.conditions handle) ((Computer.machine handle).get c₁) handle
  · rw [hm.run] at hmount
    obtain ⟨hfs, hm'⟩ := Prod.mk.inj hmount
    obtain rfl := Except.ok.inj hfs
    rw [(B.sees handle).writeFile rfl] at hwrite
    obtain ⟨hwrite, _⟩ := zoom_eq_ok hwrite
    rw [← hm'] at hwrite
    exact ⟨_, { (Computer.machine handle).get c₁ with reads := ((Computer.machine handle).get c₁).reads + 1 },
      fs', hdisk, hwrite⟩
  · -- an object that was not mounted writes nothing
    obtain ⟨fs'', m', hno, hunmounted, _⟩ := Mountable.run_not hm (a.drives.get i).baseAddress a.hhdm
    rw [hno] at hmount
    obtain rfl := Except.ok.inj (Prod.mk.inj hmount).1
    simp only [writeFile, hunmounted, if_true, run_pure] at hwrite
    cases hwrite

/-- **A successful `read`** is one of `readFileInto`, by an object that was mounted for it. The platform is
    any on which the device is an honest machine. -/
theorem read_inv {τ β : Type} {Q : Platform τ} {c : Conditions} {L : Component τ Machine} {T : Target τ β}
    {u u' : τ} {v v' : β} (hq : Sees Q (honest c) L handle) (hn : Names a path handle directory)
    (hrun : (a.read Q T path v n).run u = (.ok (.success, v'), u')) :
    ∃ base bytes,
      (readFileInto Q T (mountedOn AbtrFS.init base a.hhdm handle (L.get u).disk) directory v 0 n).run
        (L.set u { L.get u with reads := (L.get u).reads + 1 }) = (.ok (.ok bytes, v'), u') := by
  obtain ⟨⟨i, hi, hh⟩, hdir⟩ := hn
  unfold AVFS.read at hrun
  simp only [hi, hh, hdir] at hrun
  obtain ⟨fs, u₁, hmount, hrest⟩ := bind_eq_ok hrun
  rw [hq.mountExisting, run_zoom] at hmount
  by_cases hm : Mountable c (L.get u) handle
  · rw [hm.run] at hmount
    obtain ⟨hfs, rfl⟩ := Prod.mk.inj hmount
    obtain rfl := Except.ok.inj hfs
    obtain ⟨⟨res, v₁⟩, u₂, hfile, hrest⟩ := bind_eq_ok hrest
    cases res with
    | error e =>
        obtain ⟨he, _⟩ := Prod.mk.inj hrest
        obtain ⟨rfl, _⟩ := Prod.mk.inj (Except.ok.inj he)
        -- `read_file` has no error that is `Success`
        exact absurd (gives_readFileInto rfl _ _ _ _ _ _ hfile _ rfl) (by decide)
    | ok bytes =>
        obtain ⟨hv, rfl⟩ := Prod.mk.inj hrest
        obtain ⟨_, rfl⟩ := Prod.mk.inj (Except.ok.inj hv)
        exact ⟨_, bytes, hfile⟩
  · obtain ⟨fs', m', hno, hunmounted, _⟩ := Mountable.run_not hm (a.drives.get i).baseAddress a.hhdm
    rw [hno] at hmount
    obtain ⟨hfs, rfl⟩ := Prod.mk.inj hmount
    obtain rfl := Except.ok.inj hfs
    simp only [readFileInto, hunmounted, if_true, pure_bind, run_pure] at hrest
    cases hrest

/-! ## The round trip -/

/-- What is stored under a name on a volume: nothing, or the content of its file. -/
def HasContent (files : List File) (name old : List UInt8) : Prop :=
  ((∀ f ∈ files, f.name ≠ name) ∧ old = []) ∨ ∃ f ∈ files, f.name = name ∧ f.content = old

/-- A `write` that succeeds stores the data over the old content. A file that was there keeps its length. -/
theorem stores_write (hn : Names a path handle directory) (hlen : directory.str.length ≤ 254)
    (hread : ∀ k, B.readOk handle k = true) (hvol : WellLaidOutOn (s.device handle).disk files)
    (hold : HasContent files directory.str old)
    (hsize : max old.length (cleanData data).length + 4096 ≤ 2 ^ 64)
    (hwrite : (a.write B.platform path data).run s = (.ok .success, s₁)) :
    ∃ k, Stores (s₁.device handle).disk directory
        ((cleanData data ++ old.drop (cleanData data).length).take k)
      ∧ ((∃ f ∈ files, f.name = directory.str) ∧ k = old.length
        ∨ old = [] ∧ k = (cleanData data).length) := by
  have hhandle := hn.handle_ne
  obtain ⟨base, m, fs, hdisk, hrun⟩ := write_inv hn hwrite
  rw [← hdisk] at hvol
  rcases hold with ⟨habsent, rfl⟩ | ⟨f, hf, hname, rfl⟩
  · refine ⟨_, ?_, Or.inr ⟨rfl, rfl⟩⟩
    rw [List.drop_nil, List.append_nil, List.take_length]
    exact stores_new hvol hhandle hlen habsent (by omega) hrun
  · exact ⟨_, stores_update hvol hhandle hread hlen hf hname hsize hrun, Or.inl ⟨⟨f, hf, hname⟩, rfl⟩⟩

/-- A `read` that succeeds gives what is stored. -/
theorem read_of_stores (hn : Names a path handle directory)
    (hst : Stores (s.device handle).disk directory x)
    (hrun : (a.read B.platform (Dynarr.target B.platform) path d n).run s = (.ok (.success, d'), s₁)) :
    d'.elems = limited x n.toNat := by
  obtain ⟨base, bytes, hfile⟩ := read_inv (B.sees handle) hn hrun
  have hcall := run_readFile_some hfile
  rw [(B.sees handle).readFile rfl] at hcall
  obtain ⟨hcall, _⟩ := zoom_eq_ok hcall
  rw [Component.get_set] at hcall
  -- the disk is as it was before the object was mounted
  generalize hm : ({ (Computer.machine handle).get s with
    reads := ((Computer.machine handle).get s).reads + 1 } : Machine) = m at hcall
  have hdisk : ((Computer.machine handle).get s).disk = m.disk := by
    rw [← hm]
  have hst' : Stores m.disk directory x := by
    rw [← hdisk]
    exact hst
  rw [hdisk] at hcall
  exact read_stored hst' hn.handle_ne hcall

/-- What is cut off does not matter to a reader who stops before. -/
theorem limited_take {k n : Nat} (h : x.length ≤ k ∨ 0 < n ∧ n ≤ k) :
    limited (x.take k) n = limited x n := by
  unfold limited
  rcases h with hall | ⟨hn, hle⟩
  · rw [List.take_of_length_le hall]
  · rw [if_neg (by omega), if_neg (by omega), List.take_take, Nat.min_eq_left hle]

/-- **What is read after a write.** The data without zeros, then the rest of the old content, up to the size
    of the array if it is not empty. Of a file that was there already, only what is in its old length is
    spoken of. -/
theorem read_after_write (hn : Names a path handle directory) (hlen : directory.str.length ≤ 254)
    (hread : ∀ k, B.readOk handle k = true) (hvol : WellLaidOutOn (s.device handle).disk files)
    (hold : HasContent files directory.str old)
    (hsize : max old.length (cleanData data).length + 4096 ≤ 2 ^ 64) (hd : d.elems.length < 2 ^ 64)
    (hkeep : (∀ f ∈ files, f.name ≠ directory.str) ∨ (cleanData data).length ≤ old.length
      ∨ (0 < d.elems.length ∧ d.elems.length ≤ old.length))
    (hwrite : (a.write B.platform path data).run s = (.ok .success, s₁))
    (hrun : (a.read B.platform (Dynarr.target B.platform) path d (UInt64.ofNat d.elems.length)).run s₁
      = (.ok (.success, d'), s₂)) :
    d'.elems = limited (cleanData data ++ old.drop (cleanData data).length) d.elems.length := by
  obtain ⟨k, hst, hk⟩ := stores_write hn hlen hread hvol hold hsize hwrite
  rw [read_of_stores hn hst hrun, Word.toNat_ofNat hd]
  apply limited_take
  rw [List.length_append, List.length_drop]
  rcases hk with ⟨⟨f, hf, hname⟩, rfl⟩ | ⟨rfl, rfl⟩
  · rcases hkeep with habsent | hshort | hpart
    · exact absurd hname (habsent f hf)
    · exact Or.inl (by omega)
    · exact Or.inr hpart
  · exact Or.inl (by simp)

/-- The data are written to "d://a" on a volume without files, and read into an array of `n` bytes. -/
def writeAndRead (data : List UInt8) (n : Nat) :
    Except Fault ErrorCode × Except Fault (ErrorCode × Dynarr) :=
  let P := (board fun _ => true).platform
  let w := (avfsD.write P pathDA data).run formattedComputer
  let d : Dynarr := ⟨List.replicate n 0, n, by simp⟩
  (w.1, ((avfsD.read P (Dynarr.target P) pathDA d (UInt64.ofNat d.elems.length)).run w.2).1)

theorem names_pathDA : ∃ directory, Names avfsD pathDA 0 directory ∧ directory.str = [0x61] := by
  have hdrive : ∃ i, avfsD.locate pathDA = .ok i ∧ avfsD.handleOf i = some 0 :=
    ⟨⟨0, by decide⟩, by decide +kernel, by decide +kernel⟩
  obtain ⟨i, hi, hh⟩ := hdrive
  obtain ⟨directory, hdir⟩ := AVFS.findPathAfterDrive_of_locate hi
  have hstr : (AVFS.findPathAfterDrive pathDA).map Path.str = .ok [0x61] := by decide +kernel
  rw [hdir] at hstr
  exact ⟨directory, ⟨⟨i, hi, hh⟩, hdir⟩, Except.ok.inj hstr⟩

theorem wellLaidOutOn_formatted : WellLaidOutOn (formattedComputer.device 0).disk [] := by
  have h : WellLaidOut (layFs []) (layDisk []) (layFiles []) :=
    wellLaidOut_layDisk (by simp) (by decide) .nil
  exact ⟨⟨by decide +kernel, h.free_le, h.laid⟩, by simp, .nil⟩

/-- Data without zeros are read back. -/
theorem read_after_write_a :
    ∃ d', (writeAndRead [0x41, 0x42] 1).2 = .ok (.success, d') ∧ d'.elems = [0x41] := by
  obtain ⟨directory, hn, hstr⟩ := names_pathDA
  have hwrite : (writeAndRead [0x41, 0x42] 1).1 = .ok .success := by decide +kernel
  have hok : ∃ d', (writeAndRead [0x41, 0x42] 1).2 = .ok (.success, d') := by
    have : ((writeAndRead [0x41, 0x42] 1).2.map Prod.fst) = .ok .success := by decide +kernel
    generalize (writeAndRead [0x41, 0x42] 1).2 = r at this
    match r, this with
    | .ok (_, d'), rfl => exact ⟨d', rfl⟩
  obtain ⟨d', hd'⟩ := hok
  refine ⟨d', hd', ?_⟩
  have h := @read_after_write (board fun _ => true) avfsD pathDA directory 0 formattedComputer _ _ []
    [0x41, 0x42] [] ⟨List.replicate 1 0, 1, by simp⟩ d' hn (by rw [hstr]; decide) (fun _ => rfl)
    wellLaidOutOn_formatted (Or.inl ⟨by simp, rfl⟩) (by decide) (by decide) (Or.inl (by simp))
    (Prod.ext hwrite rfl) (Prod.ext hd' rfl)
  rw [h]
  decide

/-- **A zero is not read back.** -/
theorem zero_lost :
    (∃ directory, Names avfsD pathDA 0 directory ∧ directory.str = [0x61])
    ∧ WellLaidOutOn (formattedComputer.device 0).disk []
    ∧ (writeAndRead [0, 0x41] 2).1 = .ok .success
    ∧ (writeAndRead [0, 0x41] 2).2.map (fun r => (r.1, r.2.elems)) = .ok (.success, [0x41]) := by
  refine ⟨names_pathDA, wellLaidOutOn_formatted, ?_, ?_⟩
  · decide +kernel
  · decide +kernel

end AlopexOS
