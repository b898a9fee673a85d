import AlopexOS.Abtrfs.Lookup
import AlopexOS.Avfs.RoundTrip

/-!
# `Avfs.Exists` — the two queries for a file

`AbtrFS::exists` walks the volume. `AVFS::exists` says that it checks for a file, and looks for the drive
only: it never mounts the drive or splits off the path of the file. The other calls of the AVFS do both, and
with them the two queries can be compared.

## Contents
- **The query on the volume**, made as `AVFS::read` makes its call.
- **What it answers**, by the files of the volume.
- **When the two agree.**
-/

namespace AlopexOS

open Packed ByteString CString Prog

variable {B : Board} {a : AVFS} {path directory : Path} {handle : Handle} {s s' : Computer} {files : List File}
  {f : File}

/-! ## The query on the volume -/

/-- `AbtrFS::exists` on the drive that a path names, for the part of it behind the drive. -/
def AVFS.existsMounted {σ : Type} (P : Platform σ) (a : AVFS) (path : Path) : Prog σ ErrorCode :=
  match a.locate path with
  | .error e => pure e
  | .ok i =>
      match a.handleOf i with
      | none => pure .deviceNotMounted
      | some handle =>
          match AVFS.findPathAfterDrive path with
          | .error e => pure e
          | .ok directory => do
              let fs ← mountExisting P AbtrFS.init (a.drives.get i).baseAddress a.hhdm handle
              AlopexOS.exists' P fs directory

/-- `AVFS::exists` says what `AbtrFS::exists` says, and what `AVFS::read` finds, on every board whose reads of
    the device complete. The query on the volume comes back when memory lasts. -/
def ExistsTells (a : AVFS) (path : Path) (handle : Handle) (s : Computer) : Prop :=
  ∀ B : Board, (∀ k, B.readOk handle k = true) →
    ((B.conditions handle).Generous → ∃ e s', (a.existsMounted B.platform path).run s = (.ok e, s'))
    ∧ (∀ e s', (a.existsMounted B.platform path).run s = (.ok e, s') →
      (a.exists' path = .success ↔ e = .success))
    ∧ ∀ (β : Type) (T : Target Computer β) (data v : β) (size : UInt64) (e : ErrorCode) (s' : Computer),
        (a.read B.platform T path data size).run s = (.ok (e, v), s') →
          (a.exists' path = .success ↔ e ≠ .fileNotFound)

/-! ## What it answers -/

/-- The machine behind the device, once an object was mounted on it. -/
def afterMount (handle : Handle) (s : Computer) : Machine :=
  { (Computer.machine handle).get s with reads := ((Computer.machine handle).get s).reads + 1 }

theorem mounts (hvol : WellLaidOutOn (s.device handle).disk files) (hv : handle ≠ invalidHandle)
    (hread : ∀ k, B.readOk handle k = true) (base hhdm : UInt64) :
    (mountExisting B.platform AbtrFS.init base hhdm handle).run s
      = (.ok (mountedOn AbtrFS.init base hhdm handle (s.device handle).disk),
        (Computer.machine handle).set s (afterMount handle s)) := by
  rw [(B.sees handle).mountExisting]
  have hm : Mountable (B.conditions handle) ((Computer.machine handle).get s) handle :=
    ⟨hv, hread _, hvol.magic⟩
  exact zoom_ok (hm.run base hhdm)

/-- The call is one of `AbtrFS::exists` on the machine behind the device. -/
theorem run_existsMounted (hn : Names a path handle directory)
    (hvol : WellLaidOutOn (s.device handle).disk files) (hread : ∀ k, B.readOk handle k = true) :
    ∃ base, (a.existsMounted B.platform path).run s
      = (zoom (Computer.machine handle) (AlopexOS.exists' (honest (B.conditions handle))
          (mountedOn AbtrFS.init base a.hhdm handle (s.device handle).disk) directory)).run
        ((Computer.machine handle).set s (afterMount handle s)) := by
  have hv := hn.handle_ne
  obtain ⟨⟨i, hi, hh⟩, hdir⟩ := hn
  refine ⟨(a.drives.get i).baseAddress, ?_⟩
  unfold AVFS.existsMounted
  simp only [hi, hh, hdir, run_bind, mounts hvol hv hread, andThen_ok]
  rw [(B.sees handle).exists' rfl]

theorem exists_of_names (hn : Names a path handle directory) : a.exists' path = .success := by
  obtain ⟨i, hi, -⟩ := hn.drive
  unfold AVFS.exists'
  rw [hi]

/-- **The query finds the file.** -/
theorem runs_exists_named {c : Conditions} {m : Machine} {fs : AbtrFS} (hvol : Volume fs m.disk files)
    (hdist : files.Pairwise fun f g => f.name ≠ g.name) (hseg : chopPath path ≠ []) (hf : f ∈ files)
    (hm : f.Named path) (hread : ∀ k, c.readOk k = true) : ∃ b, Resolves c fs m path f b := by
  obtain ⟨pre, post, rfl⟩ := List.append_of_mem hf
  exact ⟨_, (hvol.front path).resolves hvol.free_le hseg (not_named_of_distinct hdist hm.1) hm hread⟩

/-- What is left of `read_file` when a header is found does not say that there is none. -/
theorem found_of_readFileInto {σ β : Type} {P : Platform σ} {T : Target σ β} {fs : AbtrFS} {data v : β}
    {off max : UInt64} {t t' : σ} {res : Except ErrorCode (List UInt8)} (hm : fs.isMounted = true)
    (hseg : chopPath path ≠ []) (hrun : (readFileInto P T fs path data off max).run t = (.ok (res, v), t')) :
    ∃ t₁ found t₂, (P.operatorNew 4096).run t = (.ok (), t₁)
      ∧ (findFileHeader P fs path).run t₁ = (.ok found, t₂)
      ∧ (found ≠ none → res ≠ .error .fileNotFound) := by
  unfold readFileInto at hrun
  rw [if_neg (by simp [hm]), if_neg hseg] at hrun
  obtain ⟨_, t₁, hnew, hrest⟩ := bind_eq_ok hrun
  obtain ⟨found, t₂, hfind, hrest⟩ := bind_eq_ok hrest
  refine ⟨t₁, found, t₂, hnew, hfind, fun hsome => ?_⟩
  cases found with
  | none => exact absurd rfl hsome
  | some header =>
      -- every way out from here has a content or an error of the device
      refine (?_ : Gives (fun r => r.1 ≠ .error .fileNotFound) _) t₂ (res, v) t' hrest
      refine Gives.ite (Gives.bind fun _ => Gives.pure ?_) ?_
      · simp
      · refine Gives.bind fun _ => Gives.bind fun _ => Gives.bind fun _ => Gives.bind fun _ => ?_
        refine Gives.ite (Gives.bind fun _ => Gives.pure ?_) (Gives.pure ?_)
        · simp
        · simp

/-- **`read` finds it too.** -/
theorem read_named {β : Type} {T : Target Computer β} {data v : β} {size : UInt64} {e : ErrorCode}
    (hn : Names a path handle directory) (hvol : WellLaidOutOn (s.device handle).disk files)
    (hread : ∀ k, B.readOk handle k = true) (hseg : chopPath directory ≠ []) (hf : f ∈ files)
    (hm : f.Named directory) (hrun : (a.read B.platform T path data size).run s = (.ok (e, v), s')) :
    e ≠ .fileNotFound := by
  have hv := hn.handle_ne
  obtain ⟨⟨i, hi, hh⟩, hdir⟩ := hn
  unfold AVFS.read at hrun
  simp only [hi, hh, hdir, run_bind, mounts hvol hv hread, andThen_ok] at hrun
  obtain ⟨⟨res, v'⟩, t, hfile, hrest⟩ := bind_eq_ok hrun
  obtain ⟨t₁, found, t₂, hnew, hfind, hfound⟩ := found_of_readFileInto rfl hseg hfile
  -- memory was taken, and the volume is as it was
  rw [(B.sees handle).operatorNew] at hnew
  obtain ⟨hnew, -⟩ := zoom_eq_ok hnew
  have hdisk : ((Computer.machine handle).get t₁).disk = (s.device handle).disk := by
    rw [((runs_operatorNew 4096 _).returned hnew).1.disk, Component.get_set]
    rfl
  rw [(B.sees handle).findFileHeader rfl] at hfind
  obtain ⟨hfind, -⟩ := zoom_eq_ok hfind
  have hvol₁ := hvol.volume AbtrFS.init (a.drives.get i).baseAddress a.hhdm hv
  rw [← hdisk] at hvol₁ hfind
  obtain ⟨b, hres⟩ := runs_exists_named (c := B.conditions handle) hvol₁ hvol.distinct hseg hf hm hread
  have hsome := hres.found.returned hfind
  have hnotfound := hfound (by rw [hsome]; simp)
  cases res with
  | error e' =>
      obtain ⟨he, -⟩ := Prod.mk.inj (Except.ok.inj (Prod.mk.inj hrest).1)
      rintro rfl
      exact hnotfound (by rw [he])
  | ok bytes =>
      obtain ⟨he, -⟩ := Prod.mk.inj (Except.ok.inj (Prod.mk.inj hrest).1)
      rw [← he]
      decide

/-! ## When the two agree -/

/-- **`AVFS::exists` tells the truth exactly when the file is there.** -/
theorem existsTells_iff (hn : Names a path handle directory) (hlen : directory.str.length ≤ 254)
    (hvol : WellLaidOutOn (s.device handle).disk files) :
    ExistsTells a path handle s
      ↔ (∃ b ∈ directory.str, b ≠ slash) ∧ ∃ f ∈ files, f.name = directory.str := by
  have hv := hn.handle_ne
  have hexists := exists_of_names hn
  constructor
  · intro h
    -- on a board on which nothing fails the query on the volume comes back with success
    obtain ⟨-, hquery, -⟩ := h (board fun _ => true) (fun _ => rfl)
    obtain ⟨base, hrun⟩ := run_existsMounted (B := board fun _ => true) hn hvol fun _ => rfl
    have hgenerous : ((board fun _ => true).conditions handle).Generous := ⟨fun _ _ => rfl, Nat.le_refl _⟩
    have hanswer : ∀ e s', (AlopexOS.exists' (honest ((board fun _ => true).conditions handle))
        (mountedOn AbtrFS.init base a.hhdm handle (s.device handle).disk) directory).run (afterMount handle s)
          = (.ok e, s') → e = .success := by
      intro e s' hzoom
      rw [hrun] at hquery
      exact (hquery e _ (zoom_ok (by rw [Component.get_set]; exact hzoom))).mp hexists
    have hvol' : Volume (mountedOn AbtrFS.init base a.hhdm handle (s.device handle).disk)
        (afterMount handle s).disk files := hvol.volume AbtrFS.init base a.hhdm hv
    have hseg : chopPath directory ≠ [] := by
      intro hnil
      have hinvalid := hanswer .invalidPath (afterMount handle s) (by
        unfold AlopexOS.exists'
        rw [if_neg (by simp [hvol'.mounted]), if_pos hnil, run_pure])
      cases hinvalid
    refine ⟨?_, ?_⟩
    · by_contra hno
      simp only [not_exists, not_and, not_not] at hno
      exact hseg ((chopPath_eq_nil directory).mpr hno)
    · by_contra hno
      have hmissing := hvol'.missing (c := (board fun _ => true).conditions handle) hseg
        fun f hf hm => hno ⟨f, hf, hm.1.symm⟩
      obtain ⟨e, m', hrun', he⟩ := hmissing.returns hgenerous
      have hsuccess := hanswer e m' hrun'
      rw [he] at hsuccess
      cases hsuccess
  · rintro ⟨⟨b, hb, hslash⟩, f, hf, hname⟩ B hread
    have hseg : chopPath directory ≠ [] := fun hnil => hslash ((chopPath_eq_nil directory).mp hnil b hb)
    have hm : f.Named directory := ⟨hname.symm, hlen⟩
    obtain ⟨base, hquery⟩ := run_existsMounted hn hvol hread
    have hvol' : Volume (mountedOn AbtrFS.init base a.hhdm handle (s.device handle).disk)
        (afterMount handle s).disk files := hvol.volume AbtrFS.init base a.hhdm hv
    obtain ⟨_, hres⟩ := runs_exists_named (c := B.conditions handle) hvol' hvol.distinct hseg hf hm hread
    rw [← (Computer.machine handle).get_set s (afterMount handle s)] at hres
    refine ⟨fun hgenerous => ?_, fun e s' hrun => iff_of_true hexists ?_,
      fun β T data v size e s' hrun => iff_of_true hexists (read_named hn hvol hread hseg hf hm hrun)⟩
    · obtain ⟨e, m', hrun, -⟩ := hres.present.returns hgenerous
      rw [hquery]
      exact ⟨e, _, zoom_ok hrun⟩
    · rw [hquery] at hrun
      exact hres.present.returned (zoom_eq_ok hrun).1

/-- A computer whose device has the file `a`. -/
def oneFileComputer : Computer := ⟨0, fun _ => ⟨layDisk oneByte, 0, 0, []⟩⟩

theorem existsTells_a : ExistsTells avfsD pathDA 0 oneFileComputer := by
  obtain ⟨directory, hn, hstr⟩ := names_pathDA
  have h := wellLaidOut_oneByte
  have hvol : WellLaidOutOn (oneFileComputer.device 0).disk (layFiles oneByte) :=
    ⟨⟨by decide +kernel, h.free_le, h.laid⟩, h.ok, h.distinct⟩
  refine (existsTells_iff hn (by rw [hstr]; decide) hvol).mpr ⟨⟨0x61, by rw [hstr]; decide, by decide⟩, ?_⟩
  exact ⟨created pathA [1], List.mem_cons_self, by rw [name_pathA, hstr]⟩

/-- **A file that was never written exists**, says `AVFS::exists`. -/
theorem not_existsTells_a : ¬ ExistsTells avfsD pathDA 0 formattedComputer := by
  intro h
  obtain ⟨directory, hn, hstr⟩ := names_pathDA
  obtain ⟨-, hquery, -⟩ := h (board fun _ => true) (fun _ => rfl)
  have hanswer : ((avfsD.existsMounted (board fun _ => true).platform pathDA).run formattedComputer).1
      = .ok .fileNotFound := by decide +kernel
  have hsuccess := (hquery .fileNotFound _ (Prod.ext hanswer rfl)).mp (exists_of_names hn)
  cases hsuccess

end AlopexOS
