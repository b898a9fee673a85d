import AlopexOS.Avfs.Drives
import AlopexOS.Abtrfs.Remount

/-!
# `Avfs.Mounted` — mounted drives

`mount` and `dismount` keep the format of a drive. `write` and `read` do not look at it: each mounts a file
system object of its own, and goes on if the device has a volume. So a drive that is not mounted is
accessed as if it were, and it is refused when there is no volume to mount.

## Contents
- **Calls** in any order, and their events.
- **The format of a drive** says what was last done to it.
- **Refusals.**
-/

namespace AlopexOS

open Packed Prog

/-! ## Calls -/

/-- The calls on drives. -/
inductive AvfsCall (β : Type) where
  | mount (path : Path)
  | dismount (path : Path)
  | write (path : Path) (data : List UInt8)
  /-- `data` is an array of `size` bytes. -/
  | read (path : Path) (data : β) (size : UInt64)

/-- What a call did: the drive it was about, and its result unless it did not come back. -/
structure AvfsEvent (β : Type) where
  call : AvfsCall β
  drive : Option Nat
  result : Except Fault ErrorCode

/-- The AVFS, and the computer it is on. -/
abbrev AvfsState := AVFS × Computer

variable {β : Type}

namespace AvfsCall

/-- The path of a call. -/
def path : AvfsCall β → Path
  | .mount path => path
  | .dismount path => path
  | .write path _ => path
  | .read path _ _ => path

/-- Whether the call accesses files. -/
def accesses : AvfsCall β → Bool
  | .mount _ => false
  | .dismount _ => false
  | .write _ _ => true
  | .read _ _ _ => true

/-- The call with its result and the AVFS afterwards. -/
def run (B : Board) (T : Target Computer β) (a : AVFS) : AvfsCall β → Prog Computer (ErrorCode × AVFS)
  | .mount path => a.mount B.platform path
  | .dismount path => pure (a.dismount path)
  | .write path data => do
      let e ← a.write B.platform path data
      pure (e, a)
  | .read path data size => do
      let r ← a.read B.platform T path data size
      pure (r.1, a)

/-- The event, and the state afterwards. A call that does not come back leaves the AVFS as it is. -/
def step (B : Board) (T : Target Computer β) (s : AvfsState) (call : AvfsCall β) :
    AvfsEvent β × AvfsState :=
  match (call.run B T s.1).run s.2 with
  | (.ok (e, a), c) => (⟨call, (s.1.locate call.path).toOption.map Fin.val, .ok e⟩, (a, c))
  | (.error f, c) => (⟨call, (s.1.locate call.path).toOption.map Fin.val, .error f⟩, (s.1, c))

end AvfsCall

/-- The call of the event leads from a state to the next. -/
def AvfsStep (B : Board) (T : Target Computer β) (s : AvfsState) (e : AvfsEvent β) (s' : AvfsState) : Prop :=
  e.call.step B T s = (e, s')

/-- What the event is for the drive `i`: a successful mount, a successful dismount, or neither. -/
def AvfsEvent.mark (i : Nat) (e : AvfsEvent β) : Option Bool :=
  if e.drive = some i then
    match e.call, e.result with
    | .mount _, .ok .success => some true
    | .dismount _, .ok .success => some false
    | _, _ => none
  else none

/-- The last successful mount or dismount of the drive `i` was a mount. -/
def LastMounted (events : List (AvfsEvent β)) (i : Nat) : Prop :=
  (events.filterMap (AvfsEvent.mark i)).getLast? = some true

instance (events : List (AvfsEvent β)) (i : Nat) : Decidable (LastMounted events i) :=
  inferInstanceAs (Decidable (_ = _))

/-! ## The format of a drive -/

namespace AVFS

variable {P : Platform Computer} {a a' : AVFS} {path : Path} {c c' : Computer} {e : ErrorCode}

theorem locate_ne_success (h : a.locate path = .error e) : e ≠ .success := by
  have hscan : ∀ n i acc, findDriveFrom path n i acc = .error e → e ≠ .success := by
    intro n
    induction n with
    | zero =>
        rintro i acc h rfl
        cases h
    | succ n ih =>
        intro i acc h
        simp only [findDriveFrom] at h
        split at h
        · cases h
          simp
        · split at h
          · split at h
            · cases h
            · cases h
              simp
          · exact ih _ _ h
  unfold locate at h
  split at h
  · rename_i e' he
    obtain rfl := Except.error.inj h
    exact hscan _ _ _ he
  · unfold retrieveDrive at h
    split at h
    · cases h
    · cases h
      simp

/-- What `mount` can do: it marks the drive, or leaves the list alone and fails. -/
theorem mount_cases (h : (a.mount P path).run c = (.ok (e, a'), c')) :
    (∃ i, a.locate path = .ok i ∧ e = .success ∧ a' = a.setFormat i abtrfsFormat)
      ∨ e ≠ .success ∧ a' = a := by
  unfold mount at h
  split at h
  · rename_i e' he
    obtain ⟨rfl, rfl⟩ : e' = e ∧ a = a' := by simpa using congrArg Prod.fst h
    exact Or.inr ⟨locate_ne_success he, rfl⟩
  · rename_i i hi
    split at h
    · obtain ⟨rfl, rfl⟩ : _ = e ∧ a = a' := by simpa using congrArg Prod.fst h
      exact Or.inr ⟨by decide, rfl⟩
    · obtain ⟨r, c₁, _, hrest⟩ := bind_eq_ok h
      split at hrest
      · obtain ⟨rfl, rfl⟩ : _ = e ∧ a.setFormat i abtrfsFormat = a' := by
          simpa using congrArg Prod.fst hrest
        exact Or.inl ⟨i, hi, rfl, rfl⟩
      · obtain ⟨rfl, rfl⟩ : _ = e ∧ a = a' := by simpa using congrArg Prod.fst hrest
        exact Or.inr ⟨by decide, rfl⟩

theorem dismount_cases (h : a.dismount path = (e, a')) :
    (∃ i, a.locate path = .ok i ∧ e = .success ∧ a' = a.setFormat i []) ∨ e ≠ .success ∧ a' = a := by
  unfold dismount at h
  split at h
  · rename_i e' he
    obtain ⟨rfl, rfl⟩ := Prod.mk.inj h
    exact Or.inr ⟨locate_ne_success he, rfl⟩
  · rename_i i hi
    obtain ⟨rfl, rfl⟩ := Prod.mk.inj h
    exact Or.inl ⟨i, hi, rfl, rfl⟩

/-- A drive is marked as mounted. -/
def Marked (a : AVFS) (i : Nat) : Prop := ∃ d, a.drives[i]? = some d ∧ d.format = abtrfsFormat

theorem marked_setFormat {i j : Nat} {format : List UInt8} (hi : i < a.drives.length) :
    (a.setFormat i format).Marked j ↔ if i = j then format = abtrfsFormat else a.Marked j := by
  unfold Marked setFormat
  simp only [List.getElem?_modify]
  by_cases hij : i = j
  · subst hij
    simp [hi]
  · simp [hij]

end AVFS

section Marks

variable {B : Board} {T : Target Computer β} {s s' : AvfsState} {e : AvfsEvent β}
  {events : List (AvfsEvent β)} {i : Nat}

/-- How a step goes: the call comes back, or it does not and the AVFS stays. -/
theorem AvfsStep.cases (h : AvfsStep B T s e s') :
    e.drive = (s.1.locate e.call.path).toOption.map Fin.val ∧
      ((∃ r, (e.call.run B T s.1).run s.2 = (.ok (r, s'.1), s'.2) ∧ e.result = .ok r)
        ∨ ∃ f, (e.call.run B T s.1).run s.2 = (.error f, s'.2) ∧ s'.1 = s.1 ∧ e.result = .error f) := by
  unfold AvfsStep AvfsCall.step at h
  split at h
  · rename_i r a c hrun
    obtain ⟨he, rfl⟩ := Prod.mk.inj h
    rw [← he]
    exact ⟨rfl, Or.inl ⟨r, hrun, rfl⟩⟩
  · rename_i f c hrun
    obtain ⟨he, rfl⟩ := Prod.mk.inj h
    rw [← he]
    exact ⟨rfl, Or.inr ⟨f, hrun, rfl, rfl⟩⟩

/-- What a mark says of the drive, given what was known before. -/
def AvfsEvent.Sets (e : AvfsEvent β) (i : Nat) (before : Prop) : Prop :=
  match e.mark i with
  | some mounted => mounted = true
  | none => before

theorem lastMounted_append : LastMounted (events ++ [e]) i ↔ e.Sets i (LastMounted events i) := by
  unfold LastMounted AvfsEvent.Sets
  rw [List.filterMap_append, List.filterMap_cons, List.filterMap_nil]
  cases e.mark i with
  | none => simp
  | some mounted => simp

/-- An event that is no success is no mark. -/
theorem AvfsEvent.mark_of_failed (h : e.result ≠ .ok .success) : e.mark i = none := by
  unfold AvfsEvent.mark
  split
  · split
    · exact absurd ‹_› h
    · exact absurd ‹_› h
    · rfl
  · rfl

/-- An access is no mark either. -/
theorem AvfsEvent.mark_of_access (h : e.call.accesses = true) : e.mark i = none := by
  unfold AvfsEvent.mark
  split
  · split
    · rename_i hc _
      rw [hc] at h
      cases h
    · rename_i hc _
      rw [hc] at h
      cases h
    · rfl
  · rfl

/-- The list of drives is as it was, and nothing was marked. -/
theorem AvfsEvent.sets_unchanged (hm : e.mark i = none) (ha : s'.1 = s.1) :
    s'.1.Marked i ↔ e.Sets i (s.1.Marked i) := by
  unfold AvfsEvent.Sets
  rw [hm, ha]

/-- A drive whose format was set. -/
theorem AvfsEvent.sets_format {j : Fin s.1.drives.length} {format : List UInt8} (mounted : Bool)
    (hm : e.mark i = if i = j.val then some mounted else none)
    (hf : format = AVFS.abtrfsFormat ↔ mounted = true) (ha : s'.1 = s.1.setFormat j format) :
    s'.1.Marked i ↔ e.Sets i (s.1.Marked i) := by
  unfold AvfsEvent.Sets
  rw [ha, AVFS.marked_setFormat j.isLt, hm]
  by_cases hij : i = j.val
  · simp only [hij, if_true]
    exact hf
  · simp only [hij, Ne.symm hij, if_false]

/-- **A step marks what it mounts and dismounts**, and nothing else. -/
theorem AvfsStep.marked_iff (h : AvfsStep B T s e s') : s'.1.Marked i ↔ e.Sets i (s.1.Marked i) := by
  obtain ⟨hdrive, ⟨r, hrun, hresult⟩ | ⟨f, _, ha, hresult⟩⟩ := h.cases
  · rcases e with ⟨call, drive, result⟩
    obtain rfl : result = .ok r := hresult
    cases call with
    | mount path =>
        rcases AVFS.mount_cases hrun with ⟨j, hj, rfl, ha⟩ | ⟨hne, ha⟩
        · have hd : drive = some j.val :=
            hdrive.trans (congrArg (fun x => x.toOption.map Fin.val) hj)
          refine AvfsEvent.sets_format true ?_ (by simp) ha
          simp only [AvfsEvent.mark, hd, Option.some.injEq, eq_comm]
        · exact AvfsEvent.sets_unchanged (AvfsEvent.mark_of_failed (by simpa using hne)) ha
    | dismount path =>
        have hrun' : s.1.dismount path = (r, s'.1) := Except.ok.inj (congrArg Prod.fst hrun)
        rcases AVFS.dismount_cases hrun' with ⟨j, hj, rfl, ha⟩ | ⟨hne, ha⟩
        · have hd : drive = some j.val :=
            hdrive.trans (congrArg (fun x => x.toOption.map Fin.val) hj)
          refine AvfsEvent.sets_format false ?_ (by decide) ha
          simp only [AvfsEvent.mark, hd, Option.some.injEq, eq_comm]
        · exact AvfsEvent.sets_unchanged (AvfsEvent.mark_of_failed (by simpa using hne)) ha
    | write path data =>
        obtain ⟨e, c, _, hrest⟩ := bind_eq_ok hrun
        obtain ⟨_, ha⟩ := Prod.mk.inj (Except.ok.inj (congrArg Prod.fst hrest))
        exact AvfsEvent.sets_unchanged (AvfsEvent.mark_of_access rfl) ha.symm
    | read path data size =>
        obtain ⟨e, c, _, hrest⟩ := bind_eq_ok hrun
        obtain ⟨_, ha⟩ := Prod.mk.inj (Except.ok.inj (congrArg Prod.fst hrest))
        exact AvfsEvent.sets_unchanged (AvfsEvent.mark_of_access rfl) ha.symm
  · exact AvfsEvent.sets_unchanged (AvfsEvent.mark_of_failed (by rw [hresult]; simp)) ha

/-- **The format of a drive says what was last done to it**, when no drive was mounted at the start. -/
theorem marked_of_run {s₀ : AvfsState} (hstart : ∀ i, ¬ s₀.1.Marked i)
    (h : Run (AvfsStep B T) s₀ events s) (i : Nat) : s.1.Marked i ↔ LastMounted events i := by
  refine h.history (H := fun events s => s.1.Marked i ↔ LastMounted events i)
    (fun events s e s' hstep ih => ?_) ?_
  · rw [hstep.marked_iff, lastMounted_append]
    unfold AvfsEvent.Sets
    split
    · exact Iff.rfl
    · exact ih
  · exact iff_of_false (hstart i) (by simp [LastMounted])

end Marks

/-! ## Refusals -/

/-- No device was asked to write. -/
def SameWrites (c c' : Computer) : Prop := ∀ h, (c'.device h).writes = (c.device h).writes

/-- There is a volume to mount on the device. -/
def HasVolume (B : Board) (c : Computer) (handle : Handle) : Prop :=
  Mountable (B.conditions handle) ((Computer.machine handle).get c) handle

instance (B : Board) (c : Computer) (handle : Handle) : Decidable (HasVolume B c handle) :=
  inferInstanceAs (Decidable (Mountable _ _ _))

section Refusals

variable {B : Board} {T : Target Computer β} {s s' s₀ : AvfsState} {a : AVFS} {c c' : Computer}
  {path : Path} {handle : Handle} {e : AvfsEvent β} {events : List (AvfsEvent β)} {i : Nat}

/-- Memory may run out; the devices do not notice. -/
theorem run_reserve (B : Board) (n : Nat) (c : Computer) :
    ∃ r c', (AVFS.reserve B.platform n).run c = (r, c') ∧ c'.device = c.device
      ∧ (r = .ok () ∨ r = .error .hang ∧ B.newOk c.news n = false) := by
  unfold AVFS.reserve
  split
  · by_cases hok : B.newOk c.news n = true
    · exact ⟨.ok (), { c with news := c.news + 1 }, by simp only [Board.platform, hok, if_true], rfl,
        Or.inl rfl⟩
    · exact ⟨.error .hang, c, by simp only [Board.platform, hok, Bool.false_eq_true, if_false], rfl,
        Or.inr ⟨rfl, Bool.eq_false_iff.mpr hok⟩⟩
  · exact ⟨_, _, rfl, rfl, Or.inl rfl⟩

theorem hasVolume_congr (h : c'.device = c.device) : HasVolume B c' handle ↔ HasVolume B c handle := by
  unfold HasVolume Mountable
  simp only [Computer.machine, h]

/-- Without a volume the new object stays unmounted, and nothing is written. -/
theorem run_mountExisting_refused (h : ¬ HasVolume B c handle) (base hhdm : UInt64) :
    ∃ fs c', (mountExisting B.platform AbtrFS.init base hhdm handle).run c = (.ok fs, c')
      ∧ fs.isMounted = false ∧ SameWrites c c' := by
  obtain ⟨fs, m', hrun, hfs, hq⟩ := Mountable.run_not h base hhdm
  rw [(B.sees handle).mountExisting]
  refine ⟨fs, _, zoom_ok hrun, hfs, ?_⟩
  intro h'
  have hset : (((Computer.machine handle).set c m').device h')
      = if h' = handle then ⟨m'.disk, m'.reads, m'.writes, m'.log⟩ else c.device h' := rfl
  rw [hset]
  split
  · subst_vars
    exact hq.writes
  · rfl

/-- There is no memory for the data, which `write` takes by value: the call stops in `operator new`. -/
def OutOfMemory (B : Board) (s : AvfsState) (e : AvfsEvent β) : Prop :=
  e.result = .error .hang ∧ ∃ path data, e.call = .write path data ∧ B.newOk s.2.news data.length = false

/-- The call is refused: no device is written, and it returns `DeviceNotMounted`. -/
def AccessRefused (B : Board) (s s' : AvfsState) (e : AvfsEvent β) : Prop :=
  SameWrites s.2 s'.2 ∧ (e.result = .ok .deviceNotMounted ∨ OutOfMemory B s e)

/-- **`write` refuses a drive without a volume.** -/
theorem write_refused {i : Fin a.drives.length} (hi : a.locate path = .ok i)
    (hno : ∀ handle, a.handleOf i = some handle → ¬ HasVolume B c handle) (data : List UInt8) :
    ∃ r c', (a.write B.platform path data).run c = (r, c') ∧ SameWrites c c'
      ∧ (r = .ok .deviceNotMounted ∨ r = .error .hang ∧ B.newOk c.news data.length = false) := by
  unfold AVFS.write
  simp only [hi]
  cases hh : a.handleOf i with
  | none => exact ⟨_, _, rfl, fun _ => rfl, Or.inl rfl⟩
  | some handle =>
      obtain ⟨directory, hdir⟩ := AVFS.findPathAfterDrive_of_locate hi
      obtain ⟨r, c₁, hres, hdev, hr⟩ := run_reserve B data.length c
      simp only [hdir, run_bind, hres]
      rcases hr with rfl | ⟨rfl, hnew⟩
      · -- `reserve` takes memory only, so the device is as it was
        have hno₁ : ¬ HasVolume B c₁ handle := by
          rw [hasVolume_congr hdev]
          exact hno handle hh
        obtain ⟨fs, c₂, hmount, hfs, hw⟩ :=
          run_mountExisting_refused hno₁ (a.drives.get i).baseAddress a.hhdm
        rw [andThen_ok, run_bind, hmount, andThen_ok]
        simp only [writeFile, hfs, if_true, pure_bind, run_pure]
        refine ⟨_, _, rfl, fun h => ?_, Or.inl rfl⟩
        rw [hw h, hdev]
      · exact ⟨_, _, andThen_error _ _ _, fun h => by rw [hdev], Or.inr ⟨rfl, hnew⟩⟩

/-- **`read` refuses it as well**, and needs no memory for it. -/
theorem read_refused {i : Fin a.drives.length} (hi : a.locate path = .ok i)
    (hno : ∀ handle, a.handleOf i = some handle → ¬ HasVolume B c handle) (data : β) (size : UInt64) :
    ∃ d c', (a.read B.platform T path data size).run c = (.ok (.deviceNotMounted, d), c')
      ∧ SameWrites c c' := by
  unfold AVFS.read
  simp only [hi]
  cases hh : a.handleOf i with
  | none => exact ⟨_, _, rfl, fun _ => rfl⟩
  | some handle =>
      obtain ⟨directory, hdir⟩ := AVFS.findPathAfterDrive_of_locate hi
      obtain ⟨fs, c₁, hmount, hfs, hw⟩ :=
        run_mountExisting_refused (hno handle hh) (a.drives.get i).baseAddress a.hhdm
      simp only [hdir, run_bind, hmount, andThen_ok, readFileInto, hfs, if_true, pure_bind, run_pure]
      exact ⟨_, _, rfl, hw⟩

/-- Where the call may go ahead, or is stopped for want of a volume. -/
def AvfsCall.Guarded (B : Board) (s : AvfsState) (call : AvfsCall β) : Prop :=
  call.accesses = true → ∀ i, s.1.locate call.path = .ok i →
    s.1.Marked i ∨ ∀ handle, s.1.handleOf i = some handle → ¬ HasVolume B s.2 handle

/-- A guarded access to a drive that is not marked is refused. -/
theorem AvfsStep.refused (h : AvfsStep B T s e s') (hacc : e.call.accesses = true)
    (hguard : e.call.Guarded B s) (hi : e.drive = some i) (hm : ¬ s.1.Marked i) : AccessRefused B s s' e := by
  obtain ⟨hdrive, hrun⟩ := h.cases
  rw [hi] at hdrive
  obtain ⟨j, hj, rfl⟩ := Option.map_eq_some_iff.mp hdrive.symm
  have hloc : s.1.locate e.call.path = .ok j := by
    cases hl : s.1.locate e.call.path with
    | ok k =>
        rw [hl] at hj
        rw [Option.some.inj hj]
    | error _ =>
        rw [hl] at hj
        cases hj
  have hno := (hguard hacc j hloc).resolve_left hm
  -- the run of the call is the event and the state after it
  have hevent : ∀ {r c}, (e.call.run B T s.1).run s.2 = (r, c) →
      c = s'.2 ∧ e.result = r.map Prod.fst := by
    intro r c hr
    rcases hrun with ⟨v, hv, hres⟩ | ⟨f, hf, _, hres⟩
    · obtain ⟨rfl, rfl⟩ := Prod.mk.inj (hr.symm.trans hv)
      exact ⟨rfl, hres⟩
    · obtain ⟨rfl, rfl⟩ := Prod.mk.inj (hr.symm.trans hf)
      exact ⟨rfl, hres⟩
  rcases e with ⟨call, drive, result⟩
  cases call with
  | mount path => cases hacc
  | dismount path => cases hacc
  | write path data =>
      obtain ⟨r, c, hwrite, hw, hr⟩ := write_refused hloc hno data
      have hcall := run_bind_pure (fun e => (e, s.1)) (s.1.write B.platform path data) s.2
      rw [show (s.1.write B.platform path data).run s.2 = (r, c) from hwrite] at hcall
      obtain ⟨rfl, hres⟩ := hevent hcall
      rcases hr with rfl | ⟨rfl, hnew⟩
      · exact ⟨hw, Or.inl hres⟩
      · exact ⟨hw, Or.inr ⟨hres, path, data, rfl, hnew⟩⟩
  | read path data size =>
      obtain ⟨d, c, hread, hw⟩ := @read_refused _ _ T _ _ _ _ hloc hno data size
      have hcall := run_bind_pure (fun r => (r.1, s.1)) (s.1.read B.platform T path data size) s.2
      rw [show (s.1.read B.platform T path data size).run s.2 = (.ok (.deviceNotMounted, d), c)
        from hread] at hcall
      obtain ⟨rfl, hres⟩ := hevent hcall
      exact ⟨hw, Or.inl hres⟩

/-- A device with a volume is mounted on the computer. -/
theorem HasVolume.run (h : HasVolume B c handle) (base hhdm : UInt64) :
    ∃ c', (mountExisting B.platform AbtrFS.init base hhdm handle).run c
      = (.ok (mountedOn AbtrFS.init base hhdm handle (c.device handle).disk), c') := by
  rw [(B.sees handle).mountExisting]
  exact ⟨_, zoom_ok (Mountable.run h base hhdm)⟩

theorem write_not_refused {i : Fin a.drives.length} (hi : a.locate path = .ok i)
    (hh : a.handleOf i = some handle) (hvol : HasVolume B c handle) (data : List UInt8) :
    ((a.write B.platform path data).run c).1 ≠ .ok .deviceNotMounted := by
  obtain ⟨directory, hdir⟩ := AVFS.findPathAfterDrive_of_locate hi
  intro hres
  have hrun : (a.write B.platform path data).run c = (.ok .deviceNotMounted, _) := Prod.ext hres rfl
  unfold AVFS.write at hrun
  simp only [hi, hh, hdir] at hrun
  obtain ⟨_, c₁, hreserve, hrest⟩ := bind_eq_ok hrun
  obtain ⟨r, c₁', hres₁, hdev, _⟩ := run_reserve B data.length c
  obtain ⟨_, rfl⟩ := Prod.mk.inj (hreserve.symm.trans hres₁)
  obtain ⟨fs, c₂, hmount, hrest⟩ := bind_eq_ok hrest
  obtain ⟨c₂', hmount'⟩ := ((hasVolume_congr hdev).mpr hvol).run (a.drives.get i).baseAddress a.hhdm
  obtain ⟨hfs, _⟩ := Prod.mk.inj (hmount.symm.trans hmount')
  obtain ⟨w, c₃, hwrite, hrest⟩ := bind_eq_ok hrest
  have hm : fs.isMounted = true := by
    rw [Except.ok.inj hfs]
    rfl
  exact gives_writeFile hm _ _ _ _ _ hwrite (Except.ok.inj (Prod.mk.inj hrest).1)

theorem read_not_refused {i : Fin a.drives.length} (hi : a.locate path = .ok i)
    (hh : a.handleOf i = some handle) (hvol : HasVolume B c handle) (data : β) (size : UInt64) {v : β} :
    ((a.read B.platform T path data size).run c).1 ≠ .ok (.deviceNotMounted, v) := by
  obtain ⟨directory, hdir⟩ := AVFS.findPathAfterDrive_of_locate hi
  intro hres
  have hrun : (a.read B.platform T path data size).run c = (.ok (.deviceNotMounted, v), _) :=
    Prod.ext hres rfl
  unfold AVFS.read at hrun
  simp only [hi, hh, hdir] at hrun
  obtain ⟨fs, c₁, hmount, hrest⟩ := bind_eq_ok hrun
  obtain ⟨c₁', hmount'⟩ := hvol.run (a.drives.get i).baseAddress a.hhdm
  obtain ⟨hfs, _⟩ := Prod.mk.inj (hmount.symm.trans hmount')
  obtain ⟨r, c₂, hread, hrest⟩ := bind_eq_ok hrest
  have hm : fs.isMounted = true := by
    rw [Except.ok.inj hfs]
    rfl
  have herrors := gives_readFileInto hm _ _ _ _ _ _ hread
  split at hrest
  · rename_i e he
    obtain rfl := (Prod.mk.inj (Except.ok.inj (Prod.mk.inj hrest).1)).1
    exact absurd (herrors _ he) (by decide)
  · cases hrest

/-- An access that is not guarded is not refused. -/
theorem AvfsStep.not_refused (h : AvfsStep B T s e s') (hguard : ¬ e.call.Guarded B s) :
    e.result ≠ .ok .deviceNotMounted := by
  intro hres
  unfold AvfsCall.Guarded at hguard
  push Not at hguard
  -- the drive is not marked, but its device has a volume
  obtain ⟨hacc, i, hi, _, handle, hh, hvol⟩ := hguard
  obtain ⟨_, ⟨r, hrun, hr⟩ | ⟨f, _, _, hr⟩⟩ := h.cases
  · obtain rfl : r = .deviceNotMounted := Except.ok.inj (hr.symm.trans hres)
    rcases e with ⟨call, drive, result⟩
    cases call with
    | mount path => cases hacc
    | dismount path => cases hacc
    | write path data =>
        obtain ⟨v, c₁, hw, hrest⟩ := bind_eq_ok hrun
        obtain ⟨rfl, _⟩ := Prod.mk.inj (Except.ok.inj (Prod.mk.inj hrest).1)
        exact write_not_refused hi hh hvol data (congrArg Prod.fst hw)
    | read path data size =>
        obtain ⟨⟨v, d⟩, c₁, hw, hrest⟩ := bind_eq_ok hrun
        obtain ⟨rfl, _⟩ := Prod.mk.inj (Except.ok.inj (Prod.mk.inj hrest).1)
        exact read_not_refused hi hh hvol data size (congrArg Prod.fst hw)
  · rw [hres] at hr
    cases hr

/-- **When a drive that is not mounted is refused.** In every run, an access to it is refused when the
    device has no volume, and is not when it has one. -/
theorem refused_of_run (hstart : ∀ i, ¬ s₀.1.Marked i) (hrun : Run (AvfsStep B T) s₀ events s)
    (hstep : AvfsStep B T s e s') (hacc : e.call.accesses = true) (hi : e.drive = some i)
    (hlast : ¬ LastMounted events i) :
    (e.call.Guarded B s → AccessRefused B s s' e)
      ∧ (¬ e.call.Guarded B s → e.result ≠ .ok .deviceNotMounted) :=
  ⟨fun hguard => hstep.refused hacc hguard hi fun hm => hlast ((marked_of_run hstart hrun i).mp hm),
    hstep.not_refused⟩

end Refusals

/-! ## A computer with one drive -/

/-- The drives `Init` registers are not mounted. -/
theorem not_marked_of_init {g : DeviceTable} {calls : List InitCall} {a : AVFS}
    (h : Run AVFS.InitStep (AVFS.attached g) calls a) (i : Nat) : ¬ a.Marked i := by
  rintro ⟨d, hd, hformat⟩
  rw [AVFS.format_of_run h d (List.mem_of_getElem? hd)] at hformat
  cases hformat

/-- A table with the device `d` at the address 0x1000. -/
def tableD : DeviceTable := ⟨[⟨0x1000, Bytes.put Bytes.zero 0 0x64⟩], by decide⟩

/-- The AVFS that registered it. -/
def avfsD : AVFS := (AVFS.attached tableD).init AVFS.oneDisk

/-- A computer whose device was formatted. -/
def formattedComputer : Computer := ⟨0, fun _ => ⟨layDisk [], 0, 0, []⟩⟩

/-- Memory without end, writes that succeed, and a given pattern of reads. -/
def board (readOk : Nat → Bool) : Board where
  newOk _ _ := true
  readOk _ := readOk
  writeOk _ _ := true
  residue _ _ := Bytes.zero
  walkBound := 2 ^ 64

/-- "d://a". -/
def pathDA : Path := Path.ofBytes [0x64, 0x3A, 0x2F, 0x2F, 0x61]

theorem not_marked_avfsD (i : Nat) : ¬ avfsD.Marked i :=
  not_marked_of_init (Run.single (show AVFS.InitStep (AVFS.attached tableD) ⟨tableD, AVFS.oneDisk⟩ _ from rfl)) i

theorem AvfsCall.call_step {B : Board} {T : Target Computer β} (s : AvfsState) (call : AvfsCall β) :
    (call.step B T s).1.call = call := by
  unfold AvfsCall.step
  split <;> rfl

theorem AvfsStep.of_call {B : Board} {T : Target Computer β} (s : AvfsState) (call : AvfsCall β) :
    AvfsStep B T s (call.step B T s).1 (call.step B T s).2 := by
  unfold AvfsStep
  rw [AvfsCall.call_step]

/-- The drive is mounted and dismounted, and then a file is written: the last event, and the states
    before and after it. -/
def writeDismounted (B : Board) : List (AvfsEvent Dynarr) × AvfsState × AvfsEvent Dynarr × AvfsState :=
  let T := Dynarr.target B.platform
  let r₁ := (AvfsCall.mount pathDA).step B T (avfsD, formattedComputer)
  let r₂ := (AvfsCall.dismount pathDA).step B T r₁.2
  let r₃ := (AvfsCall.write pathDA [0x41]).step B T r₂.2
  ([r₁.1, r₂.1], r₂.2, r₃)

theorem run_writeDismounted (B : Board) :
    Run (AvfsStep B (Dynarr.target B.platform)) (avfsD, formattedComputer) (writeDismounted B).1
        (writeDismounted B).2.1
      ∧ AvfsStep B (Dynarr.target B.platform) (writeDismounted B).2.1 (writeDismounted B).2.2.1
        (writeDismounted B).2.2.2 :=
  ⟨(Run.start.step (AvfsStep.of_call _ _)).step (AvfsStep.of_call _ _), AvfsStep.of_call _ _⟩

/-- The event says that drive 0 was accessed after it was last dismounted. -/
def AccessesDismounted (r : List (AvfsEvent Dynarr) × AvfsState × AvfsEvent Dynarr × AvfsState) : Prop :=
  r.2.2.1.call.accesses = true ∧ r.2.2.1.drive = some 0 ∧ ¬ LastMounted r.1 0

instance (r) : Decidable (AccessesDismounted r) := inferInstanceAs (Decidable (_ ∧ _ ∧ _))

/-- A drive whose device cannot be read is refused. -/
theorem refused_unreadable :
    AccessRefused (board fun _ => false) (writeDismounted (board fun _ => false)).2.1
      (writeDismounted (board fun _ => false)).2.2.2 (writeDismounted (board fun _ => false)).2.2.1 := by
  have hacc : AccessesDismounted (writeDismounted (board fun _ => false)) := by decide +kernel
  obtain ⟨hrun, hstep⟩ := run_writeDismounted (board fun _ => false)
  refine (refused_of_run not_marked_avfsD hrun hstep hacc.1 hacc.2.1 hacc.2.2).1 ?_
  intro _ i _
  exact Or.inr fun handle _ hvol => Bool.false_ne_true hvol.2.1

/-- **A file is written on a drive that was dismounted.** -/
theorem dismounted_drive_written :
    (∀ i, ¬ avfsD.Marked i)
    ∧ ∃ (B : Board) (T : Target Computer Dynarr) (events : List (AvfsEvent Dynarr)) (s s' : AvfsState)
        (e : AvfsEvent Dynarr), Run (AvfsStep B T) (avfsD, formattedComputer) events s
      ∧ AvfsStep B T s e s' ∧ e.call.accesses = true ∧ e.drive = some 0 ∧ ¬ LastMounted events 0
      ∧ e.result = .ok .success ∧ (s'.2.device 0).writes ≠ (s.2.device 0).writes := by
  have hacc : AccessesDismounted (writeDismounted (board fun _ => true)) := by decide +kernel
  obtain ⟨hrun, hstep⟩ := run_writeDismounted (board fun _ => true)
  refine ⟨not_marked_avfsD, _, _, _, _, _, _, hrun, hstep, hacc.1, hacc.2.1, hacc.2.2, ?_, ?_⟩
  · decide +kernel
  · decide +kernel

end AlopexOS
