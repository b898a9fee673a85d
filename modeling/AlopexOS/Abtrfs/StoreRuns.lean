import AlopexOS.Abtrfs.FileStore
import AlopexOS.Abtrfs.LayoutRuns

/-!
# `Abtrfs.StoreRuns` — the file system over whole runs

The public functions of an `AbtrFS`, called in any order, on a device that reads and of whose block writes
any may fail. A write that is cut short leaves the object with a partition header that is not on the disk, so
after one the object has to be mounted again. Then every run is a run of a store of contents, call by call
and answer by answer, and all that is known of such stores holds of the file system.

## Contents
- **Calls** and their answers, `FsStep`.
- **`StoreStep`**: the same calls on a store.
- **The simulation**, one lemma for each call.
- **What follows**: contents are a replay of the writes, block by block when some were cut, and no block of
  the disk is lost.
-/

namespace AlopexOS

open Packed ByteString Prog BlockStore

/-! ## Calls -/

/-- A call of the file system. -/
inductive FsCall where
  | format (base hhdm : UInt64) (handle : Handle)
  | mount (base hhdm : UInt64) (handle : Handle)
  | mountExisting (base hhdm : UInt64) (handle : Handle)
  | write (path : Path) (data : List UInt8) (off : UInt64)
  | read (path : Path) (data : Option Dynarr) (off max : UInt64)
  | exists' (path : Path)

/-- What a call returns; a read also leaves something in the caller's array. -/
inductive FsAnswer where
  | nothing
  | ok (b : Bool)
  | code (e : ErrorCode)
  | bytes (r : Except ErrorCode (List UInt8)) (array : Option (List UInt8))

namespace FsCall

/-- The call, its answer and the object afterwards. -/
def run {σ : Type} (P : Platform σ) (fs : AbtrFS) : FsCall → Prog σ (FsAnswer × AbtrFS)
  | .format base hhdm handle => do
      let r ← AlopexOS.format P fs base hhdm handle
      pure (.ok r.1, r.2)
  | .mount base hhdm handle => do
      let r ← AlopexOS.mount P fs base hhdm handle
      pure (.ok r.1, r.2)
  | .mountExisting base hhdm handle => do
      let fs ← AlopexOS.mountExisting P fs base hhdm handle
      pure (.nothing, fs)
  | .write path data off => do
      let r ← writeFile P fs path data off
      pure (.code r.1, r.2)
  | .read path data off max => do
      let r ← readFile P fs path data off max
      pure (.bytes r.1 (r.2.map Dynarr.elems), fs)
  | .exists' path => do
      let e ← AlopexOS.exists' P fs path
      pure (.code e, fs)

/-- Whether the call gives the object a device and a partition header. -/
def mounts : FsCall → Bool
  | .format _ _ _ => true
  | .mount _ _ _ => true
  | .mountExisting _ _ _ => true
  | .write _ _ _ => false
  | .read _ _ _ _ => false
  | .exists' _ => false

/-- What is asked of a call: it names a device, and a write is of a size that can be counted and does not
    make a file grow that is there. -/
def Sound (c : Conditions) (fs : AbtrFS) (m : Machine) : FsCall → Prop
  | .format _ _ handle => handle ≠ invalidHandle
  | .mount _ _ handle => handle ≠ invalidHandle
  | .mountExisting _ _ handle => handle ≠ invalidHandle
  | .write path data off => off.toNat + data.length < 2 ^ 63 ∧ WithinBlocks c fs m path data off
  | .read _ _ _ _ => True
  | .exists' _ => True

/-- A call that leaves the object with a partition header that may not be on the disk: a write or a `format`
    that failed. -/
def spoils : FsCall × FsAnswer → Bool
  | (.format _ _ _, .ok ok) => !ok
  | (.write _ _ _, .code e) => e = .writeFailed
  | _ => false

end FsCall

/-- The object, its machine, and whether the object has to be mounted again. -/
structure FsState where
  object : AbtrFS
  machine : Machine
  stale : Bool

/-- One call returns. -/
structure FsStep (c : Conditions) (x : FsState) (l : FsCall × FsAnswer) (y : FsState) : Prop where
  returns : (l.1.run (honest c) x.object).run x.machine = (.ok (l.2, y.object), y.machine)
  mounted : x.stale = true → l.1.mounts = true
  sound : l.1.Sound c x.object x.machine
  stale : y.stale = FsCall.spoils l

/-! ## The same calls on a store -/

/-- The blocks that are free after `format`. -/
def formatFree : Nat := 204799

inductive StoreStep (s : BlockStore (List UInt8)) : FsCall × FsAnswer → BlockStore (List UInt8) → Prop
  | format (base hhdm : UInt64) (handle : Handle) :
      StoreStep s (.format base hhdm handle, .ok true) (blank formatFree)
  | formatFailed (base hhdm : UInt64) (handle : Handle) :
      StoreStep s (.format base hhdm handle, .ok false) s
  | mount (base hhdm : UInt64) (handle : Handle) : StoreStep s (.mount base hhdm handle, .ok true) s
  | mountExisting (base hhdm : UInt64) (handle : Handle) :
      StoreStep s (.mountExisting base hhdm handle, .nothing) s
  | invalid (path : Path) (data : List UInt8) (off : UInt64) (hseg : chopPath path = []) :
      StoreStep s (.write path data off, .code .invalidPath) s
  | write {path : Path} {data : List UInt8} {off : UInt64} {o : Outcome} {s' : BlockStore (List UInt8)}
      (hseg : chopPath path ≠ []) (h : s.Writes 4096 (nameOf path) ⟨off.toNat, data⟩ o s') :
      StoreStep s (.write path data off, .code (answerOf o)) s'
  | read (path : Path) (data : Option Dynarr) (off max : UInt64) :
      StoreStep s (.read path data off max,
        .bytes (readAnswer s path off max) (arrayAfter (readAnswer s path off max) data)) s
  | exists' (path : Path) : StoreStep s (.exists' path, .code (existsAnswer s path)) s

/-- The state keeps the store: the disk does, and the object knows the disk unless it is to be mounted. -/
structure Represents (x : FsState) (s : BlockStore (List UInt8)) : Prop where
  disk : StoreOn x.machine.disk s
  sync : x.stale = false → InSync x.object x.machine.disk

variable {c : Conditions} {x y : FsState} {l : FsCall × FsAnswer} {s s' : BlockStore (List UInt8)}
  {fs fs' : AbtrFS} {m m' : Machine} {base hhdm : UInt64} {handle : Handle}

/-! ## The simulation -/

/-- `format` of a device: the empty volume, or nothing. -/
theorem format_cases {ok : Bool} (hv : handle ≠ invalidHandle)
    (h : (format (honest c) fs base hhdm handle).run m = (.ok (ok, fs'), m')) :
    (ok = true ∧ m'.disk = setBlock m.disk (0, formatHeader.bytes) ∧ InSync fs' m'.disk)
      ∨ ok = false ∧ m'.disk = m.disk := by
  have hv' : ({ attach fs base hhdm handle with partitionHeader := formatHeader } : AbtrFS).deviceHandle
      ≠ invalidHandle := hv
  simp only [format, run_bind, run_writeBlock hv'] at h
  by_cases hw : c.writeOk m.writes = true
  · rw [if_pos hw, andThen_ok, if_pos rfl, run_pure] at h
    obtain ⟨hres, rfl⟩ := Prod.mk.inj h
    obtain ⟨rfl, rfl⟩ := Prod.mk.inj (Except.ok.inj hres)
    exact Or.inl ⟨rfl, rfl, rfl, hv, rfl⟩
  · rw [if_neg hw, andThen_ok, if_neg (by simp), run_pure] at h
    obtain ⟨hres, rfl⟩ := Prod.mk.inj h
    obtain ⟨rfl, _⟩ := Prod.mk.inj (Except.ok.inj hres)
    exact Or.inr ⟨rfl, rfl⟩

theorem StoreOn.magic (h : StoreOn m.disk s) : PartitionHeader.magic ⟨m.disk 0⟩ = volumeMagic := by
  obtain ⟨files, hvol, _⟩ := h.files
  exact hvol.magic

theorem inSync_mountedOn (hv : handle ≠ invalidHandle) (fs₀ : AbtrFS) (disk : Nat → Block) :
    InSync (mountedOn fs₀ base hhdm handle disk) disk := ⟨rfl, hv, rfl⟩

/-- **One call of the file system is the same call on the store**, with the same answer. -/
theorem Represents.step (hrep : Represents x s) (hread : ∀ k, c.readOk k = true) (h : FsStep c x l y) :
    ∃ s', Represents y s' ∧ StoreStep s l s' := by
  obtain ⟨call, answer⟩ := l
  obtain ⟨fs, m, stale⟩ := x
  obtain ⟨fs', m', stale'⟩ := y
  obtain ⟨hrun, hmounts, hsound, hstale⟩ := h
  obtain ⟨hdisk, hsync⟩ := hrep
  dsimp only at hrun hmounts hsound hstale hdisk hsync
  subst hstale
  have hfresh : call.mounts = false → InSync fs m.disk := fun hm => hsync (by
    by_contra hs
    rw [hmounts (by simpa using hs)] at hm
    cases hm)
  cases call with
  | format base hhdm handle =>
      obtain ⟨r, m₁, hformat, hpure⟩ := bind_eq_ok hrun
      obtain ⟨hres, rfl⟩ := Prod.mk.inj hpure
      obtain ⟨rfl, rfl⟩ := Prod.mk.inj (Except.ok.inj hres)
      rcases format_cases hsound hformat with ⟨hok, hd, hs⟩ | ⟨hok, hd⟩
      · rw [hok]
        refine ⟨blank formatFree, ⟨?_, fun _ => hs⟩, .format base hhdm handle⟩
        show StoreOn m₁.disk _
        rw [hd]
        exact storeOn_format m.disk
      · rw [hok]
        refine ⟨s, ⟨?_, nofun⟩, .formatFailed base hhdm handle⟩
        show StoreOn m₁.disk _
        rw [hd]
        exact hdisk
  | mount base hhdm handle =>
      have hmount : (mount (honest c) fs base hhdm handle).run m = _ := run_mount hsound (hread m.reads) hdisk.magic
      simp only [FsCall.run, run_bind, hmount, andThen_ok, run_pure] at hrun
      obtain ⟨hres, rfl⟩ := Prod.mk.inj hrun
      obtain ⟨rfl, rfl⟩ := Prod.mk.inj (Except.ok.inj hres)
      exact ⟨s, ⟨hdisk, fun _ => inSync_mountedOn hsound fs m.disk⟩, .mount base hhdm handle⟩
  | mountExisting base hhdm handle =>
      have hmount : (mountExisting (honest c) fs base hhdm handle).run m = _ :=
        run_mountExisting hsound (hread m.reads) hdisk.magic
      simp only [FsCall.run, run_bind, hmount, andThen_ok, run_pure] at hrun
      obtain ⟨hres, rfl⟩ := Prod.mk.inj hrun
      obtain ⟨rfl, rfl⟩ := Prod.mk.inj (Except.ok.inj hres)
      exact ⟨s, ⟨hdisk, fun _ => inSync_mountedOn hsound fs m.disk⟩, .mountExisting base hhdm handle⟩
  | write path data off =>
      obtain ⟨hsmall, hwithin⟩ := hsound
      have hs := hfresh rfl
      obtain ⟨⟨e, fs₁⟩, m₁, hwrite, hpure⟩ := bind_eq_ok hrun
      obtain ⟨hres, rfl⟩ := Prod.mk.inj hpure
      obtain ⟨rfl, rfl⟩ := Prod.mk.inj (Except.ok.inj hres)
      by_cases hseg : chopPath path = []
      · obtain ⟨rfl, rfl, rfl⟩ := writeFile_invalid hs.mounted hseg hwrite
        exact ⟨s, ⟨hdisk, fun _ => hs⟩, .invalid path data off hseg⟩
      · obtain ⟨o, s', hcode, hw, hdisk', hsync'⟩ := hdisk.write hs hseg hread hsmall hwithin hwrite
        obtain rfl : e = answerOf o := hcode
        refine ⟨s', ⟨hdisk', fun hspoil => hsync' ?_⟩, .write hseg hw⟩
        rintro rfl
        cases hspoil
  | read path data off max =>
      have hs := hfresh rfl
      obtain ⟨r, m₁, hr, hpure⟩ := bind_eq_ok hrun
      obtain ⟨hres, rfl⟩ := Prod.mk.inj hpure
      obtain ⟨rfl, rfl⟩ := Prod.mk.inj (Except.ok.inj hres)
      obtain ⟨hq, hanswer, harray⟩ := (hdisk.read hs hread data off max).returned hr
      rw [hanswer, harray]
      refine ⟨s, ⟨?_, fun _ => ?_⟩, .read path data off max⟩
      · show StoreOn m₁.disk s
        rw [hq.disk]
        exact hdisk
      · show InSync fs m₁.disk
        rw [hq.disk]
        exact hs
  | exists' path =>
      have hs := hfresh rfl
      obtain ⟨e, m₁, hr, hpure⟩ := bind_eq_ok hrun
      obtain ⟨hres, rfl⟩ := Prod.mk.inj hpure
      obtain ⟨rfl, rfl⟩ := Prod.mk.inj (Except.ok.inj hres)
      obtain ⟨hq, rfl⟩ := (hdisk.exists hs hread).returned hr
      refine ⟨s, ⟨?_, fun _ => ?_⟩, .exists' path⟩
      · show StoreOn m₁.disk s
        rw [hq.disk]
        exact hdisk
      · show InSync fs m₁.disk
        rw [hq.disk]
        exact hs

variable {calls : List (FsCall × FsAnswer)} {path : Path}

/-- **A run of the file system is a run of the store.** -/
theorem Represents.run (hrep : Represents x s) (hread : ∀ k, c.readOk k = true)
    (h : Run (FsStep c) x calls y) : ∃ s', Run StoreStep s calls s' ∧ Represents y s' := by
  obtain ⟨s', hrun, hrep'⟩ := h.simulates (S := StoreStep) (P := Represents) (g := some)
    (fun a l b t hl hr => by
      obtain ⟨t', hr', hs⟩ := hr.step hread hl
      exact ⟨t', hr', Or.inr ⟨l, rfl, hs⟩⟩) hrep
  rw [List.filterMap_some] at hrun
  exact ⟨s', hrun, hrep'⟩

/-- The state after a `format` that went well. -/
theorem represents_format (hv : handle ≠ invalidHandle)
    (h : (format (honest c) fs base hhdm handle).run m = (.ok (true, fs'), m')) :
    Represents ⟨fs', m', false⟩ (blank formatFree) := by
  rcases format_cases hv h with ⟨_, hd, hs⟩ | ⟨hok, _⟩
  · refine ⟨?_, fun _ => hs⟩
    show StoreOn m'.disk _
    rw [hd]
    exact storeOn_format m.disk
  · cases hok

/-- **The file system is a store of contents.** From a fresh volume on, whatever is called and whichever
    block writes fail, each call answers as it does on a store, and the disk keeps that store. -/
theorem fileSystem_refines_store (hv : handle ≠ invalidHandle)
    (hformat : (format (honest c) fs base hhdm handle).run m = (.ok (true, fs'), m'))
    (hread : ∀ k, c.readOk k = true) (h : Run (FsStep c) ⟨fs', m', false⟩ calls y) :
    ∃ s, Run StoreStep (blank formatFree) calls s ∧ StoreOn y.machine.disk s
      ∧ (y.stale = false → InSync y.object y.machine.disk) := by
  obtain ⟨s, hrun, hrep⟩ := (represents_format hv hformat).run hread h
  exact ⟨s, hrun, hrep.disk, hrep.sync⟩

/-- The state after `format`. -/
def formattedState : FsState := ⟨formatted.1, formatted.2, false⟩

/-- The walk on it finds nothing. -/
theorem withinBlocks_formatted (path : Path) (data : List UInt8) (off : UInt64) :
    WithinBlocks workingMachine formatted.1 formatted.2 path data off := by
  intro n header r h
  have hused : ¬ (1 : UInt64) < formatted.1.partitionHeader.used := by decide +kernel
  have hv : formatted.1.deviceHandle ≠ invalidHandle := by decide
  unfold lookUp at h
  rw [if_neg hv] at h
  cases n with
  | zero => cases h
  | succ n =>
      unfold scan at h
      rw [if_neg hused] at h
      cases h

/-- A file is made there. -/
theorem step_formatted :
    ∃ y, FsStep workingMachine formattedState (.write pathA [1, 2] 0, .code .success) y := by
  have hcode : ((writeFile (honest workingMachine) formatted.1 pathA [1, 2] 0).run formatted.2).1.map Prod.fst
      = .ok .success := by decide +kernel
  generalize hr : (writeFile (honest workingMachine) formatted.1 pathA [1, 2] 0).run formatted.2 = r at hcode
  obtain ⟨res, m'⟩ := r
  obtain ⟨⟨e, fs'⟩, rfl, rfl⟩ := map_eq_ok hcode
  refine ⟨⟨fs', m', false⟩, ?_, nofun, ⟨by decide, withinBlocks_formatted pathA [1, 2] 0⟩, rfl⟩
  show ((writeFile (honest workingMachine) formatted.1 pathA [1, 2] 0) >>= _).run formatted.2 = _
  rw [run_bind, hr]
  rfl

/-- It is about runs there are. -/
theorem fileSystem_refines_store_a :
    ∃ (y : FsState) (s : BlockStore (List UInt8)),
      Run StoreStep (blank formatFree) [(.write pathA [1, 2] 0, .code .success)] s
        ∧ StoreOn y.machine.disk s := by
  obtain ⟨y, hy⟩ := step_formatted
  obtain ⟨s, hrun, hdisk, _⟩ := fileSystem_refines_store (by decide) (run_format (c := workingMachine) rfl)
    (fun _ => rfl) (Run.single hy)
  exact ⟨y, s, hrun, hdisk⟩

/-! ## What follows -/

/-- What a write that answered so came to; `none` when it was refused without a look at the volume. -/
def outcomeOf : ErrorCode → Option Outcome
  | .invalidParameters => some .empty
  | .noSpaceLeft => some .full
  | .success => some .done
  | .writeFailed => some .cut
  | _ => none

theorem outcomeOf_answerOf (o : Outcome) : outcomeOf (answerOf o) = some o := by
  cases o <;> rfl

/-- What a call that answered so did to the store. -/
def eventOf : FsCall × FsAnswer → Option (Event (List UInt8))
  | (.format _ _ _, .ok true) => some (.clear formatFree)
  | (.write path data off, .code e) =>
      (outcomeOf e).map fun o => .write (nameOf path) ⟨off.toNat, data⟩ o
  | _ => none

/-- The events of a run, by its calls and answers. -/
def eventsOf (calls : List (FsCall × FsAnswer)) : List (Event (List UInt8)) := calls.filterMap eventOf

theorem StoreStep.event (h : StoreStep s l s') :
    (eventOf l = none ∧ s' = s) ∨ ∃ e, eventOf l = some e ∧ BlockStore.Step 4096 s e s' := by
  cases h with
  | format base hhdm handle => exact Or.inr ⟨_, rfl, .clear formatFree⟩
  | formatFailed base hhdm handle => exact Or.inl ⟨rfl, rfl⟩
  | mount base hhdm handle => exact Or.inl ⟨rfl, rfl⟩
  | mountExisting base hhdm handle => exact Or.inl ⟨rfl, rfl⟩
  | invalid path data off hseg => exact Or.inl ⟨rfl, rfl⟩
  | write hseg h =>
      refine Or.inr ⟨_, ?_, .write h⟩
      simp only [eventOf, outcomeOf_answerOf, Option.map_some]
  | read path data off max => exact Or.inl ⟨rfl, rfl⟩
  | exists' path => exact Or.inl ⟨rfl, rfl⟩

/-- A run of calls on a store is a run of the events they are. -/
theorem run_events (h : Run StoreStep s calls s') : Run (BlockStore.Step 4096) s (eventsOf calls) s' := by
  obtain ⟨t, hrun, rfl⟩ := h.simulates (S := BlockStore.Step 4096) (P := fun a b => b = a) (g := eventOf)
    (fun a l b t hl hr => by
      subst hr
      exact ⟨b, rfl, hl.event⟩) rfl
  exact hrun

/-- What the calls of a run have written under a path, when each write either was done or did nothing. -/
def written (calls : List (FsCall × FsAnswer)) (path : Path) : Option (List UInt8) :=
  (nameOf path).bind fun v => (eventsOf calls).foldl (Event.replay v) none

/-- The call is a write under the path that was cut short. -/
def CutsShort (path : Path) (l : FsCall × FsAnswer) : Prop :=
  ∃ q data off, nameOf q = nameOf path ∧ l = (.write q data off, .code .writeFailed)

/-- How a call may be read: as it is, or, when it is a write under the path that was cut short, as done. -/
def MayHave (path : Path) (l l' : FsCall × FsAnswer) : Prop :=
  l' = l ∨ ∃ q data off, nameOf q = nameOf path
    ∧ l = (.write q data off, .code .writeFailed) ∧ l' = (.write q data off, .code .success)

/-- The content that every read of the path, and the query for it, answer from. -/
def Answers (c : Conditions) (x : FsState) (path : Path) (content : Option (List UInt8)) : Prop :=
  (∀ data off max, Runs c.Generous (readFile (honest c) x.object path data off max) x.machine
    (fun res _ => res.1 = answerFor content path off max))
  ∧ Runs c.Generous (AlopexOS.exists' (honest c) x.object path) x.machine
    (fun e _ => e = existsFor content path)

theorem Represents.answers (hrep : Represents x s) (hread : ∀ k, c.readOk k = true)
    (hstale : x.stale = false) (path : Path) : Answers c x path (s.get (nameOf path)) :=
  ⟨fun data off max => (hrep.disk.read (hrep.sync hstale) hread data off max).imp fun _ _ h => h.2.1,
    (hrep.disk.exists (hrep.sync hstale) hread).imp fun _ _ h => h.2⟩

/-- A cut in the events is a call that was cut short. -/
theorem eventOf_cut {v : List UInt8} {w : Write} (h : eventOf l = some (.write (some v) w .cut)) :
    ∃ q data off, nameOf q = some v ∧ w = ⟨off.toNat, data⟩ ∧ l = (.write q data off, .code .writeFailed) := by
  obtain ⟨call, answer⟩ := l
  unfold eventOf at h
  split at h
  · cases h
  · rename_i q data off e heq
    obtain ⟨o, ho, hevent⟩ := Option.map_eq_some_iff.mp h
    obtain ⟨rfl, rfl⟩ := Prod.mk.inj heq
    injection hevent with hq hw hcut
    subst hcut
    obtain rfl : e = .writeFailed := by
      cases e <;> first | rfl | cases ho
    exact ⟨q, data, off, hq, hw.symm, rfl⟩
  · cases h

theorem not_isCut_of_calls (hcut : ∀ l ∈ calls, ¬ CutsShort path l) {v : List UInt8}
    (hv : nameOf path = some v) : ∀ e ∈ eventsOf calls, ¬ e.IsCut v := by
  intro e he hc
  obtain ⟨l, hl, hevent⟩ := List.mem_filterMap.mp he
  cases e with
  | clear _ => exact hc
  | write p w o =>
      obtain ⟨rfl, rfl⟩ := hc
      obtain ⟨q, data, off, hq, _, rfl⟩ := eventOf_cut hevent
      exact hcut _ hl ⟨q, data, off, hq.trans hv.symm, rfl⟩

/-- A reading of the events is one of the calls. -/
theorem calls_of_reading {v : List UInt8} (hv : nameOf path = some v) {rs : List (Event (List UInt8))}
    (h : List.Forall₂ (Event.Reading v) (eventsOf calls) rs) :
    ∃ calls', List.Forall₂ (MayHave path) calls calls' ∧ eventsOf calls' = rs := by
  induction calls generalizing rs with
  | nil =>
      cases h
      exact ⟨[], .nil, rfl⟩
  | cons l calls ih =>
      unfold eventsOf at h ⊢
      cases hl : eventOf l with
      | none =>
          rw [List.filterMap_cons_none hl] at h
          obtain ⟨calls', hmay, hrs⟩ := ih h
          exact ⟨l :: calls', .cons (Or.inl rfl) hmay, by rw [List.filterMap_cons_none hl]; exact hrs⟩
      | some e =>
          rw [List.filterMap_cons_some hl] at h
          cases h with
          | cons hr hrest =>
              obtain ⟨calls', hmay, hrs⟩ := ih hrest
              rcases hr with rfl | ⟨w, rfl, rfl⟩
              · exact ⟨l :: calls', .cons (Or.inl rfl) hmay,
                  by rw [List.filterMap_cons_some hl, ← hrs]; rfl⟩
              · obtain ⟨q, data, off, hq, rfl, rfl⟩ := eventOf_cut hl
                refine ⟨(.write q data off, .code .success) :: calls',
                  .cons (Or.inr ⟨q, data, off, hq.trans hv.symm, rfl, rfl⟩) hmay, ?_⟩
                rw [← hrs, ← hq]
                rfl

/-- **What is read is a replay of the calls.** After any run from a fresh volume in which no write under the
    path was cut short, the path reads, and is there, as its successful writes have left it, each laid over
    what was there and cut to the length that the first one gave the file. -/
theorem reads_written (hv : handle ≠ invalidHandle)
    (hformat : (format (honest c) fs base hhdm handle).run m = (.ok (true, fs'), m'))
    (hread : ∀ k, c.readOk k = true) (h : Run (FsStep c) ⟨fs', m', false⟩ calls y)
    (hstale : y.stale = false) (hcut : ∀ l ∈ calls, ¬ CutsShort path l) :
    Answers c y path (written calls path) := by
  obtain ⟨s, hrun, hrep⟩ := (represents_format hv hformat).run hread h
  have hcontent : s.get (nameOf path) = written calls path := by
    unfold written
    cases hp : nameOf path with
    | none => rfl
    | some v => exact content_of_run (run_events hrun) (not_isCut_of_calls hcut hp)
  rw [← hcontent]
  exact hrep.answers hread hstale path

/-- The file that was made is read. -/
theorem reads_written_a : ∃ y : FsState, Answers workingMachine y pathA (some [1, 2]) := by
  obtain ⟨y, hy⟩ := step_formatted
  have hanswers : Answers workingMachine y pathA _ := reads_written (by decide)
    (run_format (c := workingMachine) rfl) (fun _ => rfl) (Run.single hy) hy.stale (fun l hl hc => by
      obtain ⟨q, data, off, _, rfl⟩ := hc
      cases hl with
      | tail _ hl => cases hl)
  have hwritten : written [(.write pathA [1, 2] 0, .code .success)] pathA = some [1, 2] := by decide +kernel
  rw [hwritten] at hanswers
  exact ⟨y, hanswers⟩

/-- **Writes that are cut short tear a file at block boundaries only.** After any run from a fresh volume the
    path reads from one content, and each block of it is as some history has left it in which each write
    under the path that was cut short either was done or was never made. -/
theorem reads_blockwise (hv : handle ≠ invalidHandle)
    (hformat : (format (honest c) fs base hhdm handle).run m = (.ok (true, fs'), m'))
    (hread : ∀ k, c.readOk k = true) (h : Run (FsStep c) ⟨fs', m', false⟩ calls y)
    (hstale : y.stale = false) (path : Path) :
    ∃ content, Answers c y path content ∧ ∀ b, ∃ calls', List.Forall₂ (MayHave path) calls calls'
      ∧ SameBlock 4096 b content (written calls' path) := by
  obtain ⟨s, hrun, hrep⟩ := (represents_format hv hformat).run hread h
  refine ⟨_, hrep.answers hread hstale path, fun b => ?_⟩
  cases hp : nameOf path with
  | none =>
      refine ⟨calls, List.forall₂_same.mpr fun _ _ => Or.inl rfl, ?_⟩
      rw [written, hp]
      rfl
  | some v =>
      obtain ⟨rs, hrs, hsame⟩ := block_of_run (run_events hrun) v b
      obtain ⟨calls', hmay, rfl⟩ := calls_of_reading hp hrs
      refine ⟨calls', hmay, ?_⟩
      rw [written, hp]
      exact hsame

/-- A file that was made whole is one of whole blocks. -/
theorem reads_blockwise_a : ∃ (y : FsState) (content : Option (List UInt8)),
    Answers workingMachine y pathA content ∧ ∀ b, ∃ calls', SameBlock 4096 b content (written calls' pathA) := by
  obtain ⟨y, hy⟩ := step_formatted
  obtain ⟨content, hanswers, hblocks⟩ := reads_blockwise (by decide) (run_format (c := workingMachine) rfl)
    (fun _ => rfl) (Run.single hy) hy.stale pathA
  refine ⟨y, content, hanswers, fun b => ?_⟩
  obtain ⟨calls', _, hsame⟩ := hblocks b
  exact ⟨calls', hsame⟩

/-- The call is a write under one of the names, or no write and no `format`. -/
def Within (names : List (List UInt8)) : FsCall → Prop
  | .format _ _ _ => False
  | .write path _ _ => ∃ v ∈ names, nameOf path = some v
  | _ => True

/-- **No block of the disk is lost.** However many writes were cut short, the free blocks that the disk counts
    and the blocks of the files that can be read are all the blocks there were. -/
theorem blocks_accounted (hv : handle ≠ invalidHandle)
    (hformat : (format (honest c) fs base hhdm handle).run m = (.ok (true, fs'), m'))
    (hread : ∀ k, c.readOk k = true) (h : Run (FsStep c) ⟨fs', m', false⟩ calls y)
    (hstale : y.stale = false) {names : List (List UInt8)} (hnodup : names.Nodup)
    (hnames : ∀ l ∈ calls, Within names l.1) :
    ∃ content : List UInt8 → Option (List UInt8),
      (∀ path, Answers c y path ((nameOf path).bind content))
      ∧ (PartitionHeader.freeBlocksCount ⟨y.machine.disk 0⟩).toNat
          + (names.map fun v => cost 4096 (content v)).sum = formatFree := by
  obtain ⟨s, hrun, hrep⟩ := (represents_format hv hformat).run hread h
  refine ⟨s.content, hrep.answers hread hstale, ?_⟩
  have hspace := space_of_run (run_events hrun) hnodup (by
    intro e he
    obtain ⟨l, hl, hevent⟩ := List.mem_filterMap.mp he
    have hin := hnames l hl
    obtain ⟨call, answer⟩ := l
    unfold eventOf at hevent
    split at hevent
    · rename_i heq
      obtain ⟨rfl, _⟩ := Prod.mk.inj heq
      exact hin.elim
    · rename_i q data off e heq
      obtain ⟨rfl, rfl⟩ := Prod.mk.inj heq
      obtain ⟨o, _, rfl⟩ := Option.map_eq_some_iff.mp hevent
      obtain ⟨v, hvmem, hq⟩ := hin
      exact ⟨v, hvmem, _, o, by rw [hq]⟩
    · cases hevent)
  rw [← hrep.disk.free]
  have hzero : taken 4096 (blank formatFree) names = 0 := by
    simp [taken, blank, cost]
  rw [hzero] at hspace
  exact hspace

/-- One file takes two of the blocks. -/
theorem blocks_accounted_a : ∃ (y : FsState) (content : List UInt8 → Option (List UInt8)),
    (PartitionHeader.freeBlocksCount ⟨y.machine.disk 0⟩).toNat
      + ([[0x61]].map fun v => cost 4096 (content v)).sum = formatFree := by
  obtain ⟨y, hy⟩ := step_formatted
  have hnodup : [([0x61] : List UInt8)].Nodup := List.nodup_singleton _
  obtain ⟨content, _, hspace⟩ := blocks_accounted (by decide)
    (run_format (c := workingMachine) rfl) (fun _ => rfl) (Run.single hy) hy.stale hnodup (by
      intro l hl
      rw [List.mem_singleton.mp hl]
      exact ⟨[0x61], List.mem_cons_self, by decide +kernel⟩)
  exact ⟨y, content, hspace⟩

end AlopexOS
