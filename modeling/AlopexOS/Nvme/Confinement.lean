import AlopexOS.Nvme.Driver

/-!
# `Nvme.Confinement` — what the controller may change

The controller writes to memory and to the device on its own. Which bytes it may change is said by the
commands that the driver builds: a read names memory, a write names the device, an Identify command names a
page, and Format NVM the whole device.

## Contents
- **Named bytes.** `NamesMemory` and `NamesDisk`, of a command and of what happens.
- **Confinement.**
-/

namespace AlopexOS.Nvme

open QueuePair

variable {im : Image} {hhdmOffset : UInt64} {e : SubmissionQueueEntry} {w w' : Contents} {s₀ : System}
  {s₁ s : Live} {calls : List AdminEvent} {events : List DriverEvent}

/-! ## Named bytes -/

/-- The command is to fill this byte of memory. -/
def SubmissionQueueEntry.NamesMemory (e : SubmissionQueueEntry) (p : Nat) : Prop :=
  e.Reads ∧ ∃ i, i < e.dataLength ∧ e.dataByte i = p

/-- The command is to fill this byte of the device. -/
def SubmissionQueueEntry.NamesDisk (e : SubmissionQueueEntry) (p : Nat) : Prop :=
  ¬ e.Reads ∧ ∃ i, i < e.dataLength ∧ e.diskStart + i = p

theorem Touched.mem_eq (h : Touched e w w') {p : Nat} (hp : ¬ e.NamesMemory p) : w'.mem p = w.mem p := by
  obtain ⟨moved, hlt, hmoved⟩ := h
  split at hmoved
  · rename_i hread
    exact hmoved.2.2 p fun i hi he => hp ⟨hread, i, hlt i hi, he⟩
  · rw [hmoved.1]

theorem Touched.disk_eq (h : Touched e w w') {p : Nat} (hp : ¬ e.NamesDisk p) : w'.disk p = w.disk p := by
  obtain ⟨moved, hlt, hmoved⟩ := h
  split at hmoved
  · rw [hmoved.1]
  · rename_i hwrite
    exact hmoved.2.2 p fun i hi he => hp ⟨hwrite, i, hlt i hi, he⟩

/-- Which slot a command stands in says nothing about its opcode. -/
theorem reads_entry (call : IoCall) (slot slot' : Nat) :
    (call.entry im hhdmOffset slot).Reads ↔ (call.entry im hhdmOffset slot').Reads := by
  have hcode : ∀ opcode : UInt32, opcode.toNat < 256 →
      (cdw0 opcode slot &&& 0xFF = 0x02 ↔ cdw0 opcode slot' &&& 0xFF = 0x02) := by
    intro opcode ho
    rw [cdw0_opcode ho, cdw0_opcode ho]
  cases call with
  | read destPhys lba count => exact hcode 0x02 (by decide)
  | write srcPhys lba count => exact hcode 0x01 (by decide)

/-- Nor about where the data is. -/
theorem data_entry (call : IoCall) (slot slot' : Nat) :
    (call.entry im hhdmOffset slot).dataLength = (call.entry im hhdmOffset slot').dataLength
      ∧ (call.entry im hhdmOffset slot).dataByte = (call.entry im hhdmOffset slot').dataByte
      ∧ (call.entry im hhdmOffset slot).diskStart = (call.entry im hhdmOffset slot').diskStart := by
  unfold SubmissionQueueEntry.dataLength SubmissionQueueEntry.dataByte SubmissionQueueEntry.diskStart
  cases call <;> exact ⟨rfl, rfl, rfl⟩

theorem namesMemory_entry (call : IoCall) (slot slot' p : Nat) :
    (call.entry im hhdmOffset slot).NamesMemory p ↔ (call.entry im hhdmOffset slot').NamesMemory p := by
  obtain ⟨hlength, hbyte, -⟩ := @data_entry im hhdmOffset call slot slot'
  unfold SubmissionQueueEntry.NamesMemory
  rw [reads_entry call slot slot', hlength, hbyte]

theorem namesDisk_entry (call : IoCall) (slot slot' p : Nat) :
    (call.entry im hhdmOffset slot).NamesDisk p ↔ (call.entry im hhdmOffset slot').NamesDisk p := by
  obtain ⟨hlength, -, hstart⟩ := @data_entry im hhdmOffset call slot slot'
  unfold SubmissionQueueEntry.NamesDisk
  rw [reads_entry call slot slot', hlength, hstart]

/-- Something that happens concerns this byte of memory: a read is called for it, or it is in a page that an
    Identify command fills. -/
def DriverEvent.NamesMemory (im : Image) (hhdmOffset : UInt64) (p : Nat) : DriverEvent → Prop
  | .io (.build call) => (call.entry im hhdmOffset 0).NamesMemory p
  | .adminWork e => e.cdw0 &&& 0xFF = 0x06 ∧ ∃ i, i < 4096 ∧ e.dptr0.toNat + i = p
  | _ => False

/-- Something that happens concerns this byte of the device: a write is called for it, or the device is
    formatted. -/
def DriverEvent.NamesDisk (im : Image) (hhdmOffset : UInt64) (p : Nat) : DriverEvent → Prop
  | .io (.build call) => (call.entry im hhdmOffset 0).NamesDisk p
  | .adminWork e => e.cdw0 &&& 0xFF = 0x80
  | _ => False

theorem AdminWork.mem_eq (h : AdminWork w e w') {p : Nat}
    (hp : ¬ DriverEvent.NamesMemory im hhdmOffset p (.adminWork e)) : w'.mem p = w.mem p := by
  unfold AdminWork at h
  split at h
  · rename_i hcode
    exact h.2 p fun i hi he => hp ⟨hcode, i, hi, he⟩
  · split at h
    · rw [h]
    · rw [h]

theorem AdminWork.disk_eq (h : AdminWork w e w') {p : Nat}
    (hp : ¬ DriverEvent.NamesDisk im hhdmOffset p (.adminWork e)) : w'.disk p = w.disk p := by
  unfold AdminWork at h
  split at h
  · rw [h.1]
  · split at h
    · rename_i hcode
      exact absurd hcode hp
    · rw [h]

/-- A view of the bytes that no label of a run changes stays through the run. -/
theorem view_of_run {V : Type} (view : Contents → V) {w₀ : Contents}
    {labels : List (Round IoCall CompletionQueueEntry ⊕ SubmissionQueueEntry)}
    (hcall : ∀ r ∈ rounds labels, ∀ w w', Touched (r.call.entry im hhdmOffset r.slot) w w' → view w' = view w)
    (hadmin : ∀ e ∈ labels.filterMap Sum.getRight?, ∀ w w', AdminWork w e w' → view w' = view w)
    (h : Run (BoardStep im hhdmOffset) w₀ labels w) : view w = view w₀ := by
  have hsame : Run (fun w _ w' => view w' = view w) w₀ labels w := by
    refine h.mono_labels fun w label w' hlabel hs => ?_
    cases hs with
    | @call r _ hrequest htouched => exact hcall r (List.mem_filterMap.mpr ⟨.inl r, hlabel, rfl⟩) w w' htouched
    | @admin e _ hwork => exact hadmin e (List.mem_filterMap.mpr ⟨.inr e, hlabel, rfl⟩) w w' hwork
  exact hsame.invariant (I := fun w => view w = view w₀) (fun _ _ _ hs hi => hs.trans hi) rfl

/-! ## Confinement -/

/-- **The controller is confined to what it was told.** A byte of memory changes only when a read was called
    for it or an Identify command fills its page, a byte of the device only when a write was called for it or
    the device is formatted. -/
theorem controller_confined (hboot : AtBoot s₀) (hinit : Run (SteadyStep im) s₀ calls s₁.sys)
    (hdone : s₁.sys.ctrl.initialized = true) (hrun : Run (DriverStep im) s₁ events s)
    (hblock : ∀ call, DriverEvent.io (.build call) ∈ events → call.WithinBlock) (p : Nat) :
    ((∀ ev ∈ events, ¬ ev.NamesMemory im s₁.sys.ctrl.hhdmOffset p) → s.bytes.mem p = s₁.bytes.mem p)
      ∧ ((∀ ev ∈ events, ¬ ev.NamesDisk im s₁.sys.ctrl.hhdmOffset p) → s.bytes.disk p = s₁.bytes.disk p) := by
  obtain ⟨labels, w, hrun', hbuilt, -, hadmin, hbetween, hduring⟩ := exists_atOnce hboot hinit hdone hrun hblock
  have hwork : ∀ e ∈ labels.filterMap Sum.getRight?, DriverEvent.adminWork e ∈ events := by
    intro e he
    rw [hadmin] at he
    obtain ⟨ev, hev, hsome⟩ := List.mem_filterMap.mp he
    cases ev with
    | adminWork e' =>
        obtain rfl := Option.some.inj hsome
        exact hev
    | _ => cases hsome
  -- the call in progress, when there is one
  have hlast : s.bytes = w ∨ ∃ call slot, Touched (call.entry im s₁.sys.ctrl.hhdmOffset slot) w s.bytes
      ∧ .io (.build call) ∈ events := by
    cases hturn : s.sys.ioTurn with
    | idle => exact Or.inl (hbetween hturn).1
    | built call => exact Or.inr ⟨call, _, hduring call (Or.inl hturn)⟩
    | polling call => exact Or.inr ⟨call, _, hduring call (Or.inr (Or.inl hturn))⟩
    | matched call => exact Or.inr ⟨call, _, hduring call (Or.inr (Or.inr hturn))⟩
  refine ⟨fun hp => ?_, fun hp => ?_⟩
  · have hname : ∀ call slot, .io (.build call) ∈ events →
        ¬ (call.entry im s₁.sys.ctrl.hhdmOffset slot).NamesMemory p :=
      fun call slot hcall h => hp _ hcall ((namesMemory_entry call slot 0 p).mp h)
    have hview := view_of_run (fun w => w.mem p) (fun r hr _ _ h => h.mem_eq (hname _ _ (hbuilt r hr)))
      (fun e he _ _ h => h.mem_eq (hp _ (hwork e he))) hrun'
    rcases hlast with rfl | ⟨call, slot, htouched, hcall⟩
    · exact hview
    · exact (htouched.mem_eq (hname _ _ hcall)).trans hview
  · have hname : ∀ call slot, .io (.build call) ∈ events →
        ¬ (call.entry im s₁.sys.ctrl.hhdmOffset slot).NamesDisk p :=
      fun call slot hcall h => hp _ hcall ((namesDisk_entry call slot 0 p).mp h)
    have hview := view_of_run (fun w => w.disk p) (fun r hr _ _ h => h.disk_eq (hname _ _ (hbuilt r hr)))
      (fun e he _ _ h => h.disk_eq (hp _ (hwork e he))) hrun'
    rcases hlast with rfl | ⟨call, slot, htouched, hcall⟩
    · exact hview
    · exact (htouched.disk_eq (hname _ _ hcall)).trans hview

/-- The device is still full of fives, and the bottom of memory is zero. -/
theorem controller_confined_a : ∃ (s₁ s : Live) (e : SubmissionQueueEntry) (c : CompletionQueueEntry),
    Run (DriverStep plainImage) s₁ (successEvents (.read 0x8000 16 8) e c) s
      ∧ s.bytes.mem 0 = 0 ∧ s.bytes.disk 0 = 5 := by
  obtain ⟨s₁, s, e, c, hbytes, hoff, hinit, hdone, hrun, hidle⟩ := exists_read
  obtain ⟨hmem, hdisk⟩ := controller_confined atBoot_coldBoot hinit hdone hrun
    (fun call hcall => by
      rw [eq_of_built hcall]
      exact ⟨by decide, by decide⟩) 0
  have honly : ∀ ev ∈ successEvents (.read 0x8000 16 8) e c, (∀ e', ev ≠ .adminWork e')
      ∧ ∀ call, ev = .io (.build call) → call = .read 0x8000 16 8 := by
    intro ev hev
    refine ⟨fun e' he => ?_, fun call he => eq_of_built (he ▸ hev)⟩
    subst he
    simp [successEvents] at hev
  refine ⟨s₁, s, e, c, hrun, ?_, ?_⟩
  · rw [hmem, hbytes]
    · rfl
    · intro ev hev hname
      obtain ⟨hadmin, hcall⟩ := honly ev hev
      unfold DriverEvent.NamesMemory at hname
      split at hname
      · rename_i call
        obtain rfl := hcall call rfl
        rw [hoff] at hname
        obtain ⟨-, i, hlt, hi⟩ := hname
        -- the page of the read is not the one at the bottom
        have hlength : (IoCall.entry plainImage 0 0 (.read 0x8000 16 8)).dataLength = 4096 := by decide
        have hpage : (IoCall.entry plainImage 0 0 (.read 0x8000 16 8)).dptr0.toNat = 0x8000 := by decide
        rw [hlength] at hlt
        rw [dataByte_aligned (by rw [hpage]) hlt, hpage] at hi
        omega
      · rename_i e'
        exact hadmin e' rfl
      · exact hname
  · rw [hdisk, hbytes]
    · rfl
    · intro ev hev hname
      obtain ⟨hadmin, hcall⟩ := honly ev hev
      unfold DriverEvent.NamesDisk at hname
      split at hname
      · rename_i call
        obtain rfl := hcall call rfl
        exact hname.1 (cdw0_opcode (by decide) 0)
      · rename_i e'
        exact hadmin e' rfl
      · exact hname

end AlopexOS.Nvme
