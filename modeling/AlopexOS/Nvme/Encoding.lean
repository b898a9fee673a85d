import AlopexOS.Nvme.Transfer

/-!
# `Nvme.Encoding` — what a submitted command says

A request names a start block and a number of blocks, of 64 and 32 bits. `submit_request` keeps it,
`process_queue` hands it to `nvme_submit_thunk`, and that to `Controller::read` or `Controller::write`, which
build an entry for it. The entry has 64 bits for the start, and 16 for the number less one. Nothing on the
way looks at the number.

## Contents
- **Decoding** an entry.
- **The driver on its ring**: `read` and `write`, with the entries they submit.
- **Exactness**: which requests are submitted as they are.
-/

namespace AlopexOS.Nvme

open Storage

/-! ## Decoding -/

namespace SubmissionQueueEntry

/-- The opcode of an entry. -/
def opcode (e : SubmissionQueueEntry) : UInt32 := e.cdw0 &&& 0xFF

/-- The first block of an entry, in its two words. -/
def startLba (e : SubmissionQueueEntry) : Nat := e.cdw10.toNat + 2 ^ 32 * e.cdw11.toNat

/-- The number of blocks is one more than the field says. -/
def blockCount (e : SubmissionQueueEntry) : Nat := e.cdw12.toNat % 2 ^ 16 + 1

/-- The entry is for what the request asks for. -/
def Says (e : SubmissionQueueEntry) (req : StorageRequest) : Prop :=
  (req.opCode = .read ∧ e.opcode = 0x02 ∨ req.opCode = .write ∧ e.opcode = 0x01)
    ∧ e.startLba = req.lba.toNat ∧ e.blockCount = req.count.toNat

end SubmissionQueueEntry

variable {im : Image} {hhdmOffset : UInt64}

/-- **The start block is lossless**, for every block address. -/
theorem entryFor_startLba (opcode : UInt32) (cid : Nat) (phys lba : UInt64) (count : UInt32) :
    (IoCall.entryFor im hhdmOffset opcode cid phys lba count).startLba = lba.toNat :=
  lba_words lba

/-- The number of blocks, less one, is taken modulo `2 ^ 16`. -/
theorem entryFor_blockCount (opcode : UInt32) (cid : Nat) (phys lba : UInt64) (count : UInt32) :
    (IoCall.entryFor im hhdmOffset opcode cid phys lba count).blockCount
      = (count.toNat + (2 ^ 32 - 1)) % 2 ^ 16 + 1 := by
  show ((count - 1) &&& 0xFFFF).toNat % 2 ^ 16 + 1 = _
  rw [UInt32.toNat_and, UInt32.toNat_sub]
  show ((2 ^ 32 - 1 + count.toNat) % 2 ^ 32 &&& (2 ^ 16 - 1)) % 2 ^ 16 + 1 = _
  rw [Nat.and_two_pow_sub_one_eq_mod]
  omega

/-- **The number of blocks is lossless from 1 to `2 ^ 16`**, and not beyond. -/
theorem entryFor_blockCount_iff (opcode : UInt32) (cid : Nat) (phys lba : UInt64) (count : UInt32) :
    (IoCall.entryFor im hhdmOffset opcode cid phys lba count).blockCount = count.toNat
      ↔ 1 ≤ count.toNat ∧ count.toNat ≤ 65536 := by
  have hlt := count.toNat_lt
  rw [entryFor_blockCount]
  omega

/-! ## The driver on its ring -/

/-- The driver, the entries it has submitted, and the rest of the machine. -/
structure Machine (σ : Type) where
  ctrl : Controller
  submitted : List SubmissionQueueEntry
  world : σ

variable {σ : Type}

/-- `Controller::read` or `Controller::write`: the doorbell submits the entry in the slot, and the poll ends
    with what the controller answers to it. -/
def Machine.io (im : Image) (answer : SubmissionQueueEntry → σ → CompletionQueueEntry × σ) (call : IoCall)
    (m : Machine σ) : ErrorCode × Machine σ :=
  let slot := m.ctrl.ioSqTail
  let ctrl := m.ctrl.submitIo im call
  let e := ctrl.ioSq slot
  let (cqe, world) := answer e m.world
  let ctrl := { ctrl with ioCq := Function.update ctrl.ioCq ctrl.ioCqHead cqe }
  (call.returns cqe, ⟨ctrl.consumeIo, m.submitted ++ [e], world⟩)

/-- The board, with the driver's `read` and `write`. -/
def onRing (im : Image) (answer : SubmissionQueueEntry → σ → CompletionQueueEntry × σ)
    (B : StorageBoard (Machine σ)) : StorageBoard (Machine σ) :=
  { B with
    nvmeRead := fun phys lba count => Machine.io im answer (.read phys lba count)
    nvmeWrite := fun phys lba count => Machine.io im answer (.write phys lba count) }

variable {answer : SubmissionQueueEntry → σ → CompletionQueueEntry × σ} {B : StorageBoard (Machine σ)}

/-- Every call submits one entry, whatever is asked for. -/
theorem submitted_io (call : IoCall) (m : Machine σ) :
    (m.io im answer call).2.submitted = m.submitted ++ [call.entry im m.ctrl.hhdmOffset m.ctrl.ioSqTail] := by
  unfold Machine.io Controller.submitIo
  simp only [Function.update_self]

variable (im answer B) in
/-- **The thunk submits one entry** for a read or a write, which says everything but the number of blocks. -/
theorem submitted_nvmeSubmitThunk {req : StorageRequest} (hop : req.opCode = .read ∨ req.opCode = .write)
    (m : Machine σ) : ∃ e, (nvmeSubmitThunk (onRing im answer B) req m).2.submitted = m.submitted ++ [e]
      ∧ (e.Says req ↔ 1 ≤ req.count.toNat ∧ req.count.toNat ≤ 65536) := by
  unfold nvmeSubmitThunk
  rcases hop with hop | hop
  · refine ⟨_, by rw [hop]; exact submitted_io _ m, ?_⟩
    have hopcode : cdw0 0x02 m.ctrl.ioSqTail &&& 0xFF = 0x02 := cdw0_opcode (by decide) _
    have hcount := @entryFor_blockCount_iff im m.ctrl.hhdmOffset 0x02 m.ctrl.ioSqTail req.physAddr req.lba req.count
    rw [← hcount]
    exact ⟨fun h => h.2.2, fun h => ⟨Or.inl ⟨hop, hopcode⟩, entryFor_startLba .., h⟩⟩
  · refine ⟨_, by rw [hop]; exact submitted_io _ m, ?_⟩
    have hopcode : cdw0 0x01 m.ctrl.ioSqTail &&& 0xFF = 0x01 := cdw0_opcode (by decide) _
    have hcount := @entryFor_blockCount_iff im m.ctrl.hhdmOffset 0x01 m.ctrl.ioSqTail req.physAddr req.lba req.count
    rw [← hcount]
    exact ⟨fun h => h.2.2, fun h => ⟨Or.inr ⟨hop, hopcode⟩, entryFor_startLba .., h⟩⟩

/-! ## Exactness -/

/-- **What becomes of a request that is accepted**, among others before and after it: either the entry that is
    submitted for it says what it says, or none is submitted and it ends with an error. -/
def AsRequested (g : Gaossd (Machine σ)) (req : StorageRequest) : Prop :=
  ∀ (g₁ : Gaossd (Machine σ)) (later : List StorageRequest) (m : Machine σ),
    g.submitRequest req = (.success, g₁) →
      let m₁ := (g.serveAll g.queue m).2
      let (req', m₂) := g.serve req m₁
      ({ g₁ with queue := g₁.queue ++ later }.processQueue m).2.1[g.queue.length]? = some req'
        ∧ ((∃ e, m₂.submitted = m₁.submitted ++ [e] ∧ e.Says req)
          ∨ m₂.submitted = m₁.submitted ∧ req'.status ≠ .success)

variable {g : Gaossd (Machine σ)} {req : StorageRequest}

/-- The request is served at its place in the queue. -/
theorem served_at {g₁ : Gaossd (Machine σ)} (hsubmit : g.submitRequest req = (.success, g₁))
    (later : List StorageRequest) (m : Machine σ) :
    ({ g₁ with queue := g₁.queue ++ later }.processQueue m).2.1[g.queue.length]?
      = some (g.serve req (g.serveAll g.queue m).2).1 := by
  unfold Gaossd.submitRequest at hsubmit
  split at hsubmit
  · cases (Prod.mk.inj hsubmit).1
  · obtain ⟨-, rfl⟩ := Prod.mk.inj hsubmit
    unfold Gaossd.processQueue
    simp only [List.append_assoc, List.singleton_append]
    have hloop : ({ g with queue := g.queue ++ req :: later } : Gaossd (Machine σ)).serveAll = g.serveAll :=
      serveAll_congr rfl
    rw [hloop, serveAll_append, List.getElem?_append_right (by rw [length_serveAll]), length_serveAll, Nat.sub_self]
    rfl

/-- **Exactly the requests for 1 to `2 ^ 16` blocks are submitted as they are.** A request that is marked as
    completed is not looked at, and keeps its status. -/
theorem asRequested_iff (m₀ : Machine σ)
    (hmade : g.storageDevices = (gaossd (onRing im answer B) m₀).1.storageDevices)
    (hop : req.opCode = .read ∨ req.opCode = .write)
    (haccepted : req.deviceHandle.toNat < g.storageDevices.length) :
    AsRequested g req ↔ (req.completed = true ∧ req.status ≠ .success)
      ∨ (req.completed = false ∧ 1 ≤ req.count.toNat ∧ req.count.toNat ≤ 65536) := by
  -- the table is that of a driver that found the controller
  obtain ⟨name, hdevices⟩ : ∃ name,
      g.storageDevices = [⟨name, nvmeSubmitThunk (onRing im answer B), nvmeProcessThunk⟩] := by
    obtain ⟨g₀, m₁, hg₀⟩ : ∃ g₀ m₁, gaossd (onRing im answer B) m₀ = (g₀, m₁) := ⟨_, _, rfl⟩
    rw [hg₀] at hmade
    rcases gaossd_cases hg₀ with ⟨-, hnone, -⟩ | ⟨⟨-, honly⟩, -⟩
    · rw [hmade, hnone] at haccepted
      exact absurd haccepted (Nat.not_lt_zero _)
    · rw [hmade]
      exact honly
  have hhandle : req.deviceHandle = 0 := by
    rw [hdevices] at haccepted
    rw [← UInt64.toNat_inj]
    exact Nat.lt_one_iff.mp haccepted
  have hsubmit : g.submitRequest req = (.success, { g with queue := g.queue ++ [req] }) :=
    if_neg (Nat.not_le.mpr haccepted)
  unfold AsRequested
  by_cases hcompleted : req.completed = true
  · have hserve : ∀ m, g.serve req m = (req, m) := fun m => if_pos hcompleted
    simp only [hserve, hcompleted, true_and, Bool.true_eq_false, false_and, or_false]
    constructor
    · intro h
      obtain ⟨-, ⟨e, he, -⟩ | herror⟩ := h _ [] m₀ hsubmit
      · exact absurd he (by simp)
      · exact herror
    · intro herror g₁ later m hg₁
      rw [served_at hg₁, hserve]
      exact ⟨rfl, Or.inr herror⟩
  · have hnew : req.completed = false := by simpa using hcompleted
    have hserve := fun m => serve_nvme (s := m) hdevices hnew hhandle
    simp only [hnew, Bool.false_eq_true, false_and, false_or, true_and]
    constructor
    · intro h
      obtain ⟨e, he, hmeans⟩ := submitted_nvmeSubmitThunk im answer B hop
        (g.serveAll g.queue m₀).2
      obtain ⟨-, ⟨e', he', hmeans'⟩ | ⟨hnone, -⟩⟩ := h _ [] m₀ hsubmit
      · rw [hserve, he, List.append_cancel_left_eq, List.singleton_inj] at he'
        exact hmeans.mp (he' ▸ hmeans')
      · rw [hserve, he] at hnone
        exact absurd hnone (by simp)
    · intro hcount g₁ later m hg₁
      obtain ⟨e, he, hmeans⟩ := submitted_nvmeSubmitThunk im answer B hop
        (g.serveAll g.queue m).2
      refine ⟨served_at hg₁ later m, Or.inl ⟨e, ?_, hmeans.mpr hcount⟩⟩
      rw [hserve]
      exact he

/-- A machine with nothing on it but the controller. -/
def bareBoard : StorageBoard (Machine Unit) where
  pcieActive := fun _ => true
  findNvmeBar0 := fun m => (1, m)
  hhdmOffset := 0
  nvmeInit := fun _ _ m => (true, m)
  modelNumber := fun _ => []
  virtToPhys := fun _ v => v
  nvmeRead := fun _ _ _ m => (.success, m)
  nvmeWrite := fun _ _ _ m => (.success, m)
  identify := fun m => (true, m)
  identifyNamespace := fun m => (true, m)
  formatNamespace := fun m => (true, m)

/-- A machine where nothing was asked for yet. -/
def bareMachine : Machine Unit := ⟨.init, [], ()⟩

/-- A driver whose controller says yes to everything. -/
def bareDriver : Gaossd (Machine Unit) :=
  (gaossd (onRing ⟨none, 0, 0, 0, 0, 0⟩ (fun e w => (⟨0, 0, 0, 1, e.cid, 1⟩, w)) bareBoard) bareMachine).1

/-- A read of so many sectors. -/
def readRequest (count : UInt32) : StorageRequest :=
  { StorageRequest.init with deviceHandle := 0, count := count }

theorem asRequested_eight : AsRequested bareDriver (readRequest 8) :=
  (asRequested_iff bareMachine rfl (Or.inl rfl) (by decide)).mpr (Or.inr (by decide))

/-- A request for no blocks is submitted as one for 65536. -/
theorem not_asRequested_zero : ¬ AsRequested bareDriver (readRequest 0) := by
  intro h
  obtain ⟨-, ⟨e, he, hmeans⟩ | ⟨hnone, -⟩⟩ := h _ [] bareMachine rfl
  · have hcount : e.blockCount = 65536 := by
      have hone : [65536] = [e.blockCount] := congrArg (List.map SubmissionQueueEntry.blockCount) he
      exact (List.singleton_inj.mp hone).symm
    rw [hmeans.2.2] at hcount
    exact absurd hcount (by decide)
  · exact absurd (congrArg List.length hnone) (by decide)

end AlopexOS.Nvme
