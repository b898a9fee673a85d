import AlopexOS.Lib.QueuePair
import AlopexOS.Abtrfs.Format

/-!
# `Nvme.Controller` — the NVMe driver (`src/PCI/nvme/nvme.cpp`)

The driver makes one call at a time. A call builds an entry in a submission queue, rings the doorbell of
the queue, and polls the slot at its head of the completion queue. The controller works on its own, so the
system is a step relation: a step is one thing the driver or the controller does.

The two queues of the driver lie in static memory. Where that memory and the kernel are is part of the
`Image`; the registers that tell the controller about it, and the doorbells, are in `Nvme.Registers`.

## Contents
- **Entries**, and the commands that build them.
- **The driver's state**, and what a call does to it.
- **The system**: `adminStep` for `init`, `reset` and the admin commands, `ioStep` for `read` and `write`.
-/

namespace AlopexOS.Nvme

open QueuePair

/-! ## Entries -/

/-- `SubmissionQueueEntry`, 64 bytes. -/
structure SubmissionQueueEntry where
  cdw0 : UInt32
  nsid : UInt32
  reserved0 : UInt64
  mptr : UInt64
  dptr0 : UInt64
  dptr1 : UInt64
  cdw10 : UInt32
  cdw11 : UInt32
  cdw12 : UInt32
  cdw13 : UInt32
  cdw14 : UInt32
  cdw15 : UInt32
  deriving DecidableEq

/-- What `__builtin_memset` leaves of an entry. -/
def SubmissionQueueEntry.zero : SubmissionQueueEntry := ⟨0, 0, 0, 0, 0, 0, 0, 0, 0, 0, 0, 0⟩

/-- The command identifier of an entry. -/
def SubmissionQueueEntry.cid (e : SubmissionQueueEntry) : UInt16 := (e.cdw0 >>> 16).toUInt16

/-- `CompletionQueueEntry`, 16 bytes. -/
structure CompletionQueueEntry where
  dw0 : UInt32
  reserved : UInt32
  sqHead : UInt16
  sqId : UInt16
  commandId : UInt16
  status : UInt16
  deriving DecidableEq

/-- An entry of a queue that was cleared. -/
def CompletionQueueEntry.zero : CompletionQueueEntry := ⟨0, 0, 0, 0, 0, 0⟩

/-- `cqe.status & 0x1`. -/
def CompletionQueueEntry.phase (c : CompletionQueueEntry) : Nat := (c.status &&& 1).toNat

/-- `check_status`: the status field without the phase is 0. -/
def checkStatus (statusField : UInt16) : Bool := (statusField >>> 1) &&& 0x7FFF == 0

/-! ## Addresses -/

/-- Where the kernel was loaded and where its static data lies, as virtual addresses. -/
structure Image where
  /-- `exec_addr_request.response`: the virtual and the physical base. -/
  execAddr : Option (UInt64 × UInt64)
  ioSq : UInt64
  ioCq : UInt64
  identifyData : UInt64
  namespaceData : UInt64
  attachBuffer : UInt64

/-- `virt_to_phys`: by the mapping of the kernel image when the address is not below it. -/
def virtToPhys (im : Image) (hhdmOffset virt : UInt64) : UInt64 :=
  match im.execAddr with
  | some (kVirt, kPhys) => if kVirt ≤ virt then virt - kVirt + kPhys else direct
  | none => direct
where
  direct : UInt64 := if hhdmOffset ≤ virt then virt - hhdmOffset else virt

/-! ## Commands -/

/-- The first word: the opcode, and the slot as command identifier. -/
def cdw0 (opcode : UInt32) (cid : Nat) : UInt32 := opcode ||| ((UInt16.ofNat cid).toUInt32 <<< 16)

/-- The commands that go to the admin queue. -/
inductive AdminCommand where
  | identify
  | identifyNamespace
  | formatNamespace
  | namespaceAttach
  | createIoCompletionQueue
  | createIoSubmissionQueue
  deriving DecidableEq

namespace AdminCommand

def entry (im : Image) (hhdmOffset : UInt64) (cid : Nat) : AdminCommand → SubmissionQueueEntry
  | identify =>
      { SubmissionQueueEntry.zero with
        cdw0 := cdw0 0x06 cid, nsid := 0xFFFFFFFF
        dptr0 := virtToPhys im hhdmOffset im.identifyData, cdw10 := 0x01 }
  | identifyNamespace =>
      { SubmissionQueueEntry.zero with
        cdw0 := cdw0 0x06 cid, nsid := 1
        dptr0 := virtToPhys im hhdmOffset im.namespaceData, cdw10 := 0x00 }
  | formatNamespace =>
      { SubmissionQueueEntry.zero with cdw0 := cdw0 0x80 cid, nsid := 1, cdw10 := 0x00 }
  | namespaceAttach =>
      { SubmissionQueueEntry.zero with
        cdw0 := cdw0 0x15 cid, nsid := 1
        dptr0 := virtToPhys im hhdmOffset im.attachBuffer, cdw10 := 0x00 }
  | createIoCompletionQueue =>
      { SubmissionQueueEntry.zero with
        cdw0 := cdw0 0x05 cid, dptr0 := virtToPhys im hhdmOffset im.ioCq
        cdw10 := ((63 : UInt32) <<< 16) ||| 1, cdw11 := 0x1 }
  | createIoSubmissionQueue =>
      { SubmissionQueueEntry.zero with
        cdw0 := cdw0 0x01 cid, dptr0 := virtToPhys im hhdmOffset im.ioSq
        cdw10 := ((63 : UInt32) <<< 16) ||| 1, cdw11 := ((1 : UInt32) <<< 16) ||| 1 }

/-- What the function returns for a completion. `namespace_attach` takes "already attached" as success. -/
def returns (c : CompletionQueueEntry) : AdminCommand → Bool
  | namespaceAttach =>
      checkStatus c.status || ((c.status >>> 9) &&& 0x7 == 1 && (c.status >>> 1) &&& 0xFF == 0x18)
  | _ => checkStatus c.status

end AdminCommand

/-- A call of `Controller::read` or `Controller::write`. -/
inductive IoCall where
  | read (destPhys lba : UInt64) (count : UInt32)
  | write (srcPhys lba : UInt64) (count : UInt32)
  deriving DecidableEq

namespace IoCall

/-- The entry for an opcode. An address above the direct map's offset is taken for a virtual one. -/
def entryFor (im : Image) (hhdmOffset : UInt64) (opcode : UInt32) (cid : Nat) (phys lba : UInt64)
    (count : UInt32) : SubmissionQueueEntry :=
  { SubmissionQueueEntry.zero with
    cdw0 := cdw0 opcode cid
    nsid := 1
    dptr0 := if hhdmOffset < phys then virtToPhys im hhdmOffset phys else phys
    cdw10 := (lba &&& 0xFFFFFFFF).toUInt32
    cdw11 := ((lba >>> 32) &&& 0xFFFFFFFF).toUInt32
    cdw12 := (count - 1) &&& 0xFFFF }

def entry (im : Image) (hhdmOffset : UInt64) (cid : Nat) : IoCall → SubmissionQueueEntry
  | read destPhys lba count => entryFor im hhdmOffset 0x02 cid destPhys lba count
  | write srcPhys lba count => entryFor im hhdmOffset 0x01 cid srcPhys lba count

/-- What the call returns for a completion. -/
def returns (c : CompletionQueueEntry) (_ : IoCall) : ErrorCode :=
  if checkStatus c.status then .success else .genericError

end IoCall

/-! ## The driver -/

/-- `Controller`, with the queues in static memory. `hasRegs` says that `m_regs` is set. -/
structure Controller where
  hasRegs : Bool
  hhdmOffset : UInt64
  adminSq : Nat → SubmissionQueueEntry
  adminCq : Nat → CompletionQueueEntry
  ioSq : Nat → SubmissionQueueEntry
  ioCq : Nat → CompletionQueueEntry
  sqTail : Nat
  cqHead : Nat
  cqPhase : Nat
  ioSqTail : Nat
  ioCqHead : Nat
  ioCqPhase : Nat
  initialized : Bool

namespace Controller

/-- The object before anything was called: static storage is zero. -/
def init : Controller where
  hasRegs := false
  hhdmOffset := 0
  adminSq := fun _ => SubmissionQueueEntry.zero
  adminCq := fun _ => CompletionQueueEntry.zero
  ioSq := fun _ => SubmissionQueueEntry.zero
  ioCq := fun _ => CompletionQueueEntry.zero
  sqTail := 0
  cqHead := 0
  cqPhase := 1
  ioSqTail := 0
  ioCqHead := 0
  ioCqPhase := 1
  initialized := false

/-- An admin command up to its doorbell. -/
def submitAdmin (im : Image) (c : Controller) (cmd : AdminCommand) : Controller :=
  { c with
    adminSq := Function.update c.adminSq c.sqTail (cmd.entry im c.hhdmOffset c.sqTail)
    sqTail := (c.sqTail + 1) % 64 }

/-- An admin command from the matching phase on, up to the doorbell of the completion queue. -/
def consumeAdmin (c : Controller) : Controller :=
  let cqHead := (c.cqHead + 1) % 64
  { c with cqHead := cqHead, cqPhase := if cqHead = 0 then c.cqPhase ^^^ 1 else c.cqPhase }

/-- `read` or `write` up to the doorbell. -/
def submitIo (im : Image) (c : Controller) (call : IoCall) : Controller :=
  { c with
    ioSq := Function.update c.ioSq c.ioSqTail (call.entry im c.hhdmOffset c.ioSqTail)
    ioSqTail := (c.ioSqTail + 1) % 64 }

/-- `read` or `write` from the matching phase on, up to the doorbell of the completion queue. -/
def consumeIo (c : Controller) : Controller :=
  let ioCqHead := (c.ioCqHead + 1) % 64
  { c with
    ioCqHead := ioCqHead
    ioCqPhase := if ioCqHead = 0 then c.ioCqPhase ^^^ 1 else c.ioCqPhase }

end Controller

/-! ## The system -/

/-- A call from outside. -/
inductive AdminCall where
  | init (bar0 hhdmOffset : UInt64)
  | reset
  | identify
  | identifyNamespace
  | formatNamespace
  | namespaceAttach
  | createIoQueues
  deriving DecidableEq

/-- What is left to do of a call. -/
inductive Action where
  /-- Clear `CC.EN`, if it is set, and wait for the controller. -/
  | disable
  | enable
  | command (cmd : AdminCommand)
  | markInitialized
  deriving DecidableEq

/-- What a call does, in order; each part is reached when the ones before it returned true. -/
def AdminCall.script : AdminCall → List Action
  | init _ _ =>
      [.disable, .enable, .command .identify, .command .identifyNamespace, .command .formatNamespace,
        .command .namespaceAttach, .command .createIoCompletionQueue, .command .createIoSubmissionQueue,
        .markInitialized]
  | reset => [.disable, .enable]
  | identify => [.command .identify]
  | identifyNamespace => [.command .identifyNamespace]
  | formatNamespace => [.command .formatNamespace]
  | namespaceAttach => [.command .namespaceAttach]
  | createIoQueues => [.command .createIoCompletionQueue, .command .createIoSubmissionQueue]

/-- The driver, where it is in its calls, and the controller. -/
structure System where
  ctrl : Controller
  /-- What is left to do of the call in progress. -/
  script : List Action
  /-- Where the driver is in an admin command, with the offset it was built with. -/
  turn : Turn (AdminCommand × UInt64)
  /-- Where the driver is in `read` or `write`. -/
  ioTurn : Turn IoCall
  /-- `CC.EN`. -/
  enabled : Bool
  /-- The controller's side of the admin queues. -/
  admin : Device SubmissionQueueEntry
  /-- The controller's side of the I/O queues. -/
  io : Device SubmissionQueueEntry

/-- The controller answers with the identifier of the entry. -/
def answers (e : SubmissionQueueEntry) (c : CompletionQueueEntry) : Bool := c.commandId == e.cid

/-- The rules of the admin queues. -/
def adminProtocol (im : Image) :
    Protocol (AdminCommand × UInt64) SubmissionQueueEntry CompletionQueueEntry Bool where
  size := 64
  size_gt_one := by decide
  entry := fun call slot => call.1.entry im call.2 slot
  answers := answers
  tag := CompletionQueueEntry.phase
  result := fun call c => call.1.returns c

/-- The rules of the I/O queues. -/
def ioProtocol (im : Image) (hhdmOffset : UInt64) :
    Protocol IoCall SubmissionQueueEntry CompletionQueueEntry ErrorCode where
  size := 64
  size_gt_one := by decide
  entry := fun call slot => call.entry im hhdmOffset slot
  answers := answers
  tag := CompletionQueueEntry.phase
  result := fun call c => call.returns c

/-- What happens at the admin queues. -/
abbrev QueueEvent := Event (AdminCommand × UInt64) SubmissionQueueEntry CompletionQueueEntry Bool

/-- What happens at the I/O queues. -/
abbrev IoEvent := Event IoCall SubmissionQueueEntry CompletionQueueEntry ErrorCode

/-- What happens while the driver makes admin calls. -/
inductive AdminEvent where
  | start (call : AdminCall)
  | disable
  /-- The controller is ready, or reports a fatal status. -/
  | enable (ready : Bool)
  | markInitialized
  | queue (ev : QueueEvent)

/-- A call begins. Without registers only `init` can be called. -/
def startCall (s : System) (call : AdminCall) : Option System :=
  match call with
  | .init bar0 hhdmOffset =>
      -- `init` returns at once
      if s.ctrl.initialized = true ∨ bar0 = 0 then some s
      else
        some { s with
          ctrl := { s.ctrl with hhdmOffset := hhdmOffset, hasRegs := true }
          script := call.script }
  | _ => if s.ctrl.hasRegs = true then some { s with script := call.script } else none

/-- The steps of an admin command. -/
def queueStep (im : Image) (s : System) : QueueEvent → Option System
  | .build call =>
      match s.turn, s.script with
      | .idle, .command cmd :: _ =>
          if call = (cmd, s.ctrl.hhdmOffset) then
            some { s with ctrl := s.ctrl.submitAdmin im cmd, turn := .built call }
          else none
      | _, _ => none
  | .ring =>
      match s.turn with
      | .built call => some { s with admin := { s.admin with rung := s.ctrl.sqTail }, turn := .polling call }
      | _ => none
  | .fetch e =>
      if s.enabled = true then
        (s.admin.fetch 64 s.ctrl.adminSq e).map fun d => { s with admin := d }
      else none
  | .post e c =>
      (s.admin.post (adminProtocol im) e c).map fun d =>
        { s with
          admin := d
          ctrl := { s.ctrl with adminCq := Function.update s.ctrl.adminCq s.admin.postAt c } }
  | .wait =>
      match s.turn with
      | .polling _ => if (s.ctrl.adminCq s.ctrl.cqHead).phase ≠ s.ctrl.cqPhase then some s else none
      | _ => none
  | .see =>
      match s.turn with
      | .polling call =>
          if (s.ctrl.adminCq s.ctrl.cqHead).phase = s.ctrl.cqPhase then
            some { s with turn := .matched call }
          else none
      | _ => none
  | .take c r =>
      match s.turn with
      | .matched call =>
          if c = s.ctrl.adminCq s.ctrl.cqHead ∧ r = call.1.returns c then
            -- the next part of the call, or `return false`
            some { s with
              ctrl := s.ctrl.consumeAdmin
              turn := .idle
              script := if r then s.script.tail else []
              admin := { s.admin with freed := s.ctrl.consumeAdmin.cqHead } }
          else none
      | _ => none

/-- An event on the admin side leads to the next state. -/
def adminStep (im : Image) (s : System) : AdminEvent → Option System
  | .start call =>
      match s.turn, s.script with
      | .idle, [] => startCall s call
      | _, _ => none
  | .disable =>
      match s.turn, s.script with
      | .idle, .disable :: rest =>
          -- a controller that is disabled forgets all its queues
          some { s with
            script := rest
            enabled := false
            admin := if s.enabled then .fresh else s.admin
            io := if s.enabled then .fresh else s.io }
      | _, _ => none
  | .enable ready =>
      match s.turn, s.script with
      | .idle, .enable :: rest =>
          -- the counters stay as they are
          some { s with enabled := true, script := if ready then rest else [] }
      | _, _ => none
  | .markInitialized =>
      match s.turn, s.script with
      | .idle, .markInitialized :: rest =>
          some { s with ctrl := { s.ctrl with initialized := true }, script := rest }
      | _, _ => none
  | .queue ev => queueStep im s ev

/-- The steps of `read` and `write`. -/
def ioStep (im : Image) (s : System) : IoEvent → Option System
  | .build call =>
      match s.ioTurn with
      | .idle => some { s with ctrl := s.ctrl.submitIo im call, ioTurn := .built call }
      | _ => none
  | .ring =>
      match s.ioTurn with
      | .built call =>
          some { s with io := { s.io with rung := s.ctrl.ioSqTail }, ioTurn := .polling call }
      | _ => none
  | .fetch e => (s.io.fetch 64 s.ctrl.ioSq e).map fun d => { s with io := d }
  | .post e c =>
      (s.io.post (ioProtocol im s.ctrl.hhdmOffset) e c).map fun d =>
        { s with io := d, ctrl := { s.ctrl with ioCq := Function.update s.ctrl.ioCq s.io.postAt c } }
  | .wait =>
      match s.ioTurn with
      | .polling _ => if (s.ctrl.ioCq s.ctrl.ioCqHead).phase ≠ s.ctrl.ioCqPhase then some s else none
      | _ => none
  | .see =>
      match s.ioTurn with
      | .polling call =>
          if (s.ctrl.ioCq s.ctrl.ioCqHead).phase = s.ctrl.ioCqPhase then
            some { s with ioTurn := .matched call }
          else none
      | _ => none
  | .take c r =>
      match s.ioTurn with
      | .matched call =>
          if c = s.ctrl.ioCq s.ctrl.ioCqHead ∧ r = call.returns c then
            some { s with
              ctrl := s.ctrl.consumeIo
              ioTurn := .idle
              io := { s.io with freed := s.ctrl.consumeIo.ioCqHead } }
          else none
      | _ => none

end AlopexOS.Nvme
