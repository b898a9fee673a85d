import AlopexOS.Abtrfs.Format

/-!
# `Gaossd.Gaossd` — the generic storage driver (`src/gaossd/gaossd.cpp`)

A `gaossd` finds the NVMe controller when it is made, keeps one table entry for it, and hands requests to it.
`AbtrFS::read_block` uses the one that is attached; `AbtrFS::write_block` makes a new one for every call.
What is asked of the board and of the NVMe driver is a parameter, over the states of the machine.

## Contents
- **Requests**, and the board.
- **`gaossd`**: construction, `submitRequest`, `processQueue`.
- **Blocks**: `readBlock` and `writeBlock` of `src/abtrfs/abtrfs.cpp`.
-/

namespace AlopexOS.Storage

/-! ## Requests -/

/-- `AlopexOS_OPCODE_storage`. -/
inductive StorageOpcode where
  | read | write | flush | identify | format
  deriving DecidableEq

/-- `AlopexOS_REQUEST_storage`. -/
structure StorageRequest where
  opCode : StorageOpcode
  deviceHandle : Handle
  lba : UInt64
  count : UInt32
  physAddr : UInt64
  status : ErrorCode
  completed : Bool

/-- A request as it is declared. -/
def StorageRequest.init : StorageRequest where
  opCode := .read
  deviceHandle := invalidHandle
  lba := 0
  count := 0
  physAddr := 0
  status := .success
  completed := false

/-- What the storage driver asks of the bus, the boot loader and the NVMe driver. -/
structure StorageBoard (σ : Type) where
  pcieActive : σ → Bool
  findNvmeBar0 : σ → UInt64 × σ
  /-- `hhdm_request.response->offset`, 0 without a response. -/
  hhdmOffset : UInt64
  nvmeInit : UInt64 → UInt64 → σ → Bool × σ
  /-- `mn` of the identify data, 40 bytes. -/
  modelNumber : σ → List UInt8
  virtToPhys : σ → UInt64 → UInt64
  nvmeRead : UInt64 → UInt64 → UInt32 → σ → ErrorCode × σ
  nvmeWrite : UInt64 → UInt64 → UInt32 → σ → ErrorCode × σ
  identify : σ → Bool × σ
  identifyNamespace : σ → Bool × σ
  formatNamespace : σ → Bool × σ

/-- `PhysicalStorage`, with the handlers it names. -/
structure PhysicalStorage (σ : Type) where
  name : List UInt8
  submitFn : StorageRequest → σ → ErrorCode × σ
  processFn : σ → ErrorCode × σ

/-- A `gaossd`: its devices, and the requests that wait. -/
structure Gaossd (σ : Type) where
  storageDevices : List (PhysicalStorage σ)
  queue : List StorageRequest

variable {σ : Type}

/-! ## `gaossd` -/

/-- `nvme_submit_thunk`. -/
def nvmeSubmitThunk (B : StorageBoard σ) (req : StorageRequest) (s : σ) : ErrorCode × σ :=
  match req.opCode with
  | .read => B.nvmeRead req.physAddr req.lba req.count s
  | .write => B.nvmeWrite req.physAddr req.lba req.count s
  | .identify =>
      match B.identify s with
      | (true, s) =>
          let (ok, s) := B.identifyNamespace s
          (if ok then .success else .genericError, s)
      | (false, s) => (.genericError, s)
  | .format =>
      let (ok, s) := B.formatNamespace s
      (if ok then .success else .genericError, s)
  | .flush => (.invalidParameters, s)

/-- `nvme_process_thunk`: the requests were served when they were submitted. -/
def nvmeProcessThunk (s : σ) : ErrorCode × σ := (.success, s)

/-- The name of the device: the model number without the blanks at its end, in 64 bytes. -/
def storageName (modelNumber : List UInt8) : List UInt8 :=
  let kept := ((modelNumber.take 40).reverse.dropWhile fun b => b ∈ [0x20, 0x09, 0x0D, 0x0A]).reverse
  kept ++ List.replicate (64 - kept.length) 0

/-- `register_device`; both handlers are there. -/
def Gaossd.registerDevice (g : Gaossd σ) (device : PhysicalStorage σ) : Gaossd σ :=
  { g with storageDevices := g.storageDevices ++ [device] }

/-- The constructor `gaossd()`. -/
def gaossd (B : StorageBoard σ) (s : σ) : Gaossd σ × σ :=
  let empty : Gaossd σ := ⟨[], []⟩
  if B.pcieActive s = true then
    let (bar0, s) := B.findNvmeBar0 s
    if bar0 ≠ 0 then
      match B.nvmeInit bar0 B.hhdmOffset s with
      | (true, s) =>
          (empty.registerDevice ⟨storageName (B.modelNumber s), nvmeSubmitThunk B, nvmeProcessThunk⟩, s)
      | (false, s) => (empty, s)
    else (empty, s)
  else (empty, s)

/-- `gaossd::submit_request`. -/
def Gaossd.submitRequest (g : Gaossd σ) (request : StorageRequest) : ErrorCode × Gaossd σ :=
  if g.storageDevices.length ≤ request.deviceHandle.toNat then (.invalidParameters, g)
  else (.success, { g with queue := g.queue ++ [request] })

/-- One round of `process_queue`. -/
def Gaossd.serve (g : Gaossd σ) (req : StorageRequest) (s : σ) : StorageRequest × σ :=
  if req.completed = true then (req, s)
  else
    match g.storageDevices[req.deviceHandle.toNat]? with
    | none => ({ req with status := .invalidParameters, completed := true }, s)
    | some device =>
        match device.submitFn req s with
        | (.success, s) =>
            let (status, s) := device.processFn s
            ({ req with status := status, completed := true }, s)
        | (status, s) => ({ req with status := status, completed := true }, s)

/-- The loop of `process_queue`, with the requests as it leaves them. -/
def Gaossd.serveAll (g : Gaossd σ) : List StorageRequest → σ → List StorageRequest × σ
  | [], s => ([], s)
  | req :: rest, s =>
      let (req, s) := g.serve req s
      let (rest, s) := g.serveAll rest s
      (req :: rest, s)

/-- `gaossd::process_queue`, with the requests as they are after it. -/
def Gaossd.processQueue (g : Gaossd σ) (s : σ) : ErrorCode × List StorageRequest × Gaossd σ × σ :=
  let (served, s) := g.serveAll g.queue s
  (.success, served, { g with queue := [] }, s)

/-! ## Blocks -/

/-- Hand the request to `ssd` and look at it afterwards; it is the last one of the queue. -/
def Gaossd.transfer (ssd : Gaossd σ) (req : StorageRequest) (s : σ) : Bool × Gaossd σ × σ :=
  match ssd.submitRequest req with
  | (.success, ssd) =>
      match ssd.processQueue s with
      | (.success, served, ssd, s) =>
          (served.getLast?.any fun r => r.completed && r.status == .success, ssd, s)
      | (_, _, ssd, s) => (false, ssd, s)
  | (_, ssd) => (false, ssd, s)

/-- The request for one block: 4096 bytes are 8 sectors of 512. -/
def blockRequest (opCode : StorageOpcode) (deviceHandle : Handle) (blockAddress physAddr : UInt64) :
    StorageRequest :=
  { StorageRequest.init with
    opCode := opCode, deviceHandle := deviceHandle, lba := blockAddress * 8, count := 8
    physAddr := physAddr }

/-- `AbtrFS::read_block` through the attached driver. -/
def readBlock (B : StorageBoard σ) (ssd : Gaossd σ) (deviceHandle : Handle) (blockAddress buffer : UInt64)
    (s : σ) : Bool × Gaossd σ × σ :=
  if deviceHandle = invalidHandle then (false, ssd, s)
  else ssd.transfer (blockRequest .read deviceHandle blockAddress (B.virtToPhys s buffer)) s

/-- `AbtrFS::write_block` through a driver made for the call. -/
def writeBlock (B : StorageBoard σ) (deviceHandle : Handle) (blockAddress buffer : UInt64) (s : σ) :
    Bool × σ :=
  if deviceHandle = invalidHandle then (false, s)
  else
    let req := blockRequest .write deviceHandle blockAddress (B.virtToPhys s buffer)
    let (ssd, s) := gaossd B s
    let (ok, _, s) := ssd.transfer req s
    (ok, s)

/-! ## What a call does -/

variable {B : StorageBoard σ} {s s' : σ} {g : Gaossd σ} {req : StorageRequest}

/-- A table with the NVMe device and nothing else, and no request that waits. -/
def Gaossd.OnlyNvme (B : StorageBoard σ) (g : Gaossd σ) : Prop :=
  g.queue = [] ∧ ∃ name, g.storageDevices = [⟨name, nvmeSubmitThunk B, nvmeProcessThunk⟩]

/-- A driver that was made just now has the NVMe device if `init` was successful, and nothing else. -/
theorem gaossd_cases (h : gaossd B s = (g, s')) :
    (g.queue = [] ∧ g.storageDevices = [] ∧ (s' = s ∨ s' = (B.findNvmeBar0 s).2
        ∨ ∃ bar0, B.nvmeInit bar0 B.hhdmOffset (B.findNvmeBar0 s).2 = (false, s')))
      ∨ g.OnlyNvme B ∧ ∃ bar0, B.nvmeInit bar0 B.hhdmOffset (B.findNvmeBar0 s).2 = (true, s') := by
  unfold gaossd at h
  dsimp only at h
  split at h
  · split at h
    · split at h
      · rename_i s₁ hinit
        obtain ⟨rfl, rfl⟩ := Prod.mk.inj h
        exact Or.inr ⟨⟨rfl, _, rfl⟩, _, hinit⟩
      · rename_i s₁ hinit
        obtain ⟨rfl, rfl⟩ := Prod.mk.inj h
        exact Or.inl ⟨rfl, rfl, Or.inr (Or.inr ⟨_, hinit⟩)⟩
    · obtain ⟨rfl, rfl⟩ := Prod.mk.inj h
      exact Or.inl ⟨rfl, rfl, Or.inr (Or.inl rfl)⟩
  · obtain ⟨rfl, rfl⟩ := Prod.mk.inj h
    exact Or.inl ⟨rfl, rfl, Or.inl rfl⟩

/-- Without devices no request is taken. -/
theorem transfer_no_device (hd : g.storageDevices = []) : g.transfer req s = (false, g, s) := by
  simp [Gaossd.transfer, Gaossd.submitRequest, hd]

/-- The loop looks at the table only, not at the queue. -/
theorem serveAll_congr {g' : Gaossd σ} (h : g'.storageDevices = g.storageDevices) :
    g'.serveAll = g.serveAll := by
  funext reqs s
  induction reqs generalizing s with
  | nil => rfl
  | cons req reqs ih =>
      have hserve : g'.serve req s = g.serve req s := by
        unfold Gaossd.serve
        rw [h]
      simp only [Gaossd.serveAll, hserve, ih]

/-- The loop comes to a request with what those before it have left. -/
theorem serveAll_append (earlier later : List StorageRequest) :
    g.serveAll (earlier ++ later) s = ((g.serveAll earlier s).1 ++ (g.serveAll later (g.serveAll earlier s).2).1,
      (g.serveAll later (g.serveAll earlier s).2).2) := by
  induction earlier generalizing s with
  | nil => rfl
  | cons req earlier ih => simp only [List.cons_append, Gaossd.serveAll, ih]

theorem length_serveAll (reqs : List StorageRequest) : (g.serveAll reqs s).1.length = reqs.length := by
  induction reqs generalizing s with
  | nil => rfl
  | cons req reqs ih => simp only [Gaossd.serveAll, List.length_cons, ih]

/-- The status is the one the controller gave; `process_fn` never fails. -/
theorem serve_nvme {name : List UInt8}
    (hd : g.storageDevices = [⟨name, nvmeSubmitThunk B, nvmeProcessThunk⟩])
    (hreq : req.completed = false) (hh : req.deviceHandle = 0) :
    g.serve req s = ({ req with status := (nvmeSubmitThunk B req s).1, completed := true },
      (nvmeSubmitThunk B req s).2) := by
  have hget : g.storageDevices[req.deviceHandle.toNat]?
      = some ⟨name, nvmeSubmitThunk B, nvmeProcessThunk⟩ := by
    rw [hd, hh]
    rfl
  unfold Gaossd.serve
  rw [if_neg (by simp [hreq])]
  simp only [hget]
  split
  · rename_i s₁ hsub
    rw [hsub]
    rfl
  · rename_i status s₁ _ hsub
    rw [hsub]

/-- **One request** to the NVMe device: it is served at once, and the driver is as it was. -/
theorem transfer_nvme (hg : g.OnlyNvme B) (hreq : req.completed = false) :
    g.transfer req s =
      if req.deviceHandle = 0 then
        ((nvmeSubmitThunk B req s).1 == .success, g, (nvmeSubmitThunk B req s).2)
      else (false, g, s) := by
  obtain ⟨hqueue, name, hdevices⟩ := hg
  have hzero : 1 ≤ req.deviceHandle.toNat ↔ ¬ req.deviceHandle = 0 := by
    rw [← UInt64.toNat_inj]
    exact Nat.one_le_iff_ne_zero
  unfold Gaossd.transfer Gaossd.submitRequest
  simp only [hdevices, List.length_singleton, hzero, hqueue, List.nil_append]
  by_cases hh : req.deviceHandle = 0
  · have hserve : Gaossd.serve { g with queue := [req] } req s = _ := serve_nvme hdevices hreq hh
    rw [hdevices] at hserve
    simp only [hh, not_true_eq_false, if_false, if_true, Gaossd.processQueue, Gaossd.serveAll, hserve,
      List.getLast?_singleton, Option.any_some, Bool.true_and]
    rw [← hdevices, ← hqueue]
  · simp only [hh, not_false_eq_true, if_true, if_false]

end AlopexOS.Storage
