import AlopexOS.Gaossd.Gaossd
import AlopexOS.Lib.Run
import Mathlib.Logic.Function.Basic
import Mathlib.Data.List.Nodup

/-!
# `Gaossd.Queue` — requests by address

The queue of a `gaossd` holds pointers to requests that belong to its callers. The same request may be in
it twice, a request may be submitted again after it was served, and what the loop of `process_queue` writes
into a request it reads again at the next pointer to it. Here the requests are in memory, by address, and
the handlers note how they are called.

## Contents
- **Calls of handlers**, and a `gaossd` that notes them.
- **The queue**: `submitRequest` and `processQueue` on pointers.
- **One request.** What a round of the loop does.
- **Runs.** Every request that is accepted is served once, in the order of first submission.
- **Batches.** Several requests in one call, whose status is that of the last.
-/

namespace AlopexOS.Storage

variable {σ : Type}

/-! ## Calls of handlers -/

/-- A call of a handler of a device, and the address of the request it is for. -/
inductive HandlerCall where
  | submitted (request device : Nat) (passed : StorageRequest) (result : ErrorCode)
  | processed (request device : Nat) (result : ErrorCode)

/-- The address of the request that a handler was called for. -/
def HandlerCall.request : HandlerCall → Nat
  | submitted request _ _ _ => request
  | processed request _ _ => request

/-- The device, with handlers that note their calls. -/
def PhysicalStorage.recording (device : PhysicalStorage σ) (request index : Nat) :
    PhysicalStorage (σ × List HandlerCall) where
  name := device.name
  submitFn req s :=
    let (result, world) := device.submitFn req s.1
    (result, world, s.2 ++ [.submitted request index req result])
  processFn s :=
    let (result, world) := device.processFn s.1
    (result, world, s.2 ++ [.processed request index result])

/-- The same driver, its devices keeping a record of their calls. -/
def Gaossd.recording (g : Gaossd σ) (request : Nat) : Gaossd (σ × List HandlerCall) where
  storageDevices := g.storageDevices.mapIdx fun i device => device.recording request i
  queue := g.queue

/-! ## The queue -/

/-- The queue of pointers, the requests of the callers, and what the handlers work on. -/
structure Pending (σ : Type) where
  world : σ
  calls : List HandlerCall
  requests : Nat → StorageRequest
  queue : List Nat

/-- Nothing submitted yet. -/
def Pending.init (world : σ) (requests : Nat → StorageRequest) : Pending σ := ⟨world, [], requests, []⟩

/-- `submit_request`. -/
def Pending.submitRequest (g : Gaossd σ) (t : Pending σ) (request : Nat) : ErrorCode × Pending σ :=
  if g.storageDevices.length ≤ (t.requests request).deviceHandle.toNat then (.invalidParameters, t)
  else (.success, { t with queue := t.queue ++ [request] })

/-- One round of `process_queue`, on the request the pointer points at. -/
def Pending.serveAt (g : Gaossd σ) (t : Pending σ) (request : Nat) : Pending σ :=
  let (req, world, calls) := (g.recording request).serve (t.requests request) (t.world, t.calls)
  { t with world := world, calls := calls, requests := Function.update t.requests request req }

/-- `process_queue`. -/
def Pending.processQueue (g : Gaossd σ) (t : Pending σ) : ErrorCode × Pending σ :=
  if t.queue.isEmpty then (.success, t)
  else (.success, { t.queue.foldl (serveAt g) t with queue := [] })

/-- The calls of the two functions, with what they return. -/
inductive QueueCall where
  | submit (request : Nat) (result : ErrorCode)
  | process (result : ErrorCode)

/-- The call returns that result. -/
def Pending.Calls (g : Gaossd σ) (t : Pending σ) : QueueCall → Pending σ → Prop
  | .submit request result, t' => t.submitRequest g request = (result, t')
  | .process result, t' => t.processQueue g = (result, t')

/-! ## First submissions -/

/-- Add `p` unless it is there. -/
def addNew (seen : List Nat) (p : Nat) : List Nat := if p ∈ seen then seen else seen ++ [p]

/-- Each element once, in the order in which they come first. -/
def firsts (ps : List Nat) : List Nat := ps.foldl addNew []

theorem nodup_addNew {seen : List Nat} (h : seen.Nodup) (p : Nat) : (addNew seen p).Nodup := by
  unfold addNew
  split
  · exact h
  · rename_i hp
    exact List.nodup_append.mpr ⟨h, List.nodup_singleton p, fun a ha b hb hab =>
      hp (List.mem_singleton.mp hb ▸ hab ▸ ha)⟩

theorem nodup_foldl_addNew {seen : List Nat} (h : seen.Nodup) (ps : List Nat) :
    (ps.foldl addNew seen).Nodup := by
  induction ps generalizing seen with
  | nil => exact h
  | cons p ps ih => exact ih (nodup_addNew h p)

theorem mem_addNew {seen : List Nat} {p q : Nat} : q ∈ addNew seen p ↔ q ∈ seen ∨ q = p := by
  unfold addNew
  split
  · rename_i hp
    exact ⟨Or.inl, fun h => h.elim id fun he => he ▸ hp⟩
  · simp

theorem prefix_foldl_addNew (ps seen : List Nat) : seen <+: ps.foldl addNew seen := by
  induction ps generalizing seen with
  | nil => exact List.prefix_rfl
  | cons p ps ih =>
      have hnew : seen <+: addNew seen p := by
        unfold addNew
        split
        · exact List.prefix_rfl
        · exact List.prefix_append _ _
      exact hnew.trans (ih (addNew seen p))

theorem mem_foldl_addNew {ps seen : List Nat} {q : Nat} :
    q ∈ ps.foldl addNew seen ↔ q ∈ seen ∨ q ∈ ps := by
  induction ps generalizing seen with
  | nil => simp
  | cons p ps ih => rw [List.foldl_cons, ih, mem_addNew, List.mem_cons, or_assoc]

/-! ## One request -/

/-- What becomes of a request that is served: the calls of the handlers of its device, and the request
    afterwards. -/
inductive Outcome (p : Nat) (req : StorageRequest) : StorageRequest → List HandlerCall → Prop
  | refused (status : ErrorCode) (h : status ≠ .success) :
      Outcome p req { req with status := status, completed := true }
        [.submitted p req.deviceHandle.toNat req status]
  | processed (status : ErrorCode) :
      Outcome p req { req with status := status, completed := true }
        [.submitted p req.deviceHandle.toNat req .success,
          .processed p req.deviceHandle.toNat status]

namespace Outcome

variable {p : Nat} {req req' : StorageRequest} {log : List HandlerCall}

theorem completed (h : Outcome p req req' log) : req'.completed = true := by
  cases h <;> rfl

theorem deviceHandle (h : Outcome p req req' log) : req'.deviceHandle = req.deviceHandle := by
  cases h <;> rfl

theorem request (h : Outcome p req req' log) : ∀ e ∈ log, e.request = p := by
  intro e he
  cases h with
  | refused status _ =>
      rw [List.mem_singleton.mp he]
      rfl
  | processed status =>
      simp only [List.mem_cons, List.not_mem_nil, or_false] at he
      rcases he with rfl | rfl
      · rfl
      · rfl

end Outcome

namespace Pending

variable {g : Gaossd σ} {t t' : Pending σ} {p : Nat} {served : List Nat}

/-- **A round of the loop**: nothing for a request that is completed, else an outcome. -/
theorem serveAt_cases (hh : (t.requests p).deviceHandle.toNat < g.storageDevices.length) :
    ((t.requests p).completed = true ∧ t.serveAt g p = t)
    ∨ (t.requests p).completed = false
      ∧ ∃ req log, Outcome p (t.requests p) req log ∧ (t.serveAt g p).calls = t.calls ++ log
        ∧ (t.serveAt g p).requests = Function.update t.requests p req
        ∧ (t.serveAt g p).queue = t.queue := by
  unfold serveAt Gaossd.serve
  by_cases hc : (t.requests p).completed = true
  · refine Or.inl ⟨hc, ?_⟩
    simp only [hc, if_true, Function.update_eq_self]
  · refine Or.inr ⟨by simpa using hc, ?_⟩
    obtain ⟨device, hdevice⟩ : ∃ device,
        g.storageDevices[(t.requests p).deviceHandle.toNat]? = some device :=
      ⟨_, List.getElem?_eq_getElem hh⟩
    have hget : (g.recording p).storageDevices[(t.requests p).deviceHandle.toNat]?
        = some (device.recording p (t.requests p).deviceHandle.toNat) := by
      simp [Gaossd.recording, hdevice]
    simp only [hc, Bool.false_eq_true, if_false, hget]
    split
    · -- the submit handler is content, and the process handler is called
      rename_i s₁ hsubmit
      obtain ⟨hresult, rfl⟩ := Prod.mk.inj hsubmit
      refine ⟨_, _, .processed _, ?_, rfl, trivial⟩
      simp only [PhysicalStorage.recording, List.append_assoc, List.cons_append, List.nil_append, hresult]
    · rename_i status s₁ hne hsubmit
      obtain ⟨rfl, rfl⟩ := Prod.mk.inj hsubmit
      exact ⟨_, _, .refused _ hne, rfl, rfl, trivial⟩

/-- The requests `served` have had their outcome, one after the other, and the others are as they were. -/
structure Served (g : Gaossd σ) (requests : Nat → StorageRequest) (t : Pending σ) (served : List Nat) :
    Prop where
  outcome : ∃ log : Nat → List HandlerCall, t.calls = served.flatMap log
    ∧ ∀ p ∈ served, Outcome p (requests p) (t.requests p) (log p)
  others : ∀ p, p ∉ served → t.requests p = requests p
  accepted : ∀ p ∈ served, (requests p).deviceHandle.toNat < g.storageDevices.length

variable {requests : Nat → StorageRequest} {ps : List Nat}

/-- A request that `process_queue` may meet: it was accepted, and not completed when it was submitted. -/
def Fresh (g : Gaossd σ) (requests : Nat → StorageRequest) (p : Nat) : Prop :=
  (requests p).deviceHandle.toNat < g.storageDevices.length ∧ (requests p).completed = false

/-- Serving never changes the handle. -/
theorem Served.deviceHandle (hs : t.Served g requests served) (p : Nat) :
    (t.requests p).deviceHandle = (requests p).deviceHandle := by
  by_cases hp : p ∈ served
  · obtain ⟨log, _, hout⟩ := hs.outcome
    exact (hout p hp).deviceHandle
  · rw [hs.others p hp]

theorem Served.completed (hs : t.Served g requests served) (hp : p ∈ served) :
    (t.requests p).completed = true := by
  obtain ⟨log, _, hout⟩ := hs.outcome
  exact (hout p hp).completed

/-- The handlers were called for requests that are served. -/
theorem Served.request_mem (hs : t.Served g requests served) {e : HandlerCall} (he : e ∈ t.calls) :
    e.request ∈ served := by
  obtain ⟨log, hcalls, hout⟩ := hs.outcome
  rw [hcalls] at he
  obtain ⟨p, hp, hmem⟩ := List.mem_flatMap.mp he
  rw [(hout p hp).request e hmem]
  exact hp

/-- **A round of the loop** serves its request unless it was served before. -/
theorem Served.serveAt (hs : t.Served g requests served) (hp : Fresh g requests p) :
    (t.serveAt g p).Served g requests (addNew served p) := by
  have hhandle := hs.deviceHandle p
  obtain ⟨hdone, hsame⟩ | ⟨hnew, req, log, hout, hcalls, hreqs, _⟩ :=
    serveAt_cases (g := g) (t := t) (p := p) (by rw [hhandle]; exact hp.1)
  · -- the request is completed, so it was served
    have hmem : p ∈ served := by
      by_contra hno
      rw [hs.others p hno, hp.2] at hdone
      cases hdone
    rw [hsame, addNew, if_pos hmem]
    exact hs
  · -- the request is new, and its outcome comes after those before it
    have hno : p ∉ served := by
      intro hmem
      rw [hs.completed hmem] at hnew
      cases hnew
    rw [hs.others p hno] at hout
    obtain ⟨logs, hlogs, houts⟩ := hs.outcome
    have hne : ∀ q ∈ served, q ≠ p := fun q hq he => hno (he ▸ hq)
    rw [addNew, if_neg hno]
    refine ⟨⟨Function.update logs p log, ?_, ?_⟩, ?_, ?_⟩
    · have hold : served.flatMap (Function.update logs p log) = served.flatMap logs :=
        List.flatMap_congr fun q hq => Function.update_of_ne (hne q hq) _ _
      rw [hcalls, hlogs, List.flatMap_append, hold, List.flatMap_singleton, Function.update_self]
    · intro q hq
      rw [hreqs]
      rcases List.mem_append.mp hq with hq | hq
      · rw [Function.update_of_ne (hne q hq), Function.update_of_ne (hne q hq)]
        exact houts q hq
      · rw [List.mem_singleton.mp hq, Function.update_self, Function.update_self]
        exact hout
    · intro q hq
      rw [List.mem_append, List.mem_singleton, not_or] at hq
      rw [hreqs, Function.update_of_ne hq.2]
      exact hs.others q hq.1
    · intro q hq
      rcases List.mem_append.mp hq with hq | hq
      · exact hs.accepted q hq
      · rw [List.mem_singleton.mp hq]
        exact hp.1

/-- **The loop** serves what is in the queue and was not served before, in its order. -/
theorem Served.foldl (hs : t.Served g requests served) (hps : ∀ p ∈ ps, Fresh g requests p) :
    (ps.foldl (Pending.serveAt g) t).Served g requests (ps.foldl addNew served) := by
  induction ps generalizing t served with
  | nil => exact hs
  | cons p ps ih =>
      exact ih (hs.serveAt (hps p (by simp))) fun q hq => hps q (List.mem_cons_of_mem _ hq)

/-! ## Runs -/

/-- The addresses of the requests that were accepted, in order. -/
def accepted (ops : List QueueCall) : List Nat :=
  ops.filterMap fun
    | .submit p .success => some p
    | _ => none

/-- What holds after any calls: some of the requests that were accepted are served, the others wait. -/
structure Progress (g : Gaossd σ) (requests : Nat → StorageRequest) (ops : List QueueCall) (t : Pending σ)
    (served : List Nat) : Prop where
  done : t.Served g requests served
  nodup : served.Nodup
  waiting : ∀ p ∈ t.queue, Fresh g requests p
  order : t.queue.foldl addNew served = firsts (accepted ops)
  emptied : ∀ result, ops.getLast? = some (.process result) → t.queue = []
  rejected : ∀ p result, .submit p result ∈ ops → result ≠ .success →
    g.storageDevices.length ≤ (requests p).deviceHandle.toNat

theorem progress_init (world : σ) : Progress g requests [] (Pending.init world requests) [] where
  done := ⟨⟨fun _ => [], rfl, fun _ hp => absurd hp List.not_mem_nil⟩, fun _ _ => rfl,
    fun _ hp => absurd hp List.not_mem_nil⟩
  nodup := List.nodup_nil
  waiting _ hp := absurd hp List.not_mem_nil
  order := rfl
  emptied _ _ := rfl
  rejected _ _ hop := absurd hop List.not_mem_nil

variable {ops : List QueueCall} {result : ErrorCode}

/-- **`submit_request`** accepts a request exactly if there is a device for its handle. -/
theorem Progress.submit (h : Progress g requests ops t served)
    (hnew : (requests p).completed = false) (hs : t.submitRequest g p = (result, t')) :
    Progress g requests (ops ++ [.submit p result]) t' served := by
  have hhandle := h.done.deviceHandle p
  unfold submitRequest at hs
  rw [hhandle] at hs
  have hlast : ∀ r, (ops ++ [QueueCall.submit p result]).getLast? = some (.process r) → t'.queue = [] := by
    intro r hr
    rw [List.getLast?_append] at hr
    cases hr
  split at hs
  · rename_i hge
    obtain ⟨rfl, rfl⟩ := Prod.mk.inj hs
    refine ⟨h.done, h.nodup, h.waiting, ?_, hlast, ?_⟩
    · rw [h.order, accepted, accepted, List.filterMap_append]
      simp only [List.filterMap_cons, List.filterMap_nil, List.append_nil]
    · intro q r hop hr
      rcases List.mem_append.mp hop with hop | hop
      · exact h.rejected q r hop hr
      · obtain ⟨rfl, _⟩ := QueueCall.submit.inj (List.mem_singleton.mp hop)
        exact hge
  · rename_i hlt
    obtain ⟨rfl, rfl⟩ := Prod.mk.inj hs
    refine ⟨⟨h.done.outcome, h.done.others, h.done.accepted⟩, h.nodup, ?_, ?_, hlast, ?_⟩
    · intro q hq
      rcases List.mem_append.mp hq with hq | hq
      · exact h.waiting q hq
      · rw [List.mem_singleton.mp hq]
        exact ⟨Nat.lt_of_not_le hlt, hnew⟩
    · have hacc : accepted (ops ++ [.submit p .success]) = accepted ops ++ [p] := by
        simp [accepted, List.filterMap_append]
      rw [hacc, firsts, List.foldl_append, List.foldl_append, h.order]
      rfl
    · intro q r hop hr
      rcases List.mem_append.mp hop with hop | hop
      · exact h.rejected q r hop hr
      · exact absurd (QueueCall.submit.inj (List.mem_singleton.mp hop)).2 hr

/-- **`process_queue`** serves what waits. -/
theorem Progress.process (h : Progress g requests ops t served) (hs : t.processQueue g = (result, t')) :
    Progress g requests (ops ++ [.process result]) t' (firsts (accepted ops)) := by
  have hacc : accepted (ops ++ [.process result]) = accepted ops := by
    simp [accepted, List.filterMap_append]
  have hdone := h.done.foldl h.waiting
  rw [h.order] at hdone
  have hnodup : (firsts (accepted ops)).Nodup := nodup_foldl_addNew List.nodup_nil _
  have hrejected : ∀ p r, .submit p r ∈ ops ++ [.process result] → r ≠ .success →
      g.storageDevices.length ≤ (requests p).deviceHandle.toNat := by
    intro p r hop
    rcases List.mem_append.mp hop with hop | hop
    · exact h.rejected p r hop
    · cases List.mem_singleton.mp hop
  unfold processQueue at hs
  split at hs
  · -- nothing waits
    rename_i hempty
    obtain ⟨rfl, rfl⟩ := Prod.mk.inj hs
    rw [List.isEmpty_iff] at hempty
    rw [hempty] at hdone
    exact ⟨hdone, hnodup, h.waiting, by rw [hempty, hacc]; rfl, fun _ _ => hempty,
      hrejected⟩
  · obtain ⟨rfl, rfl⟩ := Prod.mk.inj hs
    refine ⟨⟨hdone.outcome, hdone.others, hdone.accepted⟩, hnodup, ?_, ?_, fun _ _ => rfl, hrejected⟩
    · exact fun q hq => absurd hq List.not_mem_nil
    · rw [hacc]
      rfl

/-- **Requests are served once, in the order of first submission.** After any calls, the handlers were called
    for some of the accepted requests, for each once and to the end; after `process_queue` those are all of
    them, and nothing waits. A request that is not accepted is never executed, and stays as it is. -/
theorem served_once {world : σ} (hnew : ∀ p r, .submit p r ∈ ops → (requests p).completed = false)
    (hrun : Run (Calls g) (Pending.init world requests) ops t) :
    (∃ served log, served.Nodup ∧ served <+: firsts (accepted ops) ∧ t.calls = served.flatMap log
      ∧ (∀ p ∈ served, Outcome p (requests p) (t.requests p) (log p))
      ∧ ∀ r, ops.getLast? = some (.process r) →
          t.queue = [] ∧ served = firsts (accepted ops) ∧ ∀ p ∈ accepted ops, p ∈ served)
    ∧ ∀ p r, .submit p r ∈ ops → r ≠ .success →
        t.requests p = requests p ∧ ∀ e ∈ t.calls, e.request ≠ p := by
  obtain ⟨served, h⟩ : ∃ served, Progress g requests ops t served := by
    -- induction over the calls; what was submitted so far was submitted with `completed` unset
    revert hnew
    refine hrun.history (H := fun ops t => (∀ p r, .submit p r ∈ ops → (requests p).completed = false) →
      ∃ served, Progress g requests ops t served) ?_ fun _ => ⟨[], progress_init world⟩
    intro ops t op t' hop ih hnew
    obtain ⟨served, h⟩ := ih fun p r hmem => hnew p r (List.mem_append_left _ hmem)
    cases op with
    | submit p r => exact ⟨served, h.submit (hnew p r (by simp)) hop⟩
    | process r => exact ⟨_, h.process hop⟩
  obtain ⟨log, hcalls, hout⟩ := h.done.outcome
  constructor
  · refine ⟨served, log, h.nodup, ?_, hcalls, hout, ?_⟩
    · rw [← h.order]
      exact prefix_foldl_addNew _ _
    · intro r hr
      have hempty := h.emptied r hr
      have horder := h.order
      -- nothing waits, so what is served is all that was accepted
      rw [hempty] at horder
      refine ⟨hempty, horder, fun p hp => ?_⟩
      rw [show served = firsts (accepted ops) from horder]
      exact mem_foldl_addNew.mpr (Or.inr hp)
  · intro p r hop hr
    have hno : p ∉ served := fun hp => absurd (h.rejected p r hop hr) (Nat.not_le.mpr (h.done.accepted p hp))
    exact ⟨h.done.others p hno, fun e he heq => hno (heq ▸ h.done.request_mem he)⟩

/-- The call, when it returns what it is said to return. -/
def call (g : Gaossd σ) (t : Pending σ) : QueueCall → Option (Pending σ)
  | .submit request result =>
      if (t.submitRequest g request).1 = result then some (t.submitRequest g request).2 else none
  | .process result => if (t.processQueue g).1 = result then some (t.processQueue g).2 else none

theorem calls_of_call {op : QueueCall} (h : t.call g op = some t') : t.Calls g op t' := by
  cases op with
  | submit request result =>
      obtain ⟨hresult, hnext⟩ := Option.ite_none_right_eq_some.mp h
      exact Prod.ext hresult (Option.some.inj hnext)
  | process result =>
      obtain ⟨hresult, hnext⟩ := Option.ite_none_right_eq_some.mp h
      exact Prod.ext hresult (Option.some.inj hnext)

/-- A driver with one device, on which everything succeeds. -/
def oneDevice : Gaossd Unit := ⟨[⟨[], fun _ _ => (.success, ()), fun _ => (.success, ())⟩], []⟩

/-- Requests for that device, and one for a device that is not there. -/
def twoRequests (p : Nat) : StorageRequest :=
  { StorageRequest.init with deviceHandle := if p = 3 then 9 else 0 }

/-- Submissions, one of them for the second time, and `process_queue`. -/
def fourCalls : List QueueCall :=
  [.submit 1 .success, .submit 3 .invalidParameters, .submit 2 .success, .submit 1 .success,
    .process .success]

theorem served_once_each : ∃ t : Pending Unit, t.queue = [] ∧ t.requests 3 = twoRequests 3
    ∧ ∃ log : Nat → List HandlerCall, t.calls = log 1 ++ log 2 ∧ Outcome 1 (twoRequests 1) (t.requests 1) (log 1)
      ∧ Outcome 2 (twoRequests 2) (t.requests 2) (log 2) := by
  have hcalls : (fourCalls.foldlM (call oneDevice) (Pending.init () twoRequests)).isSome = true := by decide
  obtain ⟨t, ht⟩ := Option.isSome_iff_exists.mp hcalls
  have hrun : Run (Calls oneDevice) _ fourCalls t := Run.of_foldlM (fun _ _ _ => calls_of_call) .start ht
  obtain ⟨⟨served, log, _, _, hcalls, hout, hlast⟩, hrejected⟩ := served_once (fun _ _ _ => rfl) hrun
  obtain ⟨hempty, rfl, _⟩ := hlast .success rfl
  have hserved : firsts (accepted fourCalls) = [1, 2] := by decide
  rw [hserved] at hcalls hout
  refine ⟨t, hempty, (hrejected 3 .invalidParameters (by simp [fourCalls]) (by decide)).1, log, ?_,
    hout 1 (by simp), hout 2 (by simp)⟩
  rw [hcalls]
  simp

/-! ## Batches -/

/-- `submit_request` with any number of requests: a fold over the pack that keeps one status. -/
def submitRequests (g : Gaossd σ) (t : Pending σ) (requests : List Nat) : ErrorCode × Pending σ :=
  requests.foldl (fun (_, t) request => t.submitRequest g request) (.success, t)

/-- The requests submitted one by one, with what each call returns. -/
def submitEach (g : Gaossd σ) (t : Pending σ) : List Nat → List ErrorCode × Pending σ
  | [] => ([], t)
  | request :: rest =>
      let (result, t) := t.submitRequest g request
      let (results, t) := t.submitEach g rest
      (result :: results, t)

/-- A batch leaves the queue as single calls would, and succeeds exactly if each of them would. -/
def BatchReports (g : Gaossd σ) (t : Pending σ) (ps : List Nat) : Prop :=
  (t.submitRequests g ps).2 = (t.submitEach g ps).2
    ∧ ((t.submitRequests g ps).1 = .success ↔ ∀ result ∈ (t.submitEach g ps).1, result = .success)

/-- There is a device for the request. -/
def Accepts (g : Gaossd σ) (t : Pending σ) (p : Nat) : Prop :=
  (t.requests p).deviceHandle.toNat < g.storageDevices.length

instance : Decidable (Accepts g t p) := inferInstanceAs (Decidable (_ < _))

theorem submitRequest_success : (t.submitRequest g p).1 = .success ↔ Accepts g t p := by
  unfold submitRequest Accepts
  split
  · rename_i hge
    simp only [reduceCtorEq, false_iff]
    omega
  · rename_i hlt
    simp only [true_iff]
    omega

/-- A submission touches no request, so a later one is accepted as it would have been. -/
theorem requests_submitRequest : (t.submitRequest g p).2.requests = t.requests := by
  unfold submitRequest
  split <;> rfl

theorem accepts_submitRequest {q : Nat} : Accepts g (t.submitRequest g p).2 q ↔ Accepts g t q := by
  unfold Accepts
  rw [requests_submitRequest]

theorem submitEach_success :
    (∀ result ∈ (t.submitEach g ps).1, result = .success) ↔ ∀ p ∈ ps, Accepts g t p := by
  induction ps generalizing t with
  | nil => simp [submitEach]
  | cons p ps ih =>
      simp only [submitEach, List.forall_mem_cons, submitRequest_success, ih, accepts_submitRequest]

/-- The requests before the last one leave their mark on the queue only. -/
theorem submitRequests_concat : t.submitRequests g (ps ++ [p]) = (t.submitEach g ps).2.submitRequest g p := by
  suffices h : ∀ status, (ps ++ [p]).foldl (fun (_, t) request => t.submitRequest g request)
      ((status, t) : ErrorCode × Pending σ) = (t.submitEach g ps).2.submitRequest g p from h .success
  induction ps generalizing t with
  | nil => exact fun _ => rfl
  | cons q ps ih => exact fun _ => ih _

theorem submitEach_concat :
    (t.submitEach g (ps ++ [p])).2 = ((t.submitEach g ps).2.submitRequest g p).2 := by
  induction ps generalizing t with
  | nil => rfl
  | cons q ps ih => exact ih

theorem requests_submitEach : (t.submitEach g ps).2.requests = t.requests := by
  induction ps generalizing t with
  | nil => rfl
  | cons p ps ih => exact ih.trans requests_submitRequest

/-- **What a batch reports.** The queue is always what single calls would leave. The status is that of the
    last request: a rejection is reported exactly if the last request is rejected too. -/
theorem batchReports_iff : (t.submitRequests g ps).2 = (t.submitEach g ps).2
    ∧ (BatchReports g t ps ↔ (∀ p ∈ ps.getLast?, ¬ Accepts g t p) ∨ ∀ p ∈ ps, Accepts g t p) := by
  rcases List.eq_nil_or_concat' ps with rfl | ⟨front, last, rfl⟩
  · simp [BatchReports, submitRequests, submitEach]
  · have hqueue : (t.submitRequests g (front ++ [last])).2 = (t.submitEach g (front ++ [last])).2 := by
      rw [submitRequests_concat, submitEach_concat]
    have hstatus : (t.submitRequests g (front ++ [last])).1 = .success ↔ Accepts g t last := by
      rw [submitRequests_concat, submitRequest_success]
      unfold Accepts
      rw [requests_submitEach]
    refine ⟨hqueue, ?_⟩
    unfold BatchReports
    rw [hstatus, submitEach_success, and_iff_right hqueue]
    simp only [List.getLast?_append, List.getLast?_singleton, Option.some_or, Option.mem_some_iff, forall_eq',
      List.forall_mem_append, List.forall_mem_singleton]
    tauto

/-- A request without a device before one with a device: the batch says that both are queued. -/
theorem not_batchReports : ¬ BatchReports oneDevice (Pending.init () twoRequests) [3, 1] := by
  rintro ⟨_, hstatus⟩
  exact absurd (hstatus.mp rfl .invalidParameters (by decide)) (by decide)

end Pending

end AlopexOS.Storage
