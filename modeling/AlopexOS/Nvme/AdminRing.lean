import AlopexOS.Nvme.Controller

/-!
# `Nvme.AdminRing` — `init`, `reset` and the admin queues

A controller that is disabled starts again at slot 0, with the first phase. The driver's own counters are
assigned once, when the object is made. So the two stay in step as long as the controller is disabled only
while the driver's counters still are, or again are, those of the start.

## Contents
- **Both sides as a pair**: an admin step is a step of a queue pair.
- **In step.** `AtBoot`, `SteadyStep`, and what holds in every run of steady steps.
- **Out of step.** An `init` after an `init` that failed.
-/

namespace AlopexOS.Nvme

open QueuePair

variable {im : Image} {s s' : System}

/-! ## Both sides as a pair -/

/-- The admin queues, with the driver's counters and the controller's. -/
def System.adminPair (s : System) : Pair (AdminCommand × UInt64) SubmissionQueueEntry CompletionQueueEntry where
  sq := s.ctrl.adminSq
  cq := s.ctrl.adminCq
  tail := s.ctrl.sqTail
  head := s.ctrl.cqHead
  phase := s.ctrl.cqPhase
  turn := s.turn
  dev := s.admin

/-- The I/O queues, with the driver's counters and the controller's. -/
def System.ioPair (s : System) : Pair IoCall SubmissionQueueEntry CompletionQueueEntry where
  sq := s.ctrl.ioSq
  cq := s.ctrl.ioCq
  tail := s.ctrl.ioSqTail
  head := s.ctrl.ioCqHead
  phase := s.ctrl.ioCqPhase
  turn := s.ioTurn
  dev := s.io

/-- **An admin command is a round of a queue pair.** -/
theorem queueStep_pair {ev : QueueEvent} (hs : queueStep im s ev = some s') :
    QueuePair.step (adminProtocol im) s.adminPair ev = some s'.adminPair ∧ s'.ioPair = s.ioPair := by
  cases ev with
  | build call =>
      simp only [queueStep] at hs
      split at hs
      · rename_i cmd rest hturn hscript
        split at hs
        · rename_i hcall
          obtain rfl := Option.some.inj hs
          refine ⟨?_, rfl⟩
          simp only [QueuePair.step, System.adminPair, hturn, hcall]
          rfl
        · cases hs
      · cases hs
  | ring =>
      simp only [queueStep] at hs
      split at hs
      · rename_i call hturn
        obtain rfl := Option.some.inj hs
        refine ⟨?_, rfl⟩
        simp only [QueuePair.step, System.adminPair, hturn]
      · cases hs
  | fetch e =>
      simp only [queueStep] at hs
      split at hs
      · obtain ⟨d, hd, rfl⟩ := Option.map_eq_some_iff.mp hs
        refine ⟨?_, rfl⟩
        simp only [QueuePair.step, System.adminPair, adminProtocol, hd, Option.map_some]
      · cases hs
  | post e c =>
      obtain ⟨d, hd, rfl⟩ := Option.map_eq_some_iff.mp hs
      refine ⟨?_, rfl⟩
      simp only [QueuePair.step, System.adminPair, hd, Option.map_some]
  | wait =>
      simp only [queueStep] at hs
      split at hs
      · rename_i call hturn
        split at hs
        · rename_i hold
          obtain rfl := Option.some.inj hs
          refine ⟨?_, rfl⟩
          simp only [QueuePair.step, System.adminPair, hturn]
          exact if_pos hold
        · cases hs
      · cases hs
  | see =>
      simp only [queueStep] at hs
      split at hs
      · rename_i call hturn
        split at hs
        · rename_i hnew
          obtain rfl := Option.some.inj hs
          refine ⟨?_, rfl⟩
          simp only [QueuePair.step, System.adminPair, hturn]
          exact if_pos hnew
        · cases hs
      · cases hs
  | take c r =>
      simp only [queueStep] at hs
      split at hs
      · rename_i call hturn
        split at hs
        · rename_i hc
          obtain rfl := Option.some.inj hs
          refine ⟨?_, rfl⟩
          simp only [QueuePair.step, System.adminPair, hturn]
          exact if_pos hc
        · cases hs
      · cases hs

/-- What happened at the admin queues. -/
def queueEvents (events : List AdminEvent) : List QueueEvent :=
  events.filterMap fun
    | .queue ev => some ev
    | _ => none

theorem queueEvents_append_queue (events : List AdminEvent) (ev : QueueEvent) :
    queueEvents (events ++ [.queue ev]) = queueEvents events ++ [ev] := by
  simp [queueEvents]

/-! ## In step -/

/-- Nothing was called yet, and the controller has nothing to do. What firmware left of a controller that is
    enabled is not known. -/
structure AtBoot (s : System) : Prop where
  ctrl : s.ctrl = Controller.init
  script : s.script = []
  turn : s.turn = .idle
  ioTurn : s.ioTurn = .idle
  quiet : s.admin.fetchAt = s.admin.rung ∧ s.admin.pending = []
  disabled : s.enabled = false → s.admin = .fresh ∧ s.io = .fresh

/-- A step that disables the controller only while the driver's counters are those of the start. -/
def SteadyStep (im : Image) (s : System) (ev : AdminEvent) (s' : System) : Prop :=
  adminStep im s ev = some s'
    ∧ (ev = .disable → s.enabled = true → s.ctrl.sqTail = 0 ∧ s.ctrl.cqHead = 0 ∧ s.ctrl.cqPhase = 1)

/-- The driver's next step is to build an admin entry. -/
def System.Submitting (s : System) : Prop := s.turn = .idle ∧ ∃ cmd rest, s.script = .command cmd :: rest

/-- What should hold after every run. -/
structure AdminInStep (im : Image) (events : List AdminEvent) (s : System) : Prop where
  /-- At a submission the driver's counters are the controller's, which has nothing to do. -/
  counters : s.Submitting → s.admin.rung = s.ctrl.sqTail ∧ s.admin.fetchAt = s.ctrl.sqTail
    ∧ s.admin.postAt = s.ctrl.cqHead ∧ s.admin.postTag = s.ctrl.cqPhase ∧ s.admin.pending = []
  /-- For each doorbell the controller fetches the entry just built and answers it, and nothing else. -/
  rounds : ∃ (rounds : List (Round (AdminCommand × UInt64) CompletionQueueEntry))
    (st : Stage (AdminCommand × UInt64) CompletionQueueEntry) (slot : Nat),
    (queueEvents events).filter Event.busy
        = rounds.flatMap (Round.events (adminProtocol im)) ++ st.events (adminProtocol im) slot
      ∧ ∀ r ∈ rounds, answers (r.call.1.entry im r.call.2 r.slot) r.completion = true

/-- Until the controller is disabled for the first time, the driver has done nothing. -/
structure Unstarted (s : System) : Prop where
  tail : s.ctrl.sqTail = 0
  head : s.ctrl.cqHead = 0
  phase : s.ctrl.cqPhase = 1
  cq : s.ctrl.adminCq = fun _ => CompletionQueueEntry.zero
  turn : s.turn = .idle
  initialized : s.ctrl.initialized = false
  quiet : s.admin.fetchAt = s.admin.rung ∧ s.admin.pending = []
  disabled : s.enabled = false → s.admin = .fresh ∧ s.io = .fresh
  script : (s.ctrl.hasRegs = false ∧ s.script = []) ∨ ∃ rest, s.script = .disable :: rest

theorem AtBoot.unstarted (h : AtBoot s) : Unstarted s := by
  obtain ⟨hctrl, hscript, hturn, -, hquiet, hdisabled⟩ := h
  refine ⟨?_, ?_, ?_, ?_, hturn, ?_, hquiet, hdisabled, Or.inl ⟨?_, hscript⟩⟩
  · rw [hctrl]
    rfl
  · rw [hctrl]
    rfl
  · rw [hctrl]
    rfl
  · rw [hctrl]
    rfl
  · rw [hctrl]
    rfl
  · rw [hctrl]
    rfl

/-- Disabling the controller for the first time. -/
theorem Unstarted.disable {rest : List Action} (h : Unstarted s) (hscript : s.script = .disable :: rest)
    (hs : adminStep im s .disable = some s') : At (adminProtocol im) 0 .idle s'.adminPair := by
  have hturn := h.turn
  simp only [adminStep, hturn, hscript] at hs
  obtain rfl := Option.some.inj hs
  refine at_start h.tail h.head h.phase rfl ?_ ?_
  · show (if s.enabled = true then Device.fresh else s.admin) = .fresh
    split
    · rfl
    · rename_i hoff
      exact (h.disabled (by simpa using hoff)).1
  · intro i _
    show (s.ctrl.adminCq i).phase = 0
    rw [h.cq]
    show CompletionQueueEntry.zero.phase = 0
    decide

/-- Nothing else leads away from there. -/
theorem Unstarted.step {ev : AdminEvent} (h : Unstarted s) (hs : adminStep im s ev = some s') :
    Unstarted s' ∧ queueEvents [ev] = [] ∨ ev = .disable ∧ ∃ rest, s.script = .disable :: rest := by
  have hturn := h.turn
  cases ev with
  | start call =>
      simp only [adminStep, hturn] at hs
      rcases h.script with ⟨hregs, hscript⟩ | ⟨rest, hscript⟩
      · simp only [hscript] at hs
        cases call with
        | init bar0 hhdmOffset =>
            simp only [startCall] at hs
            split at hs
            · obtain rfl := Option.some.inj hs
              exact Or.inl ⟨h, rfl⟩
            · obtain rfl := Option.some.inj hs
              exact Or.inl ⟨⟨h.tail, h.head, h.phase, h.cq, hturn, h.initialized, h.quiet, h.disabled,
                Or.inr ⟨_, rfl⟩⟩, rfl⟩
        | reset => simp [startCall, hregs] at hs
        | identify => simp [startCall, hregs] at hs
        | identifyNamespace => simp [startCall, hregs] at hs
        | formatNamespace => simp [startCall, hregs] at hs
        | namespaceAttach => simp [startCall, hregs] at hs
        | createIoQueues => simp [startCall, hregs] at hs
      · simp [hscript] at hs
  | disable =>
      rcases h.script with ⟨-, hscript⟩ | hscript
      · simp [adminStep, hturn, hscript] at hs
      · exact Or.inr ⟨rfl, hscript⟩
  | enable ready =>
      rcases h.script with ⟨-, hscript⟩ | ⟨rest, hscript⟩
      · simp [adminStep, hturn, hscript] at hs
      · simp [adminStep, hturn, hscript] at hs
  | markInitialized =>
      rcases h.script with ⟨-, hscript⟩ | ⟨rest, hscript⟩
      · simp [adminStep, hturn, hscript] at hs
      · simp [adminStep, hturn, hscript] at hs
  | queue ev =>
      cases ev with
      | build call =>
          rcases h.script with ⟨-, hscript⟩ | ⟨rest, hscript⟩
          · simp [adminStep, queueStep, hturn, hscript] at hs
          · simp [adminStep, queueStep, hturn, hscript] at hs
      | fetch e => simp [adminStep, queueStep, Device.fetch, h.quiet.1] at hs
      | post e c => simp [adminStep, queueStep, Device.post, h.quiet.2] at hs
      | ring => simp [adminStep, queueStep, hturn] at hs
      | wait => simp [adminStep, queueStep, hturn] at hs
      | see => simp [adminStep, queueStep, hturn] at hs
      | take c r => simp [adminStep, queueStep, hturn] at hs

/-- **What an admin step does to the two sides**, and to those of the I/O queues. -/
theorem adminStep_pair {ev : AdminEvent} (hs : adminStep im s ev = some s') :
    (∃ q, ev = .queue q ∧ QueuePair.step (adminProtocol im) s.adminPair q = some s'.adminPair
        ∧ s'.ioPair = s.ioPair)
      ∨ (ev = .disable ∧ s.turn = .idle
          ∧ s'.adminPair = { s.adminPair with dev := if s.enabled = true then .fresh else s.admin }
          ∧ s'.ioPair = { s.ioPair with dev := if s.enabled = true then .fresh else s.io })
      ∨ (ev ≠ .disable ∧ queueEvents [ev] = [] ∧ s'.adminPair = s.adminPair ∧ s'.ioPair = s.ioPair) := by
  cases ev with
  | queue q =>
      obtain ⟨hpair, hio⟩ := queueStep_pair hs
      exact Or.inl ⟨q, rfl, hpair, hio⟩
  | disable =>
      simp only [adminStep] at hs
      split at hs
      · rename_i rest hturn hscript
        obtain rfl := Option.some.inj hs
        refine Or.inr (Or.inl ⟨rfl, hturn, ?_, rfl⟩)
        simp only [System.adminPair, hturn]
      · cases hs
  | enable ready =>
      simp only [adminStep] at hs
      split at hs
      · rename_i rest hturn hscript
        obtain rfl := Option.some.inj hs
        refine Or.inr (Or.inr ⟨by simp, rfl, ?_, rfl⟩)
        simp only [System.adminPair, hturn]
      · cases hs
  | markInitialized =>
      simp only [adminStep] at hs
      split at hs
      · rename_i rest hturn hscript
        obtain rfl := Option.some.inj hs
        refine Or.inr (Or.inr ⟨by simp, rfl, ?_, rfl⟩)
        simp only [System.adminPair, hturn]
      · cases hs
  | start call =>
      simp only [adminStep] at hs
      split at hs
      · refine Or.inr (Or.inr ⟨by simp, rfl, ?_⟩)
        unfold startCall at hs
        split at hs
        · split at hs
          · obtain rfl := Option.some.inj hs
            exact ⟨rfl, rfl⟩
          · obtain rfl := Option.some.inj hs
            exact ⟨rfl, rfl⟩
        · split at hs
          · obtain rfl := Option.some.inj hs
            exact ⟨rfl, rfl⟩
          · cases hs
      · cases hs

/-- The two sides after a run: not started, or in a round. -/
def Progress (im : Image) (events : List AdminEvent) (s : System) : Prop :=
  (Unstarted s ∧ queueEvents events = [])
    ∨ ∃ n rounds st, InStep (adminProtocol im) n rounds st (queueEvents events) s.adminPair

theorem queueEvents_append_other {ev : AdminEvent} (events : List AdminEvent)
    (hev : queueEvents [ev] = []) : queueEvents (events ++ [ev]) = queueEvents events := by
  unfold queueEvents at hev ⊢
  rw [List.filterMap_append, hev, List.append_nil]

theorem Progress.step {events : List AdminEvent} {ev : AdminEvent} (hs : SteadyStep im s ev s')
    (h : Progress im events s) : Progress im (events ++ [ev]) s' := by
  obtain ⟨hs, hsteady⟩ := hs
  rcases h with ⟨hun, hnone⟩ | ⟨n, rounds, st, hin⟩
  · -- the first disabling is where the counting begins
    rcases hun.step hs with ⟨hun', hev⟩ | ⟨rfl, rest, hscript⟩
    · exact Or.inl ⟨hun', (queueEvents_append_other events hev).trans hnone⟩
    · refine Or.inr ⟨0, [], .idle, hun.disable hscript hs, ?_, by simp⟩
      rw [queueEvents_append_other events rfl, hnone]
      rfl
  · rcases adminStep_pair hs with ⟨q, rfl, hq, -⟩ | ⟨rfl, hturn, hpair, -⟩ | ⟨-, hev, hpair, -⟩
    · rw [Progress, queueEvents_append_queue]
      rcases hin.step hq with ⟨st', hin'⟩ | ⟨r, -, hin'⟩
      · exact Or.inr ⟨n, rounds, st', hin'⟩
      · exact Or.inr ⟨n + 1, rounds ++ [r], .idle, hin'⟩
    · obtain rfl := hin.place.idle_of_turn hturn
      obtain ⟨hplace, hevents, hanswered⟩ := hin
      rw [Progress, queueEvents_append_other events rfl, hpair]
      by_cases hon : s.enabled = true
      · -- the controller starts again, and the counters are those of the start
        obtain ⟨htail, -, hphase⟩ := hsteady rfl hon
        rw [if_pos hon]
        exact Or.inr ⟨0, rounds, .idle, hplace.restart htail hphase, hevents, hanswered⟩
      · rw [if_neg hon]
        exact Or.inr ⟨n, rounds, .idle, hplace, hevents, hanswered⟩
    · rw [Progress, queueEvents_append_other events hev, hpair]
      exact Or.inr ⟨n, rounds, st, hin⟩

/-- **The driver and the controller stay in step** in every run in which the controller is disabled only while
    the driver's counters are those of the start. -/
theorem adminInStep_of_run {s₀ : System} {events : List AdminEvent} (hboot : AtBoot s₀)
    (hrun : Run (SteadyStep im) s₀ events s) : AdminInStep im events s := by
  have hprogress : Progress im events s :=
    hrun.history (fun _ _ _ _ hs h => h.step hs) (Or.inl ⟨hboot.unstarted, rfl⟩)
  rcases hprogress with ⟨hun, hnone⟩ | ⟨n, rounds, st, hplace, hevents, hanswered⟩
  · refine ⟨?_, [], .idle, 0, ?_, by simp⟩
    · rintro ⟨-, cmd, rest, hscript⟩
      rcases hun.script with ⟨-, hscript'⟩ | ⟨rest', hscript'⟩
      · exact absurd (hscript.symm.trans hscript') (by simp)
      · exact absurd (hscript.symm.trans hscript') (by simp)
    · rw [hnone]
      rfl
  · refine ⟨?_, rounds, st, _, hevents, hanswered⟩
    rintro ⟨hturn, -⟩
    -- a submission begins between two rounds
    obtain rfl := hplace.idle_of_turn hturn
    obtain ⟨hcounts, -, hpending⟩ := hplace
    exact ⟨hcounts.rung.trans hcounts.tail.symm, hcounts.fetchAt.trans hcounts.tail.symm,
      hcounts.postAt.trans hcounts.head.symm, hcounts.postTag.trans hcounts.phase.symm, hpending⟩

/-- The step, when it is a steady one. -/
def steadyStep (im : Image) (s : System) : AdminEvent → Option System
  | .disable =>
      if s.enabled = true → s.ctrl.sqTail = 0 ∧ s.ctrl.cqHead = 0 ∧ s.ctrl.cqPhase = 1 then
        adminStep im s .disable
      else none
  | ev => adminStep im s ev

theorem steadyStep_sound {ev : AdminEvent} (h : steadyStep im s ev = some s') : SteadyStep im s ev s' := by
  cases ev with
  | disable =>
      simp only [steadyStep] at h
      split at h
      · rename_i hsteady
        exact ⟨h, fun _ => hsteady⟩
      · cases h
  | start call => exact ⟨h, by simp⟩
  | enable ready => exact ⟨h, by simp⟩
  | markInitialized => exact ⟨h, by simp⟩
  | queue ev => exact ⟨h, by simp⟩

/-- A machine whose controller is off. -/
def coldBoot : System where
  ctrl := Controller.init
  script := []
  turn := .idle
  ioTurn := .idle
  enabled := false
  admin := .fresh
  io := .fresh

theorem atBoot_coldBoot : AtBoot coldBoot := ⟨rfl, rfl, rfl, rfl, ⟨rfl, rfl⟩, fun _ => ⟨rfl, rfl⟩⟩

/-- A kernel without an address response. -/
def plainImage : Image := ⟨none, 0x1000, 0x2000, 0x3000, 0x4000, 0x5000⟩

/-- A command that the controller completes with `status`, in the first pass. -/
def completed (cmd : AdminCommand) (slot : Nat) (status : UInt16) : List AdminEvent :=
  ((Round.mk (cmd, (0 : UInt64)) slot
    (CompletionQueueEntry.mk 0 0 0 0 (UInt16.ofNat slot) (status <<< 1 ||| 1))).events
      (adminProtocol plainImage)).map AdminEvent.queue

/-- A call of `init` that succeeds. -/
def initEvents : List AdminEvent :=
  [.start (.init 0x10000 0), .disable, .enable true] ++ completed .identify 0 0
    ++ completed .identifyNamespace 1 0 ++ completed .formatNamespace 2 0 ++ completed .namespaceAttach 3 0
    ++ completed .createIoCompletionQueue 4 0 ++ completed .createIoSubmissionQueue 5 0
    ++ [.markInitialized]

/-- A healthy boot, and a command that begins after it. -/
def healthyEvents : List AdminEvent := initEvents ++ [.start .formatNamespace]

theorem adminInStep_healthy :
    ∃ s : System, s.Submitting ∧ AdminInStep plainImage healthyEvents s := by
  have hcalls : (healthyEvents.foldlM (steadyStep plainImage) coldBoot).map
      (fun s : System => decide (s.turn = .idle ∧ s.script = [.command .formatNamespace])) = some true := by
    decide +kernel
  obtain ⟨s, hs, hend⟩ := Option.map_eq_some_iff.mp hcalls
  obtain ⟨hturn, hscript⟩ := of_decide_eq_true hend
  have hrun := Run.of_foldlM (fun _ _ _ => steadyStep_sound) .start hs
  exact ⟨s, ⟨hturn, _, _, hscript⟩, adminInStep_of_run atBoot_coldBoot hrun⟩

/-! ## Out of step -/

/-- `init` fails at Format NVM and is called again: the driver goes on at slot 3, the controller at slot 0. -/
def retryEvents : List AdminEvent :=
  [.start (.init 0x10000 0), .disable, .enable true] ++ completed .identify 0 0
    ++ completed .identifyNamespace 1 0 ++ completed .formatNamespace 2 1
    ++ [.start (.init 0x10000 0), .disable, .enable true]

/-- **After an `init` that failed, the next one is out of step.** -/
theorem retry_not_inStep :
    ¬ ∀ (im : Image) (s₀ s : System) (events : List AdminEvent), AtBoot s₀ →
      Run (fun s ev s' => adminStep im s ev = some s') s₀ events s → AdminInStep im events s := by
  intro hall
  have hcalls : (retryEvents.foldlM (adminStep plainImage) coldBoot).map
      (fun s : System => decide (s.turn = .idle ∧ s.script.head? = some (.command .identify)
        ∧ s.ctrl.sqTail = 3 ∧ s.admin.rung = 0)) = some true := by
    decide +kernel
  obtain ⟨s, hs, hend⟩ := Option.map_eq_some_iff.mp hcalls
  obtain ⟨hturn, hscript, htail, hrung⟩ := of_decide_eq_true hend
  have hrun := Run.of_foldlM (fun _ _ _ h => h) .start hs
  obtain ⟨rest, hscript⟩ : ∃ rest, s.script = .command .identify :: rest := by
    cases hlist : s.script with
    | nil => simp [hlist] at hscript
    | cons a rest => exact ⟨rest, by simpa [hlist] using hscript⟩
  have hcounters := (hall _ _ _ _ atBoot_coldBoot hrun).counters ⟨hturn, _, rest, hscript⟩
  rw [htail, hrung] at hcounters
  exact absurd hcounters.1 (by decide)

/-- What the controller fetched. -/
def fetches (events : List AdminEvent) : List SubmissionQueueEntry :=
  (queueEvents events).filterMap fun
    | .fetch e => some e
    | _ => none

/-- The doorbell after that has the controller fetch what it fetched before, Format NVM among it. -/
def refetchEvents : List AdminEvent :=
  retryEvents ++ [.queue (.build (.identify, 0)), .queue .ring]
    ++ (List.range 4).map fun slot => .queue (.fetch
      ((([.identify, .identifyNamespace, .formatNamespace, .identify] : List AdminCommand).getD slot
        .identify).entry plainImage 0 slot))

/-- **Format NVM is executed twice.** -/
theorem format_fetched_twice : ∃ s : System,
    Run (fun s ev s' => adminStep plainImage s ev = some s') coldBoot refetchEvents s
      ∧ (fetches refetchEvents).count (AdminCommand.formatNamespace.entry plainImage 0 2) = 2 := by
  have hcalls : (refetchEvents.foldlM (adminStep plainImage) coldBoot).isSome = true := by decide +kernel
  obtain ⟨s, hs⟩ := Option.isSome_iff_exists.mp hcalls
  have hrun := Run.of_foldlM (fun _ _ _ h => h) .start hs
  exact ⟨s, hrun, by decide +kernel⟩

end AlopexOS.Nvme
