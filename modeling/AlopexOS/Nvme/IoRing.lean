import AlopexOS.Nvme.AdminRing

/-!
# `Nvme.IoRing` — every sequence of `read` and `write`

`init` makes the I/O queues and does not use them. From there on each call of `read` or `write` is a round of
a queue pair: the controller fetches the entry the call built, and the call takes the completion of that
entry. The phase bit is all the driver looks at.

## Contents
- **Unused queues.** No admin step touches the driver's side of the I/O queues.
- **Calls as rounds.** `ioStep` is the step of a queue pair.
- **Runs.**
-/

namespace AlopexOS.Nvme

open QueuePair

variable {im : Image} {s s' s₀ s₁ : System}

/-! ## Unused queues -/

/-- The driver's side of the I/O queues is that of the object before any call. -/
structure IoUnused (p : Pair IoCall SubmissionQueueEntry CompletionQueueEntry) : Prop where
  cq : p.cq = fun _ => CompletionQueueEntry.zero
  tail : p.tail = 0
  head : p.head = 0
  phase : p.phase = 1
  turn : p.turn = .idle

/-- Nobody used the I/O queues; what firmware left is forgotten when the controller is first disabled. -/
def IoFresh (s : System) : Prop := IoUnused s.ioPair ∧ (s.io = .fresh ∨ Unstarted s)

theorem AtBoot.ioFresh (h : AtBoot s) : IoFresh s := by
  refine ⟨?_, Or.inr h.unstarted⟩
  obtain ⟨hctrl, -, -, hturn, -, -⟩ := h
  unfold System.ioPair
  rw [hctrl]
  exact ⟨rfl, rfl, rfl, rfl, hturn⟩

/-- A step that does not disable the controller leaves the I/O queues alone. -/
theorem IoFresh.congr {ev : AdminEvent} (hs : adminStep im s ev = some s') (hev : ev ≠ .disable)
    (hio : s'.ioPair = s.ioPair) (h : IoFresh s) : IoFresh s' := by
  obtain ⟨hunused, hdev⟩ := h
  refine ⟨hio ▸ hunused, ?_⟩
  rcases hdev with hfresh | hun
  · exact Or.inl ((congrArg Pair.dev hio).trans hfresh)
  · rcases hun.step hs with ⟨hun', -⟩ | ⟨he, -⟩
    · exact Or.inr hun'
    · exact absurd he hev

theorem IoFresh.step {ev : AdminEvent} (hs : adminStep im s ev = some s') (h : IoFresh s) : IoFresh s' := by
  rcases adminStep_pair hs with ⟨q, rfl, -, hio⟩ | ⟨rfl, -, -, hio⟩ | ⟨hev, -, -, hio⟩
  · exact h.congr hs (by simp) hio
  · obtain ⟨hunused, hdev⟩ := h
    have hnew : s'.io = if s.enabled = true then Device.fresh else s.io := congrArg Pair.dev hio
    refine ⟨?_, Or.inl ?_⟩
    · rw [hio]
      exact ⟨hunused.cq, hunused.tail, hunused.head, hunused.phase, hunused.turn⟩
    · rw [hnew]
      split
      · rfl
      · rename_i hoff
        rcases hdev with hfresh | hun
        · exact hfresh
        · exact (hun.disabled (by simpa using hoff)).2
  · exact h.congr hs hev hio

/-- **After a first `init`** the two sides are at the start. -/
theorem at_of_init {events : List AdminEvent} (hboot : AtBoot s₀)
    (hinit : Run (fun s ev s' => adminStep im s ev = some s') s₀ events s₁)
    (hdone : s₁.ctrl.initialized = true) :
    At (ioProtocol im s₁.ctrl.hhdmOffset) 0 .idle s₁.ioPair := by
  obtain ⟨hunused, hdev⟩ := hinit.invariant (fun _ _ _ hs h => IoFresh.step hs h) hboot.ioFresh
  have hfresh : s₁.io = .fresh := by
    rcases hdev with hfresh | hun
    · exact hfresh
    · -- `init` returned true, so it disabled the controller
      exact absurd (hun.initialized.symm.trans hdone) (by simp)
  refine at_start hunused.tail hunused.head hunused.phase hunused.turn hfresh ?_
  intro i _
  rw [hunused.cq]
  show CompletionQueueEntry.zero.phase = 0
  decide

/-! ## Calls as rounds -/

/-- **`read` and `write` are rounds of a queue pair.** -/
theorem ioStep_pair (ev : IoEvent) :
    (ioStep im s ev).map System.ioPair = QueuePair.step (ioProtocol im s.ctrl.hhdmOffset) s.ioPair ev := by
  cases ev with
  | build call =>
      simp only [ioStep, QueuePair.step, System.ioPair]
      cases s.ioTurn <;> rfl
  | ring =>
      simp only [ioStep, QueuePair.step, System.ioPair]
      cases s.ioTurn <;> rfl
  | fetch e =>
      simp only [ioStep, QueuePair.step, System.ioPair, ioProtocol, Option.map_map]
      rfl
  | post e c =>
      simp only [ioStep, QueuePair.step, System.ioPair, Option.map_map]
      rfl
  | wait =>
      simp only [ioStep, QueuePair.step, System.ioPair]
      cases hturn : s.ioTurn with
      | polling call =>
          simp only [ioProtocol, apply_ite (Option.map System.ioPair)]
          simp only [Option.map_some, Option.map_none, System.ioPair, hturn]
          rfl
      | idle => rfl
      | built call => rfl
      | matched call => rfl
  | see =>
      simp only [ioStep, QueuePair.step, System.ioPair]
      cases hturn : s.ioTurn with
      | polling call =>
          simp only [ioProtocol, apply_ite (Option.map System.ioPair)]
          rfl
      | idle => rfl
      | built call => rfl
      | matched call => rfl
  | take c r =>
      simp only [ioStep, QueuePair.step, System.ioPair]
      cases hturn : s.ioTurn with
      | matched call =>
          simp only [ioProtocol, apply_ite (Option.map System.ioPair)]
          rfl
      | idle => rfl
      | built call => rfl
      | polling call => rfl

theorem ioStep_hhdmOffset {ev : IoEvent} (hs : ioStep im s ev = some s') :
    s'.ctrl.hhdmOffset = s.ctrl.hhdmOffset := by
  cases ev with
  | build call =>
      simp only [ioStep] at hs
      split at hs
      · obtain rfl := Option.some.inj hs
        rfl
      · cases hs
  | ring =>
      simp only [ioStep] at hs
      split at hs
      · obtain rfl := Option.some.inj hs
        rfl
      · cases hs
  | fetch e =>
      obtain ⟨d, -, rfl⟩ := Option.map_eq_some_iff.mp hs
      rfl
  | post e c =>
      obtain ⟨d, -, rfl⟩ := Option.map_eq_some_iff.mp hs
      rfl
  | wait =>
      simp only [ioStep] at hs
      split at hs
      · split at hs
        · obtain rfl := Option.some.inj hs
          rfl
        · cases hs
      · cases hs
  | see =>
      simp only [ioStep] at hs
      split at hs
      · split at hs
        · obtain rfl := Option.some.inj hs
          rfl
        · cases hs
      · cases hs
  | take c r =>
      simp only [ioStep] at hs
      split at hs
      · split at hs
        · obtain rfl := Option.some.inj hs
          rfl
        · cases hs
      · cases hs

/-! ## Status and identifiers -/

theorem checkStatus_iff (statusField : UInt16) : checkStatus statusField = true ↔ statusField.toNat / 2 = 0 := by
  have hfield : ((statusField >>> 1) &&& 0x7FFF).toNat = statusField.toNat / 2 := by
    have hlt := statusField.toNat_lt
    rw [UInt16.toNat_and, UInt16.toNat_shiftRight]
    show statusField.toNat >>> 1 &&& (2 ^ 15 - 1) = _
    rw [Nat.and_two_pow_sub_one_eq_mod, Nat.shiftRight_eq_div_pow]
    omega
  unfold checkStatus
  rw [beq_iff_eq, ← UInt16.toNat_inj, hfield]
  rfl

/-- The entry in a slot has the slot as its identifier. -/
theorem cid_entry (hhdmOffset : UInt64) (call : IoCall) {slot : Nat} (hslot : slot < 64) :
    (call.entry im hhdmOffset slot).cid = UInt16.ofNat slot := by
  have hread : ∀ i < 64, ((cdw0 0x02 i) >>> 16).toUInt16 = UInt16.ofNat i := by decide
  have hwrite : ∀ i < 64, ((cdw0 0x01 i) >>> 16).toUInt16 = UInt16.ofNat i := by decide
  cases call with
  | read destPhys lba count => exact hread slot hslot
  | write srcPhys lba count => exact hwrite slot hslot

/-- The controller has a completion for every entry, with either tag. -/
theorem exists_completion (e : SubmissionQueueEntry) (hhdmOffset : UInt64) (n : Nat) :
    ∃ c, answers e c = true ∧ c.phase = phaseAt (ioProtocol im hhdmOffset).size n := by
  rcases Nat.mod_two_eq_zero_or_one (n / 64) with h | h
  · refine ⟨⟨0, 0, 0, 0, e.cid, 1⟩, beq_self_eq_true _, ?_⟩
    show ((1 : UInt16) &&& 1).toNat = 1 ^^^ (n / 64 % 2)
    rw [h]
    decide
  · refine ⟨⟨0, 0, 0, 0, e.cid, 0⟩, beq_self_eq_true _, ?_⟩
    show ((0 : UInt16) &&& 1).toNat = 1 ^^^ (n / 64 % 2)
    rw [h]
    decide

/-! ## Runs -/

/-- What holds when the calls of `rounds` were made since `s₁`, and one more as far as `st` says. -/
structure IoInStep (im : Image) (s₁ : System) (events : List IoEvent) (s : System)
    (rounds : List (Round IoCall CompletionQueueEntry)) (st : Stage IoCall CompletionQueueEntry) : Prop where
  /-- The controller fetches what a call built, posts one completion, and the call takes that one. -/
  events_eq : events.filter Event.busy
    = rounds.flatMap (Round.events (ioProtocol im s₁.ctrl.hhdmOffset))
      ++ st.events (ioProtocol im s₁.ctrl.hhdmOffset) (rounds.length % 64)
  slots : rounds.map Round.slot = (List.range rounds.length).map (· % 64)
  own : ∀ r ∈ rounds, (r.call.entry im s₁.ctrl.hhdmOffset r.slot).cid = UInt16.ofNat r.slot
    ∧ r.completion.commandId = UInt16.ofNat r.slot
  result : ∀ r ∈ rounds, r.call.returns r.completion = .success ↔ r.completion.status.toNat / 2 = 0
  counters : s.ioTurn = .idle → st = .idle ∧ s.ctrl.ioSqTail = rounds.length % 64
    ∧ s.ctrl.ioCqHead = rounds.length % 64 ∧ s.ctrl.ioCqPhase = 1 ^^^ (rounds.length / 64 % 2)
  /-- The call in progress can return. -/
  returns : ∃ more s', Run (fun s ev s' => ioStep im s ev = some s') s more s' ∧ s'.ioTurn = .idle

/-- A call in progress can be brought to its end. -/
theorem exists_return {n : Nat} {st : Stage IoCall CompletionQueueEntry}
    (h : At (ioProtocol im s.ctrl.hhdmOffset) n st s.ioPair) :
    ∃ more s', Run (fun s ev s' => ioStep im s ev = some s') s more s' ∧ s'.ioTurn = .idle := by
  by_cases hidle : st = .idle
  · subst hidle
    exact ⟨[], s, .start, h.2.1⟩
  · -- the steps of the pair are steps of the driver and the controller
    obtain ⟨more, p, hrun, hat⟩ := h.finish (fun e n => exists_completion e _ n) hidle
    have hlift := hrun.lift (R := fun s ev s' => ioStep im s ev = some s')
      (I := fun s' => s'.ctrl.hhdmOffset = s.ctrl.hhdmOffset) ?_ rfl
    · obtain ⟨s', hrun', hpair, -⟩ := hlift
      have hturn : s'.ioPair.turn = .idle := hpair ▸ hat.2.1
      exact ⟨more, s', hrun', hturn⟩
    · intro s₁ ev t ht hoff
      rw [← hoff, ← ioStep_pair] at ht
      obtain ⟨s₂, hs₂, ht⟩ := Option.map_eq_some_iff.mp ht
      exact ⟨s₂, hs₂, ht, (ioStep_hhdmOffset hs₂).trans hoff⟩

/-- **The I/O ring stays in step**, for every sequence of calls and every timing of the controller. -/
theorem ioInStep_of_run {calls : List AdminEvent} {events : List IoEvent} (hboot : AtBoot s₀)
    (hinit : Run (fun s ev s' => adminStep im s ev = some s') s₀ calls s₁)
    (hdone : s₁.ctrl.initialized = true)
    (hrun : Run (fun s ev s' => ioStep im s ev = some s') s₁ events s) :
    ∃ rounds st, IoInStep im s₁ events s rounds st := by
  have hmap := hrun.map (f := System.ioPair) (I := fun s => s.ctrl.hhdmOffset = s₁.ctrl.hhdmOffset)
    (S := fun p ev p' => QueuePair.step (ioProtocol im s₁.ctrl.hhdmOffset) p ev = some p') ?_ rfl
  · obtain ⟨hpairs, hoff⟩ := hmap
    obtain ⟨rounds, st, hin, hslots⟩ := inStep_of_run hpairs (at_of_init hboot hinit hdone)
    refine ⟨rounds, st, hin.events_eq, hslots, ?_, ?_, ?_, ?_⟩
    · intro r hr
      have hslot : r.slot < 64 := by
        have hmem : r.slot ∈ rounds.map Round.slot := List.mem_map_of_mem hr
        rw [hslots] at hmem
        obtain ⟨i, -, hi⟩ := List.mem_map.mp hmem
        exact hi ▸ Nat.mod_lt i (show 0 < 64 by decide)
      have hcid : (r.call.entry im s₁.ctrl.hhdmOffset r.slot).cid = UInt16.ofNat r.slot :=
        cid_entry _ r.call hslot
      exact ⟨hcid, (beq_iff_eq.mp (hin.answered r hr)).trans hcid⟩
    · intro r _
      rw [← checkStatus_iff]
      unfold IoCall.returns
      cases checkStatus r.completion.status
      · simp
      · simp
    · intro hturn
      obtain rfl := hin.place.idle_of_turn hturn
      obtain ⟨hcounts, -, -⟩ := hin.place
      exact ⟨rfl, hcounts.tail, hcounts.head, hcounts.phase⟩
    · have hplace := hin.place
      rw [← hoff] at hplace
      exact exists_return hplace
  · intro s₂ ev s₃ hs hoff
    refine ⟨?_, (ioStep_hhdmOffset hs).trans hoff⟩
    have hpair : (ioStep im s₂ ev).map System.ioPair = _ := ioStep_pair ev
    rw [hs, hoff] at hpair
    exact hpair.symm

/-- A read and a write that fails, after a healthy boot. -/
def twoCalls : List IoEvent :=
  [Round.mk (.read 0x8000 16 8) 0 ⟨0, 0, 0, 0, 0, 1⟩, Round.mk (.write 0x9000 24 8) 1 ⟨0, 0, 0, 0, 1, 3⟩].flatMap
    (Round.events (ioProtocol plainImage 0))

theorem ioInStep_twoCalls : ∃ s₁ s : System, s.ioTurn = .idle ∧ s.ctrl.ioSqTail = 2
    ∧ ∃ rounds st, IoInStep plainImage s₁ twoCalls s rounds st := by
  have hboot : (initEvents.foldlM (adminStep plainImage) coldBoot).map
      (fun s : System => (s.ctrl.initialized, (twoCalls.foldlM (ioStep plainImage) s).map
        fun s : System => decide (s.ioTurn = .idle ∧ s.ctrl.ioSqTail = 2))) = some (true, some true) := by
    decide +kernel
  obtain ⟨s₁, hs₁, hend⟩ := Option.map_eq_some_iff.mp hboot
  obtain ⟨hdone, hcalls⟩ := Prod.mk.inj hend
  obtain ⟨s, hs, hfin⟩ := Option.map_eq_some_iff.mp hcalls
  obtain ⟨hturn, htail⟩ := of_decide_eq_true hfin
  have hinit := Run.of_foldlM (fun _ _ _ h => h) .start hs₁
  have hrun := Run.of_foldlM (fun _ _ _ h => h) .start hs
  exact ⟨s₁, s, hturn, htail, ioInStep_of_run atBoot_coldBoot hinit hdone hrun⟩

end AlopexOS.Nvme
