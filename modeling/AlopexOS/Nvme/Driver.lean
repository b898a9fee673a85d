import AlopexOS.Nvme.Moving

/-!
# `Nvme.Driver` — the driver and a controller that works on its own

The controller works at its own pace at the block commands, and it also has admin commands to carry out.
Since the driver makes one call at a time, and polls until that call is completed, a run is one of the
board's requests, each made at once.

## Contents
- **The driver at work.** `DriverStep`: admin calls, `read` and `write`, and the controller.
- **Calls at once.** `BoardStep`, and what holds of a run (`AtOnce`).
- **A call that succeeds.** The controller can always bring one to its end.
- **Requests.**
-/

namespace AlopexOS.Nvme

open QueuePair Relation

variable {im : Image} {hhdmOffset : UInt64} {e : SubmissionQueueEntry} {w w' : Contents}

/-! ## The driver at work -/

/-- The system, how far the controller has got with the block commands, and the bytes. -/
structure Live where
  sys : System
  progress : SubmissionQueueEntry → List Nat
  bytes : Contents

/-- What the controller may change for an admin command: Identify fills the page it names, and Format NVM
    changes the device. -/
def AdminWork (w : Contents) (e : SubmissionQueueEntry) (w' : Contents) : Prop :=
  if e.cdw0 &&& 0xFF = 0x06 then
    w'.disk = w.disk ∧ ∀ p, (∀ i, i < 4096 → e.dptr0.toNat + i ≠ p) → w'.mem p = w.mem p
  else if e.cdw0 &&& 0xFF = 0x80 then w'.mem = w.mem
  else w' = w

/-- What the driver and the controller do. -/
inductive DriverEvent where
  | admin (ev : AdminEvent)
  | io (ev : IoEvent)
  /-- The controller moves a byte of a block command. -/
  | move (e : SubmissionQueueEntry)
  /-- The controller does some of the work of an admin command. -/
  | adminWork (e : SubmissionQueueEntry)

/-- The driver makes one call at a time, and nobody resets the controller. -/
inductive DriverStep (im : Image) (s : Live) : DriverEvent → Live → Prop
  | admin {ev : AdminEvent} {t : System} (hs : adminStep im s.sys ev = some t)
      (hstart : ∀ call, ev = .start call → s.sys.ioTurn = .idle) (hstay : ev ≠ .disable) :
      DriverStep im s (.admin ev) { s with sys := t }
  | io {ev : IoEvent} {t : System} (hs : ioStep im s.sys ev = some t)
      (hbuild : ∀ call, ev = .build call → s.sys.turn = .idle ∧ s.sys.script = [])
      (hpost : ∀ e c, ev = .post e c → mover.Done e c (s.progress e)) :
      DriverStep im s (.io ev) ⟨t, mover.begins s.progress ev, s.bytes⟩
  | move {e : SubmissionQueueEntry} {moved : List Nat} {w : Contents} (he : e ∈ s.sys.io.pending)
      (hw : mover.Work e (s.progress e, s.bytes) (moved, w)) :
      DriverStep im s (.move e) ⟨s.sys, Function.update s.progress e moved, w⟩
  | adminWork {e : SubmissionQueueEntry} {w : Contents} (he : e ∈ s.sys.admin.pending)
      (hw : AdminWork s.bytes e w) :
      DriverStep im s (.adminWork e) { s with bytes := w }

/-- The controller is initialised with an offset, the admin queues are in step, and while a block call is in
    progress no admin call is. -/
structure OneCall (im : Image) (hhdmOffset : UInt64) (s : System) : Prop where
  initialized : s.ctrl.initialized = true
  hhdmOffset : s.ctrl.hhdmOffset = hhdmOffset
  admin : ∃ n st, At (adminProtocol im) n st s.adminPair
  alone : s.ioTurn ≠ .idle → s.turn = .idle ∧ s.script = []

section

variable {s s' : System}

/-- An admin command leaves what `init` has set. -/
theorem queueStep_kept {ev : QueueEvent} (hs : queueStep im s ev = some s') :
    s'.ctrl.initialized = s.ctrl.initialized ∧ s'.ctrl.hhdmOffset = s.ctrl.hhdmOffset := by
  cases ev with
  | build call =>
      simp only [queueStep] at hs
      split at hs
      · split at hs
        · obtain rfl := Option.some.inj hs
          exact ⟨rfl, rfl⟩
        · cases hs
      · cases hs
  | fetch e =>
      simp only [queueStep] at hs
      split at hs
      · obtain ⟨d, -, rfl⟩ := Option.map_eq_some_iff.mp hs
        exact ⟨rfl, rfl⟩
      · cases hs
  | post e c =>
      obtain ⟨d, -, rfl⟩ := Option.map_eq_some_iff.mp hs
      exact ⟨rfl, rfl⟩
  | ring =>
      simp only [queueStep] at hs
      split at hs
      · obtain rfl := Option.some.inj hs
        exact ⟨rfl, rfl⟩
      · cases hs
  | wait =>
      simp only [queueStep] at hs
      split at hs
      · split at hs
        · obtain rfl := Option.some.inj hs
          exact ⟨rfl, rfl⟩
        · cases hs
      · cases hs
  | see =>
      simp only [queueStep] at hs
      split at hs
      · split at hs
        · obtain rfl := Option.some.inj hs
          exact ⟨rfl, rfl⟩
        · cases hs
      · cases hs
  | take c r =>
      simp only [queueStep] at hs
      split at hs
      · split at hs
        · obtain rfl := Option.some.inj hs
          exact ⟨rfl, rfl⟩
        · cases hs
      · cases hs

/-- After `init` no admin step changes what `init` has set. -/
theorem adminStep_initialized {ev : AdminEvent} (hs : adminStep im s ev = some s')
    (hinit : s.ctrl.initialized = true) :
    s'.ctrl.initialized = true ∧ s'.ctrl.hhdmOffset = s.ctrl.hhdmOffset := by
  cases ev with
  | start call =>
      simp only [adminStep] at hs
      split at hs
      · cases call with
        | init bar0 hhdmOffset =>
            simp only [startCall, hinit, true_or, if_true] at hs
            obtain rfl := Option.some.inj hs
            exact ⟨hinit, rfl⟩
        | _ =>
            simp only [startCall] at hs
            split at hs
            · obtain rfl := Option.some.inj hs
              exact ⟨hinit, rfl⟩
            · cases hs
      · cases hs
  | disable =>
      simp only [adminStep] at hs
      split at hs
      · obtain rfl := Option.some.inj hs
        exact ⟨hinit, rfl⟩
      · cases hs
  | enable ready =>
      simp only [adminStep] at hs
      split at hs
      · obtain rfl := Option.some.inj hs
        exact ⟨hinit, rfl⟩
      · cases hs
  | markInitialized =>
      simp only [adminStep] at hs
      split at hs
      · obtain rfl := Option.some.inj hs
        exact ⟨rfl, rfl⟩
      · cases hs
  | queue q =>
      obtain ⟨hkept, hoff⟩ := queueStep_kept hs
      exact ⟨hkept.trans hinit, hoff⟩

/-- Between two admin calls only the controller moves. -/
theorem adminStep_idle {ev : AdminEvent} (hs : adminStep im s ev = some s') (hturn : s.turn = .idle)
    (hscript : s.script = []) (hstart : ∀ call, ev ≠ .start call) : s'.turn = .idle ∧ s'.script = [] := by
  cases ev with
  | start call => exact absurd rfl (hstart call)
  | disable => simp [adminStep, hturn, hscript] at hs
  | enable ready => simp [adminStep, hturn, hscript] at hs
  | markInitialized => simp [adminStep, hturn, hscript] at hs
  | queue q =>
      cases q with
      | fetch e =>
          simp only [adminStep, queueStep] at hs
          split at hs
          · obtain ⟨d, -, rfl⟩ := Option.map_eq_some_iff.mp hs
            exact ⟨hturn, hscript⟩
          · cases hs
      | post e c =>
          obtain ⟨d, -, rfl⟩ := Option.map_eq_some_iff.mp hs
          exact ⟨hturn, hscript⟩
      | build call => simp [adminStep, queueStep, hturn, hscript] at hs
      | ring => simp [adminStep, queueStep, hturn] at hs
      | wait => simp [adminStep, queueStep, hturn] at hs
      | see => simp [adminStep, queueStep, hturn] at hs
      | take c r => simp [adminStep, queueStep, hturn] at hs

/-- `read` and `write` leave the admin side alone. -/
theorem ioStep_admin {ev : IoEvent} (hs : ioStep im s ev = some s') :
    s'.adminPair = s.adminPair ∧ s'.script = s.script ∧ s'.ctrl.initialized = s.ctrl.initialized := by
  cases ev with
  | build call =>
      simp only [ioStep] at hs
      split at hs
      · obtain rfl := Option.some.inj hs
        exact ⟨rfl, rfl, rfl⟩
      · cases hs
  | ring =>
      simp only [ioStep] at hs
      split at hs
      · obtain rfl := Option.some.inj hs
        exact ⟨rfl, rfl, rfl⟩
      · cases hs
  | fetch e =>
      obtain ⟨d, -, rfl⟩ := Option.map_eq_some_iff.mp hs
      exact ⟨rfl, rfl, rfl⟩
  | post e c =>
      obtain ⟨d, -, rfl⟩ := Option.map_eq_some_iff.mp hs
      exact ⟨rfl, rfl, rfl⟩
  | wait =>
      simp only [ioStep] at hs
      split at hs
      · split at hs
        · obtain rfl := Option.some.inj hs
          exact ⟨rfl, rfl, rfl⟩
        · cases hs
      · cases hs
  | see =>
      simp only [ioStep] at hs
      split at hs
      · split at hs
        · obtain rfl := Option.some.inj hs
          exact ⟨rfl, rfl, rfl⟩
        · cases hs
      · cases hs
  | take c r =>
      simp only [ioStep] at hs
      split at hs
      · split at hs
        · obtain rfl := Option.some.inj hs
          exact ⟨rfl, rfl, rfl⟩
        · cases hs
      · cases hs

/-- A block call begins with `build`. -/
theorem ioStep_begins {ev : IoEvent} (hs : ioStep im s ev = some s') (hbefore : s.ioTurn = .idle)
    (hafter : s'.ioTurn ≠ .idle) : ∃ call, ev = .build call := by
  cases ev with
  | build call => exact ⟨call, rfl⟩
  | fetch e =>
      obtain ⟨d, -, rfl⟩ := Option.map_eq_some_iff.mp hs
      exact absurd hbefore hafter
  | post e c =>
      obtain ⟨d, -, rfl⟩ := Option.map_eq_some_iff.mp hs
      exact absurd hbefore hafter
  | ring => simp [ioStep, hbefore] at hs
  | wait => simp [ioStep, hbefore] at hs
  | see => simp [ioStep, hbefore] at hs
  | take c r => simp [ioStep, hbefore] at hs

/-- After `init` the driver has one call in progress at most. -/
theorem oneCall_of_init {s₀ : System} {calls : List AdminEvent} (hboot : AtBoot s₀)
    (hinit : Run (SteadyStep im) s₀ calls s) (hdone : s.ctrl.initialized = true) :
    OneCall im s.ctrl.hhdmOffset s := by
  have hprogress : Progress im calls s :=
    hinit.history (H := fun events s => Progress im events s) (fun _ _ _ _ hs h => h.step hs)
      (Or.inl ⟨hboot.unstarted, rfl⟩)
  obtain ⟨hunused, -⟩ := hinit.invariant (I := IoFresh) (fun _ _ _ hs h => h.step hs.1) hboot.ioFresh
  refine ⟨hdone, rfl, ?_, fun hbusy => absurd hunused.turn hbusy⟩
  rcases hprogress with ⟨hun, -⟩ | ⟨n, rounds, st, hin⟩
  · exact absurd (hun.initialized.symm.trans hdone) (by simp)
  · exact ⟨n, st, hin.place⟩

end

variable {s s' : Live}

theorem OneCall.step {ev : DriverEvent} (h : OneCall im hhdmOffset s.sys) (hs : DriverStep im s ev s') :
    OneCall im hhdmOffset s'.sys := by
  obtain ⟨hinit, hoff, ⟨n, st, hat⟩, halone⟩ := h
  cases hs with
  | @admin ev t hs hstart hstay =>
      obtain ⟨hinit', hoff'⟩ := adminStep_initialized hs hinit
      refine ⟨hinit', hoff'.trans hoff, ?_, ?_⟩
      · rcases adminStep_pair hs with ⟨q, -, hpair, -⟩ | ⟨hdisable, -⟩ | ⟨-, -, hsame, -⟩
        · rcases hat.round_step hpair with ⟨-, hsame⟩ | ⟨-, st', hat', -⟩ | ⟨-, r, hat', -⟩
          · exact ⟨n, st, hsame ▸ hat⟩
          · exact ⟨n, st', hat'⟩
          · exact ⟨n + 1, .idle, hat'⟩
        · exact absurd hdisable hstay
        · exact ⟨n, st, hsame ▸ hat⟩
      · intro hbusy
        have hio : t.ioPair.turn = s.sys.ioPair.turn := by
          rcases adminStep_pair hs with ⟨q, -, -, hio⟩ | ⟨-, -, -, hio⟩ | ⟨-, -, -, hio⟩
          · rw [hio]
          · rw [hio]
          · rw [hio]
        have hbusy' : s.sys.ioTurn ≠ .idle := fun hidle => hbusy (hio.trans hidle)
        obtain ⟨hturn, hscript⟩ := halone hbusy'
        exact adminStep_idle hs hturn hscript fun call he => hbusy' (hstart call he)
  | @io ev t hs hbuild hpost =>
      obtain ⟨hpair, hscript, hinit'⟩ := ioStep_admin hs
      refine ⟨hinit'.trans hinit, (ioStep_hhdmOffset hs).trans hoff, ⟨n, st, hpair ▸ hat⟩, ?_⟩
      intro hbusy
      have hfree : s.sys.turn = .idle ∧ s.sys.script = [] := by
        by_cases hidle : s.sys.ioTurn = .idle
        · obtain ⟨call, rfl⟩ := ioStep_begins hs hidle hbusy
          exact hbuild call rfl
        · exact halone hidle
      have hturn : t.adminPair.turn = s.sys.adminPair.turn := congrArg Pair.turn hpair
      exact ⟨hturn.trans hfree.1, hscript.trans hfree.2⟩
  | move he hw => exact ⟨hinit, hoff, ⟨n, st, hat⟩, halone⟩
  | adminWork he hw => exact ⟨hinit, hoff, ⟨n, st, hat⟩, halone⟩

/-! ## Calls at once -/

/-- The I/O queues, with the controller's work. -/
def Live.serving (s : Live) :
    Serving IoCall SubmissionQueueEntry CompletionQueueEntry (List Nat) Contents :=
  ⟨s.sys.ioPair, s.progress, s.bytes⟩

/-- What an event is at the I/O queues. The work for an admin command comes from outside. -/
def ioSide : DriverEvent →
    Option (ServeEvent IoCall SubmissionQueueEntry CompletionQueueEntry ErrorCode SubmissionQueueEntry)
  | .admin _ => none
  | .io ev => some (.pair ev)
  | .move e => some (.work e)
  | .adminWork e => some (.outside e)

/-- **At the I/O queues the controller serves one call after the other.** -/
theorem OneCall.serves {ev : DriverEvent} (h : OneCall im hhdmOffset s.sys) (hs : DriverStep im s ev s') :
    (ioSide ev = none ∧ s'.serving = s.serving)
      ∨ ∃ b, ioSide ev = some b
          ∧ Serves (ioProtocol im hhdmOffset) mover AdminWork s.serving b s'.serving := by
  obtain ⟨hinit, hoff, ⟨n, st, hat⟩, halone⟩ := h
  cases hs with
  | @admin ev t hs hstart hstay =>
      refine Or.inl ⟨rfl, ?_⟩
      have hio : t.ioPair = s.sys.ioPair := by
        rcases adminStep_pair hs with ⟨q, -, -, hio⟩ | ⟨hdisable, -⟩ | ⟨-, -, -, hio⟩
        · exact hio
        · exact absurd hdisable hstay
        · exact hio
      show (⟨t.ioPair, s.progress, s.bytes⟩ : Serving _ _ _ _ _) = _
      rw [hio]
      rfl
  | @io ev t hs hbuild hpost =>
      have hpair : (ioStep im s.sys ev).map System.ioPair = _ := ioStep_pair ev
      rw [hs, hoff] at hpair
      exact Or.inr ⟨_, rfl, .pair hpair.symm hpost⟩
  | move he hw => exact Or.inr ⟨_, rfl, .work he hw⟩
  | @adminWork e w he hw =>
      -- an admin command that was fetched keeps the driver waiting
      obtain ⟨a, rfl, -⟩ := hat.eq_fetched he
      have hidle : s.sys.ioTurn = .idle := by
        by_contra hbusy
        have hturn : s.sys.adminPair.turn = .idle := (halone hbusy).1
        exact absurd (hturn.symm.trans hat.2.1) (by simp)
      exact Or.inr ⟨_, rfl, .outside hidle hw⟩

/-- The controller may have changed what `Carried` allows for a command. -/
def Touched (e : SubmissionQueueEntry) (w w' : Contents) : Prop := ∃ moved, Carried e moved w w'

/-- One request of the board, or some work for an admin command. A request that fails may have moved some of
    the bytes. -/
inductive BoardStep (im : Image) (hhdmOffset : UInt64) (w : Contents) :
    Round IoCall CompletionQueueEntry ⊕ SubmissionQueueEntry → Contents → Prop
  | call {r : Round IoCall CompletionQueueEntry} {w' : Contents}
      (hrequest : ∃ K, request im hhdmOffset K r.call (w.host r.slot)
        = (r.call.returns r.completion, w'.host ((r.slot + 1) % 64)))
      (htouched : Touched (r.call.entry im hhdmOffset r.slot) w w') : BoardStep im hhdmOffset w (.inl r) w'
  | admin {e : SubmissionQueueEntry} {w' : Contents} (h : AdminWork w e w') :
      BoardStep im hhdmOffset w (.inr e) w'

/-- **What a call does while it waits is a request.** -/
theorem boardStep_of_carriesOut {r : Round IoCall CompletionQueueEntry} (hblock : r.call.WithinBlock)
    (h : mover.CarriesOut (r.call.entry im hhdmOffset r.slot) r.completion w w') :
    BoardStep im hhdmOffset w (.inl r) w' := by
  obtain ⟨moved, hwork, hdone⟩ := h
  have hapart : (r.call.entry im hhdmOffset r.slot).Apart := hblock.apart r.slot
  have hcarried := carried_of_work hapart hwork
  refine .call ?_ ⟨moved, hcarried⟩
  unfold IoCall.returns
  by_cases hok : checkStatus r.completion.status = true
  · -- every byte was moved
    rw [if_pos hok]
    refine ⟨openBench, ?_⟩
    show (ErrorCode.success, execute (r.call.entry im hhdmOffset r.slot) (w.host ((r.slot + 1) % 64))) = _
    rw [hcarried.execute (hdone hok) hapart]
  · rw [if_neg hok]
    exact ⟨{ openBench with refuses := fun _ _ => some (w'.host ((r.slot + 1) % 64)) }, rfl⟩

/-- What happened at the I/O queues. -/
def ioEvents (events : List DriverEvent) : List IoEvent :=
  events.filterMap fun
    | .io ev => some ev
    | _ => none

/-- The admin commands the controller worked for. -/
def adminEntries (events : List DriverEvent) : List SubmissionQueueEntry :=
  events.filterMap fun
    | .adminWork e => some e
    | _ => none

/-- The calls among the labels. -/
def rounds (labels : List (Round IoCall CompletionQueueEntry ⊕ SubmissionQueueEntry)) :
    List (Round IoCall CompletionQueueEntry) := labels.filterMap Sum.getLeft?

/-- The call that is in progress. -/
def System.Making (s : System) (call : IoCall) : Prop :=
  s.ioTurn = .built call ∨ s.ioTurn = .polling call ∨ s.ioTurn = .matched call

/-- The calls so far, made at once one after the other, and the one in progress. -/
structure AtOnce (im : Image) (hhdmOffset : UInt64) (w₀ : Contents) (events : List DriverEvent) (s : Live)
    (labels : List (Round IoCall CompletionQueueEntry ⊕ SubmissionQueueEntry)) (w : Contents) : Prop where
  run : Run (BoardStep im hhdmOffset) w₀ labels w
  built : ∀ r ∈ rounds labels, .io (.build r.call) ∈ events
  slots : (rounds labels).map Round.slot = (List.range (rounds labels).length).map (· % 64)
  admin : labels.filterMap Sum.getRight? = adminEntries events
  between : s.sys.ioTurn = .idle → s.bytes = w ∧ (ioEvents events).filter Event.busy
    = (rounds labels).flatMap (Round.events (ioProtocol im hhdmOffset))
  during : ∀ call, s.sys.Making call →
    Touched (call.entry im hhdmOffset ((rounds labels).length % 64)) w s.bytes ∧ .io (.build call) ∈ events

theorem pairEvents_ioSide (events : List DriverEvent) : pairEvents (events.filterMap ioSide) = ioEvents events := by
  unfold pairEvents ioEvents
  rw [List.filterMap_filterMap]
  congr 1
  funext ev
  cases ev <;> rfl

theorem outsideEvents_ioSide (events : List DriverEvent) :
    outsideEvents (events.filterMap ioSide) = adminEntries events := by
  unfold outsideEvents adminEntries
  rw [List.filterMap_filterMap]
  congr 1
  funext ev
  cases ev <;> rfl

/-- A call of a round was built in an event. -/
theorem build_mem {st : Stage IoCall CompletionQueueEntry} {rs : List (Round IoCall CompletionQueueEntry)}
    {events : List DriverEvent} {slot : Nat}
    (h : (ioEvents events).filter Event.busy
      = rs.flatMap (Round.events (ioProtocol im hhdmOffset)) ++ st.events (ioProtocol im hhdmOffset) slot)
    {call : IoCall}
    (hcall : (∃ r ∈ rs, r.call = call) ∨ Event.build call ∈ st.events (ioProtocol im hhdmOffset) slot) :
    DriverEvent.io (.build call) ∈ events := by
  have hbuilt : Event.build call ∈ (ioEvents events).filter Event.busy := by
    rw [h]
    rcases hcall with ⟨r, hr, rfl⟩ | hst
    · exact List.mem_append_left _ (List.mem_flatMap.mpr ⟨r, hr, List.mem_cons_self⟩)
    · exact List.mem_append_right _ hst
  obtain ⟨ev, hev, hio⟩ := List.mem_filterMap.mp (List.mem_filter.mp hbuilt).1
  cases ev with
  | io ev =>
      obtain rfl := Option.some.inj hio
      exact hev
  | _ => cases hio

/-- What the call in progress has moved so far. -/
theorem touched_of_effect {n : Nat} {st : Stage IoCall CompletionQueueEntry} {call : IoCall} {w : Contents}
    (hat : At (ioProtocol im hhdmOffset) n st s.sys.ioPair) (hmaking : s.sys.Making call)
    (hblock : ∀ a, Event.build a ∈ st.events (ioProtocol im hhdmOffset) (n % 64) → a.WithinBlock)
    (heff : st.Effect (ioProtocol im hhdmOffset) mover (n % 64) w s.serving) :
    Touched (call.entry im hhdmOffset (n % 64)) w s.bytes
      ∧ Event.build call ∈ st.events (ioProtocol im hhdmOffset) (n % 64) := by
  have hturn : ∀ {t}, s.sys.ioTurn = t → t = .built call ∨ t = .polling call ∨ t = .matched call := by
    rintro t rfl
    exact hmaking
  cases st with
  | idle =>
      obtain ⟨-, hidle, -⟩ := hat
      rcases hturn hidle with h | h | h <;> cases h
  | built a =>
      obtain rfl : a = call := by
        rcases hturn hat.2.1 with h | h | h <;> first | exact Turn.built.inj h | cases h
      obtain rfl : s.bytes = w := heff
      exact ⟨⟨[], Carried.none _ _⟩, List.mem_cons_self⟩
  | rung a =>
      obtain rfl : a = call := by
        rcases hturn hat.2.1 with h | h | h <;> first | exact Turn.polling.inj h | cases h
      obtain rfl : s.bytes = w := heff
      exact ⟨⟨[], Carried.none _ _⟩, List.mem_cons_self⟩
  | fetched a =>
      obtain rfl : a = call := by
        rcases hturn hat.2.1 with h | h | h <;> first | exact Turn.polling.inj h | cases h
      exact ⟨⟨_, carried_of_work ((hblock a List.mem_cons_self).apart _) heff⟩, List.mem_cons_self⟩
  | posted a c =>
      obtain rfl : a = call := by
        rcases hturn hat.2.1 with h | h | h <;> first | exact Turn.polling.inj h | cases h
      obtain ⟨moved, hwork, -⟩ := heff
      exact ⟨⟨moved, carried_of_work ((hblock a List.mem_cons_self).apart _) hwork⟩, List.mem_cons_self⟩
  | seen a c =>
      obtain rfl : a = call := by
        rcases hturn hat.2.1 with h | h | h <;> first | exact Turn.matched.inj h | cases h
      obtain ⟨moved, hwork, -⟩ := heff
      exact ⟨⟨moved, carried_of_work ((hblock a List.mem_cons_self).apart _) hwork⟩, List.mem_cons_self⟩

variable {s₀ : System} {s₁ : Live} {calls : List AdminEvent} {events : List DriverEvent}

/-- After `init`, every run of the driver and the controller is one of calls at once. -/
theorem exists_atOnce (hboot : AtBoot s₀) (hinit : Run (SteadyStep im) s₀ calls s₁.sys)
    (hdone : s₁.sys.ctrl.initialized = true) (hrun : Run (DriverStep im) s₁ events s)
    (hblock : ∀ call, DriverEvent.io (.build call) ∈ events → call.WithinBlock) :
    ∃ labels w, AtOnce im s₁.sys.ctrl.hhdmOffset s₁.bytes events s labels w := by
  have hstart : At (ioProtocol im s₁.sys.ctrl.hhdmOffset) 0 .idle s₁.serving.pair :=
    at_of_init hboot (hinit.mono_labels fun _ _ _ _ hs => hs.1) hdone
  obtain ⟨t, hserves, rfl, -⟩ := hrun.simulates
    (S := Serves (ioProtocol im s₁.sys.ctrl.hhdmOffset) mover AdminWork) (g := ioSide)
    (P := fun y t => t = y.serving ∧ OneCall im s₁.sys.ctrl.hhdmOffset y.sys)
    (fun y ev y' t hs hy => by
      obtain ⟨rfl, hone⟩ := hy
      exact ⟨y'.serving, ⟨rfl, hone.step hs⟩, hone.serves hs⟩) ⟨rfl, oneCall_of_init hboot hinit hdone⟩
  obtain ⟨labels, st, hin, hslots, hout, w, hserial, heff⟩ := serialized_of_run hserves hstart
  have hevents := hin.events_eq
  rw [pairEvents_ioSide] at hevents
  have hbuilt : ∀ r ∈ rounds labels, DriverEvent.io (.build r.call) ∈ events :=
    fun r hr => build_mem hevents (Or.inl ⟨r, hr, rfl⟩)
  refine ⟨labels, w, ⟨?_, hbuilt, hslots, ?_, ?_, ?_⟩⟩
  · refine hserial.mono_labels fun w label w' hlabel hs => ?_
    cases hs with
    | @round r _ h =>
        exact boardStep_of_carriesOut (hblock _ (hbuilt r (List.mem_filterMap.mpr ⟨.inl r, hlabel, rfl⟩))) h
    | outside h => exact .admin h
  · rw [hout, outsideEvents_ioSide]
  · intro hidle
    obtain rfl := hin.place.idle_of_turn hidle
    exact ⟨heff, hevents.trans (List.append_nil _)⟩
  · intro call hmaking
    have hbegun : ∀ a, Event.build a ∈ st.events (ioProtocol im s₁.sys.ctrl.hhdmOffset)
        ((labels.filterMap Sum.getLeft?).length % 64) → DriverEvent.io (.build a) ∈ events :=
      fun a ha => build_mem hevents (Or.inr ha)
    obtain ⟨htouched, hcall⟩ := touched_of_effect hin.place hmaking (fun a ha => hblock a (hbegun a ha)) heff
    exact ⟨htouched, hbegun call hcall⟩

/-! ## A call that succeeds -/

/-- The driver makes no admin call, and the offset is this one. -/
def Live.Free (s : Live) (hhdmOffset : UInt64) : Prop :=
  s.sys.turn = .idle ∧ s.sys.script = [] ∧ s.sys.ctrl.hhdmOffset = hhdmOffset

/-- What can happen at the pair can happen at the I/O queues. -/
theorem Live.Free.exists_io {ev : IoEvent} {p : Pair IoCall SubmissionQueueEntry CompletionQueueEntry}
    (h : s.Free hhdmOffset) (hpost : ∀ e c, ev = .post e c → mover.Done e c (s.progress e))
    (hs : QueuePair.step (ioProtocol im hhdmOffset) s.sys.ioPair ev = some p) :
    ∃ s', DriverStep im s (.io ev) s' ∧ s'.sys.ioPair = p ∧ s'.Free hhdmOffset := by
  obtain ⟨hturn, hscript, rfl⟩ := h
  rw [← ioStep_pair] at hs
  obtain ⟨t, ht, rfl⟩ := Option.map_eq_some_iff.mp hs
  obtain ⟨hadmin, hscript', -⟩ := ioStep_admin ht
  have hturn' : t.adminPair.turn = s.sys.adminPair.turn := congrArg Pair.turn hadmin
  exact ⟨_, .io ht (fun _ _ => ⟨hturn, hscript⟩) hpost, rfl, hturn'.trans hturn, hscript'.trans hscript,
    ioStep_hhdmOffset ht⟩

/-- The controller can move all bytes of a command. -/
theorem exists_moves {e : SubmissionQueueEntry} (he : e ∈ s.sys.io.pending) {n : Nat} (hn : n ≤ e.dataLength) :
    ∃ s', Run (DriverStep im) s (List.replicate n (.move e)) s' ∧ s'.sys = s.sys
      ∧ ∀ i, i < n → i ∈ s'.progress e := by
  induction n with
  | zero => exact ⟨s, .start, rfl, fun i hi => absurd hi (Nat.not_lt_zero i)⟩
  | succ n ih =>
      obtain ⟨s₁, hrun, hsys, hall⟩ := ih (Nat.le_of_succ_le hn)
      refine ⟨⟨s₁.sys, Function.update s₁.progress e (n :: s₁.progress e), s₁.bytes.move e n⟩, ?_, hsys, ?_⟩
      · rw [List.replicate_succ']
        exact hrun.step (.move (hsys ▸ he) ⟨n, hn, rfl⟩)
      · intro i hi
        show i ∈ Function.update s₁.progress e (n :: s₁.progress e) e
        rw [Function.update_self]
        by_cases hlast : i = n
        · rw [hlast]
          exact List.mem_cons_self
        · exact List.mem_cons_of_mem n (hall i (by omega))

/-- What happens in a call that succeeds. -/
def successEvents (call : IoCall) (e : SubmissionQueueEntry) (c : CompletionQueueEntry) : List DriverEvent :=
  [.io (.build call), .io .ring, .io (.fetch e)] ++ List.replicate e.dataLength (.move e)
    ++ [.io (.post e c), .io .see, .io (.take c .success)]

/-- A completion with a status of success, for every entry and with either tag. -/
theorem exists_success_completion (e : SubmissionQueueEntry) (n : Nat) :
    ∃ c, answers e c = true ∧ c.phase = phaseAt 64 n ∧ checkStatus c.status = true := by
  rcases Nat.mod_two_eq_zero_or_one (n / 64) with h | h
  · refine ⟨⟨0, 0, 0, 0, e.cid, 1⟩, beq_self_eq_true _, ?_, (checkStatus_iff 1).mpr rfl⟩
    show ((1 : UInt16) &&& 1).toNat = 1 ^^^ (n / 64 % 2)
    rw [h]
    decide
  · refine ⟨⟨0, 0, 0, 0, e.cid, 0⟩, beq_self_eq_true _, ?_, (checkStatus_iff 0).mpr rfl⟩
    show ((0 : UInt16) &&& 1).toNat = 1 ^^^ (n / 64 % 2)
    rw [h]
    decide

/-- **Every call can succeed**, in whatever state between two calls it is made. -/
theorem exists_success {n : Nat} (hat : At (ioProtocol im hhdmOffset) n .idle s.sys.ioPair)
    (hfree : s.Free hhdmOffset) (call : IoCall) :
    ∃ c s', Run (DriverStep im) s (successEvents call (call.entry im hhdmOffset (n % 64)) c) s'
      ∧ At (ioProtocol im hhdmOffset) (n + 1) .idle s'.sys.ioPair := by
  obtain ⟨e, he⟩ : ∃ e, (ioProtocol im hhdmOffset).entry call (n % (ioProtocol im hhdmOffset).size) = e := ⟨_, rfl⟩
  obtain ⟨c, hanswers, htag, hok⟩ := exists_success_completion e n
  rw [← he] at hanswers
  obtain ⟨q₁, q₂, q₃, q₄, q₅, q₆, h₁, h₂, h₃, hfetched, h₄, h₅, h₆, hdone⟩ :=
    hat.exists_round (fun e n => exists_completion e hhdmOffset n) hanswers htag
  have hpending : q₃.dev.pending = [e] := hfetched.2.2.trans (congrArg (fun e => [e]) he)
  rw [he] at h₃ h₄
  obtain ⟨s₁, hs₁, rfl, hfree₁⟩ := hfree.exists_io (fun _ _ he => by cases he) h₁
  obtain ⟨s₂, hs₂, rfl, hfree₂⟩ := hfree₁.exists_io (fun _ _ he => by cases he) h₂
  obtain ⟨s₃, hs₃, rfl, hfree₃⟩ := hfree₂.exists_io (fun _ _ he => by cases he) h₃
  -- the controller moves the bytes
  have hmem : e ∈ s₃.sys.io.pending := hpending ▸ List.mem_cons_self
  obtain ⟨s₄, hmoves, hsys, hall⟩ := @exists_moves im s₃ e hmem e.dataLength (Nat.le_refl _)
  have hfree₄ : s₄.Free hhdmOffset := by
    unfold Live.Free
    rw [hsys]
    exact hfree₃
  rw [← hsys] at h₄
  obtain ⟨s₅, hs₅, rfl, hfree₅⟩ := hfree₄.exists_io (fun e' c' heq => by
    obtain ⟨rfl, rfl⟩ := Event.post.inj heq
    exact fun _ => hall) h₄
  obtain ⟨s₆, hs₆, rfl, hfree₆⟩ := hfree₅.exists_io (fun _ _ he => by cases he) h₅
  obtain ⟨s₇, hs₇, rfl, -⟩ := hfree₆.exists_io (fun _ _ he => by cases he) h₆
  have hreturns : (ioProtocol im hhdmOffset).result call c = ErrorCode.success := if_pos hok
  rw [hreturns] at hs₇
  refine ⟨c, s₇, ?_, hdone⟩
  show Run _ _ (successEvents call ((ioProtocol im hhdmOffset).entry call (n % (ioProtocol im hhdmOffset).size)) c) _
  rw [he]
  exact ((((Run.single hs₁).step hs₂).step hs₃).trans hmoves).trans (((Run.single hs₅).step hs₆).step hs₇)

/-! ## Requests -/

/-- **The asynchronous driver makes the board's requests.** After `init`, in every run of the driver and the
    controller, the bytes between two calls are what requests of `Nvme.Transfer`, each made at once, have left:
    the same calls of `read` and `write` in the same order, with the same results. -/
theorem driver_makes_requests (hboot : AtBoot s₀) (hinit : Run (SteadyStep im) s₀ calls s₁.sys)
    (hdone : s₁.sys.ctrl.initialized = true) (hrun : Run (DriverStep im) s₁ events s)
    (hblock : ∀ call, DriverEvent.io (.build call) ∈ events → call.WithinBlock) (hidle : s.sys.ioTurn = .idle) :
    ∃ labels, Run (BoardStep im s₁.sys.ctrl.hhdmOffset) s₁.bytes labels s.bytes
      ∧ (rounds labels).map Round.call = (ioEvents events).filterMap Event.called
      ∧ ((rounds labels).map fun r => r.call.returns r.completion) = (ioEvents events).filterMap Event.returned
      ∧ (rounds labels).map Round.slot = (List.range (rounds labels).length).map (· % 64)
      ∧ labels.filterMap Sum.getRight? = adminEntries events := by
  obtain ⟨labels, w, hrun', -, hslots, hadmin, hbetween, -⟩ := exists_atOnce hboot hinit hdone hrun hblock
  obtain ⟨rfl, hevents⟩ := hbetween hidle
  obtain ⟨hcalled, hreturned⟩ := calls_of_rounds hevents
  exact ⟨labels, hrun', hcalled.symm, hreturned.symm, hslots, hadmin⟩

/-- A device full of fives after a healthy boot, and a block that is read from it. -/
def fives : Contents := ⟨fun _ => 0, fun _ => 5⟩

theorem exists_read : ∃ s₁ s : Live, ∃ e c, s₁.bytes = fives ∧ s₁.sys.ctrl.hhdmOffset = 0
    ∧ Run (SteadyStep plainImage) coldBoot initEvents s₁.sys ∧ s₁.sys.ctrl.initialized = true
    ∧ Run (DriverStep plainImage) s₁ (successEvents (.read 0x8000 16 8) e c) s ∧ s.sys.ioTurn = .idle := by
  have hboot : (initEvents.foldlM (steadyStep plainImage) coldBoot).map
      (fun s : System => decide (s.ctrl.initialized = true ∧ s.turn = .idle ∧ s.script = [] ∧ s.ctrl.hhdmOffset = 0))
        = some true := by
    decide +kernel
  obtain ⟨t, ht, hend⟩ := Option.map_eq_some_iff.mp hboot
  obtain ⟨hdone, hturn, hscript, hoff⟩ := of_decide_eq_true hend
  have hinit := Run.of_foldlM (fun _ _ _ => steadyStep_sound) .start ht
  rw [List.nil_append] at hinit
  have hat := at_of_init atBoot_coldBoot (hinit.mono_labels fun _ _ _ _ hs => hs.1) hdone
  rw [hoff] at hat
  obtain ⟨c, s, hrun, hat'⟩ :=
    @exists_success plainImage 0 ⟨t, fun _ => [], fives⟩ 0 hat ⟨hturn, hscript, hoff⟩ (.read 0x8000 16 8)
  exact ⟨_, s, _, c, rfl, hoff, hinit, hdone, hrun, hat'.2.1⟩

theorem ioEvents_success (call : IoCall) (e : SubmissionQueueEntry) (c : CompletionQueueEntry) :
    ioEvents (successEvents call e c) = [.build call, .ring, .fetch e, .post e c, .see, .take c .success] := by
  unfold ioEvents successEvents
  rw [List.filterMap_append, List.filterMap_append, List.filterMap_replicate_of_none rfl]
  rfl

theorem eq_of_built {call call' : IoCall} {e : SubmissionQueueEntry} {c : CompletionQueueEntry}
    (h : DriverEvent.io (.build call') ∈ successEvents call e c) : call' = call := by
  have hio : Event.build call' ∈ ioEvents (successEvents call e c) := List.mem_filterMap.mpr ⟨_, h, rfl⟩
  rw [ioEvents_success] at hio
  simpa using hio

/-- One block is read. -/
theorem driver_makes_requests_a : ∃ (s : Live) (labels : _), Run (BoardStep plainImage 0) fives labels s.bytes
    ∧ (rounds labels).map Round.call = [.read 0x8000 16 8]
    ∧ ((rounds labels).map fun r => r.call.returns r.completion) = [.success] := by
  obtain ⟨s₁, s, e, c, hbytes, hoff, hinit, hdone, hrun, hidle⟩ := exists_read
  obtain ⟨labels, hboard, hcalls, hreturns, -⟩ := driver_makes_requests atBoot_coldBoot hinit hdone hrun
    (fun call hcall => by
      rw [eq_of_built hcall]
      exact ⟨by decide, by decide⟩) hidle
  rw [ioEvents_success] at hcalls hreturns
  rw [hbytes, hoff] at hboard
  exact ⟨s, labels, hboard, hcalls, hreturns⟩

end AlopexOS.Nvme
