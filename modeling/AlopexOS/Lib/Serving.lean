import AlopexOS.Lib.QueuePair
import Mathlib.Logic.Relation

/-!
# `Lib.Serving` — the work behind a queue pair

Between fetching an entry and posting its completion a device carries the entry out, in pieces, on a world
that it shares with the driver. While a call waits nobody else touches that world, so each call looks as if
it had been carried out at once when it returns, whatever the timing of the device and the order of the
pieces.

## Contents
- **Workers.** How an entry is carried out, and when its completion may be posted.
- **The device at work**: `Serves`.
- **Serial runs**: `Serial`, and what holds of a run (`Serialized`).
- **Calls and results** of whole rounds.
-/

namespace QueuePair

open Relation

/-! ## Workers -/

/-- How a device carries out entries on a world `W`. `K` is how far it has got with one. -/
structure Worker (E C K W : Type) where
  start : K
  /-- One piece of the work. -/
  Work : E → K × W → K × W → Prop
  /-- The completion may be posted. -/
  Done : E → C → K → Prop

/-- All the work for an entry up to its completion. -/
def Worker.CarriesOut {E C K W : Type} (X : Worker E C K W) (e : E) (c : C) (w w' : W) : Prop :=
  ∃ k, ReflTransGen (X.Work e) (X.start, w) (k, w') ∧ X.Done e c k

section

variable {A E C R K W B : Type} [DecidableEq E] [DecidableEq C] [DecidableEq R]

/-! ## The device at work -/

/-- The two sides, how far the device has got with the entries it has fetched, and the world. -/
structure Serving (A E C K W : Type) where
  pair : Pair A E C
  progress : E → K
  world : W

/-- What happens: an event of the pair, a piece of work, or something from outside. -/
inductive ServeEvent (A E C R B : Type) where
  | pair (ev : Event A E C R)
  | work (e : E)
  | outside (b : B)

/-- An entry that is fetched is begun. -/
def Worker.begins (X : Worker E C K W) (progress : E → K) : Event A E C R → E → K
  | .fetch e => Function.update progress e X.start
  | _ => progress

/-- The device works on what it has fetched and not completed; the world changes from outside only while
    the driver makes no call. -/
inductive Serves (P : Protocol A E C R) (X : Worker E C K W) (O : W → B → W → Prop)
    (s : Serving A E C K W) : ServeEvent A E C R B → Serving A E C K W → Prop
  | pair {ev : Event A E C R} {p : Pair A E C} (hs : step P s.pair ev = some p)
      (hpost : ∀ e c, ev = .post e c → X.Done e c (s.progress e)) :
      Serves P X O s (.pair ev) ⟨p, X.begins s.progress ev, s.world⟩
  | work {e : E} {k : K} {w : W} (he : e ∈ s.pair.dev.pending)
      (hw : X.Work e (s.progress e, s.world) (k, w)) :
      Serves P X O s (.work e) ⟨s.pair, Function.update s.progress e k, w⟩
  | outside {b : B} {w : W} (hidle : s.pair.turn = .idle) (ho : O s.world b w) :
      Serves P X O s (.outside b) { s with world := w }

/-! ## Serial runs -/

/-- Whole calls and changes from outside, one at a time. -/
inductive Serial (P : Protocol A E C R) (X : Worker E C K W) (O : W → B → W → Prop) (w : W) :
    Round A C ⊕ B → W → Prop
  | round {r : Round A C} {w' : W} (h : X.CarriesOut (P.entry r.call r.slot) r.completion w w') :
      Serial P X O w (.inl r) w'
  | outside {b : B} {w' : W} (h : O w b w') : Serial P X O w (.inr b) w'

/-- What became of the world `w` in the round so far. -/
def Stage.Effect (P : Protocol A E C R) (X : Worker E C K W) (slot : Nat) (w : W) (s : Serving A E C K W) :
    Stage A C → Prop
  | .fetched a =>
      ReflTransGen (X.Work (P.entry a slot)) (X.start, w) (s.progress (P.entry a slot), s.world)
  | .posted a c => X.CarriesOut (P.entry a slot) c w s.world
  | .seen a c => X.CarriesOut (P.entry a slot) c w s.world
  | _ => s.world = w

/-- What happens on the pair of queues. -/
def pairEvents (events : List (ServeEvent A E C R B)) : List (Event A E C R) :=
  events.filterMap fun
    | .pair ev => some ev
    | _ => none

/-- What happens outside of it. -/
def outsideEvents (events : List (ServeEvent A E C R B)) : List B :=
  events.filterMap fun
    | .outside b => some b
    | _ => none

/-- The events so far are a serial run, and the round the two sides are in. -/
structure Serialized (P : Protocol A E C R) (X : Worker E C K W) (O : W → B → W → Prop) (w₀ : W)
    (labels : List (Round A C ⊕ B)) (st : Stage A C) (events : List (ServeEvent A E C R B))
    (s : Serving A E C K W) : Prop where
  rounds : InStep P (labels.filterMap Sum.getLeft?).length (labels.filterMap Sum.getLeft?) st
    (pairEvents events) s.pair
  slots : (labels.filterMap Sum.getLeft?).map Round.slot
    = (List.range (labels.filterMap Sum.getLeft?).length).map (· % P.size)
  outside : labels.filterMap Sum.getRight? = outsideEvents events
  history : ∃ w, Run (Serial P X O) w₀ labels w
    ∧ st.Effect P X ((labels.filterMap Sum.getLeft?).length % P.size) w s

variable {P : Protocol A E C R} {X : Worker E C K W} {O : W → B → W → Prop} {s s' : Serving A E C K W}
  {st st' : Stage A C} {ev : Event A E C R} {p : Pair A E C} {slot : Nat} {w w₀ : W}
  {labels : List (Round A C ⊕ B)} {events : List (ServeEvent A E C R B)}

omit [DecidableEq C] [DecidableEq R] in
/-- **One event further in a round**, the world has gone one event further too. -/
theorem Stage.Effect.snoc (hev : st'.events P slot = st.events P slot ++ [ev])
    (hpost : ∀ e c, ev = .post e c → X.Done e c (s.progress e)) (h : st.Effect P X slot w s) :
    st'.Effect P X slot w ⟨p, X.begins s.progress ev, s.world⟩ := by
  cases st with
  | idle => cases st' <;> simp_all [Stage.events, Stage.Effect]
  | built a => cases st' <;> simp_all [Stage.events, Stage.Effect]
  | rung a =>
      cases st' with
      | fetched a' =>
          simp only [Stage.events, List.cons_append, List.nil_append, List.cons.injEq, Event.build.injEq,
            true_and, and_true] at hev
          obtain ⟨rfl, rfl⟩ := hev
          obtain rfl : s.world = w := h
          simp only [Stage.Effect, Worker.begins, Function.update_self]
          exact ReflTransGen.refl
      | _ => simp_all [Stage.events]
  | fetched a =>
      cases st' with
      | posted a' c =>
          simp only [Stage.events, List.cons_append, List.nil_append, List.cons.injEq, Event.build.injEq,
            true_and, and_true] at hev
          obtain ⟨rfl, -, rfl⟩ := hev
          exact ⟨_, h, hpost _ _ rfl⟩
      | _ => simp_all [Stage.events]
  | posted a c => cases st' <;> simp_all [Stage.events, Stage.Effect]
  | seen a c => cases st' <;> simp_all [Stage.events]

omit [DecidableEq E] [DecidableEq C] [DecidableEq R] in
/-- **A round that is over** was carried out. -/
theorem Stage.Effect.last {r : Round A C} (hslot : r.slot = slot)
    (hev : r.events P = st.events P slot ++ [ev]) (h : st.Effect P X slot w s) :
    X.CarriesOut (P.entry r.call r.slot) r.completion w s.world := by
  subst hslot
  cases st with
  | seen a c =>
      simp only [Stage.events, Round.events, List.cons_append, List.nil_append, List.cons.injEq,
        Event.build.injEq, Event.post.injEq, true_and] at hev
      obtain ⟨rfl, -, ⟨-, rfl⟩, -⟩ := hev
      exact h
  | _ => simp_all [Stage.events, Round.events]

omit [DecidableEq E] [DecidableEq C] [DecidableEq R] in
theorem pairEvents_append (events more : List (ServeEvent A E C R B)) :
    pairEvents (events ++ more) = pairEvents events ++ pairEvents more := List.filterMap_append

omit [DecidableEq E] [DecidableEq C] [DecidableEq R] in
theorem outsideEvents_append (events more : List (ServeEvent A E C R B)) :
    outsideEvents (events ++ more) = outsideEvents events ++ outsideEvents more := List.filterMap_append

omit [DecidableEq E] [DecidableEq C] [DecidableEq R] in
/-- What the device has fetched is the entry of the round. -/
theorem At.eq_fetched {n : Nat} {e : E} (h : At P n st p) (he : e ∈ p.dev.pending) :
    ∃ a, st = .fetched a ∧ e = P.entry a (n % P.size) := by
  cases st with
  | fetched a =>
      obtain ⟨-, -, hpending⟩ := h
      rw [hpending] at he
      exact ⟨a, rfl, List.mem_singleton.mp he⟩
  | idle => exact absurd (h.2.2 ▸ he) List.not_mem_nil
  | built a => exact absurd (h.2.2.1 ▸ he) List.not_mem_nil
  | rung a => exact absurd (h.2.2.1 ▸ he) List.not_mem_nil
  | posted a c => exact absurd (h.2.2.1 ▸ he) List.not_mem_nil
  | seen a c => exact absurd (h.2.2.1 ▸ he) List.not_mem_nil

omit [DecidableEq C] [DecidableEq R] in
theorem Worker.begins_not_busy (X : Worker E C K W) (progress : E → K) (h : ev.busy = false) :
    X.begins progress ev = progress := by
  cases ev <;> first | rfl | cases h

/-- **An event of the pair** goes on with the round in progress, or ends it. -/
theorem Serialized.pair (h : Serialized P X O w₀ labels st events s) (hs : step P s.pair ev = some p)
    (hpost : ∀ e c, ev = .post e c → X.Done e c (s.progress e)) :
    ∃ labels' st', Serialized P X O w₀ labels' st' (events ++ [.pair ev])
      ⟨p, X.begins s.progress ev, s.world⟩ := by
  obtain ⟨hin, hslots, hout, w, hrun, heff⟩ := h
  have hevents : (pairEvents (events ++ [ServeEvent.pair (B := B) ev])).filter Event.busy
      = (pairEvents events).filter Event.busy ++ [ev].filter Event.busy := by
    rw [pairEvents_append, List.filter_append]
    rfl
  have houtside : outsideEvents (events ++ [ServeEvent.pair (B := B) ev]) = outsideEvents events := by
    rw [outsideEvents_append]
    exact List.append_nil _
  rcases hin.place.round_step hs with ⟨hbusy, rfl⟩ | ⟨hbusy, st', hat, he⟩ | ⟨hbusy, r, hat, hslot, ha, he⟩
  · refine ⟨labels, st, ⟨hin.place, ?_, hin.answered⟩, hslots, hout.trans houtside.symm, w, hrun, ?_⟩
    · rw [hevents, hin.events_eq, List.filter_cons_of_neg (by simp [hbusy])]
      exact List.append_nil _
    · rw [X.begins_not_busy _ hbusy]
      exact heff
  · refine ⟨labels, st', ⟨hat, ?_, hin.answered⟩, hslots, hout.trans houtside.symm, w, hrun,
      heff.snoc he hpost⟩
    rw [hevents, hin.events_eq, he, List.filter_cons_of_pos hbusy, List.append_assoc]
    rfl
  · -- the call returns
    have hrounds : (labels ++ [Sum.inl r]).filterMap Sum.getLeft? = labels.filterMap Sum.getLeft? ++ [r] := by
      rw [List.filterMap_append]
      rfl
    refine ⟨labels ++ [.inl r], .idle, ⟨?_, ?_, ?_⟩, ?_, ?_, s.world, hrun.step (.round (heff.last hslot he)), rfl⟩
    · rw [hrounds, List.length_append]
      exact hat
    · rw [hevents, hin.events_eq, hrounds, List.flatMap_append, List.flatMap_singleton, he,
        List.filter_cons_of_pos hbusy, List.append_assoc]
      exact (List.append_nil _).symm
    · rw [hrounds]
      exact List.forall_mem_append.mpr ⟨hin.answered, List.forall_mem_singleton.mpr ha⟩
    · rw [hrounds, List.length_append, List.length_singleton, List.range_succ, List.map_append, List.map_append,
        hslots, List.map_singleton, List.map_singleton, hslot]
    · rw [List.filterMap_append, hout, houtside]
      exact List.append_nil _

/-- **What a step does to the calls so far.** -/
theorem Serialized.step {ev : ServeEvent A E C R B} (h : Serialized P X O w₀ labels st events s)
    (hs : Serves P X O s ev s') : ∃ labels' st', Serialized P X O w₀ labels' st' (events ++ [ev]) s' := by
  cases hs with
  | pair hs hpost => exact h.pair hs hpost
  | work he hw =>
      obtain ⟨hin, hslots, hout, w, hrun, heff⟩ := h
      obtain ⟨a, rfl, rfl⟩ := hin.place.eq_fetched he
      refine ⟨labels, .fetched a, ⟨hin.place, ?_, hin.answered⟩, hslots, ?_, w, hrun, ?_⟩
      · rw [pairEvents_append, ← hin.events_eq]
        exact congrArg (List.filter Event.busy) (List.append_nil _)
      · rw [outsideEvents_append, hout]
        exact (List.append_nil _).symm
      · simp only [Stage.Effect, Function.update_self]
        exact heff.tail hw
  | outside hidle ho =>
      rename_i b w'
      obtain ⟨hin, hslots, hout, w, hrun, heff⟩ := h
      obtain rfl := hin.place.idle_of_turn hidle
      obtain rfl : s.world = w := heff
      have hrounds : (labels ++ [Sum.inr b]).filterMap Sum.getLeft?
          = labels.filterMap (@Sum.getLeft? (Round A C) B) := by
        rw [List.filterMap_append]
        exact List.append_nil _
      refine ⟨labels ++ [.inr b], .idle, ⟨?_, ?_, ?_⟩, ?_, ?_, w', hrun.step (.outside ho), rfl⟩
      · rw [hrounds]
        exact hin.place
      · rw [pairEvents_append, hrounds, ← hin.events_eq]
        exact congrArg (List.filter Event.busy) (List.append_nil _)
      · rw [hrounds]
        exact hin.answered
      · rw [hrounds]
        exact hslots
      · rw [List.filterMap_append, outsideEvents_append, hout]
        rfl

/-- **Calls look as if each was made at once.** In every run from a pair that was never used, the world is what
    the calls that have returned and the changes from outside have left of it, one after the other, and what
    the call in progress has done since. -/
theorem serialized_of_run (h : Run (Serves P X O) s events s') (h0 : At P 0 .idle s.pair) :
    ∃ labels st, Serialized P X O s.world labels st events s' := by
  refine h.history (H := fun events s' => ∃ labels st, Serialized P X O s.world labels st events s') ?_ ?_
  · intro events s₁ ev s₂ hs hin
    obtain ⟨labels, st, hin⟩ := hin
    exact hin.step hs
  · exact ⟨[], .idle, ⟨h0, rfl, fun _ hr => absurd hr List.not_mem_nil⟩, rfl, rfl, s.world, .start, rfl⟩

/-- **A call can be made** between two calls, with any completion the device may post for its entry. -/
theorem At.exists_round {q : Pair A E C} {n : Nat} {a : A} {c : C}
    (hpost : ∀ e n, ∃ c, P.answers e c = true ∧ P.tag c = phaseAt P.size n) (h : At P n .idle q)
    (hanswers : P.answers (P.entry a (n % P.size)) c = true) (htag : P.tag c = phaseAt P.size n) :
    ∃ q₁ q₂ q₃ q₄ q₅ q₆, step P q (.build a) = some q₁ ∧ step P q₁ .ring = some q₂
      ∧ step P q₂ (.fetch (P.entry a (n % P.size))) = some q₃ ∧ At P n (.fetched a) q₃
      ∧ step P q₃ (.post (P.entry a (n % P.size)) c) = some q₄ ∧ step P q₄ .see = some q₅
      ∧ step P q₅ (.take c (P.result a c)) = some q₆ ∧ At P (n + 1) .idle q₆ := by
  have hbuild : (step P q (.build a)).isSome = true := by simp only [step, h.2.1, Option.isSome_some]
  obtain ⟨p₁, hs₁⟩ := Option.isSome_iff_exists.mp hbuild
  obtain ⟨a', ha, hat₁⟩ := h.step_idle hs₁
  obtain rfl : a = a' := Event.build.inj ha
  obtain ⟨ev₂, hsome₂, -⟩ := hat₁.enabled hpost (by simp)
  obtain ⟨p₂, hs₂⟩ := Option.isSome_iff_exists.mp hsome₂
  obtain ⟨rfl, hat₂⟩ := hat₁.step_built hs₂
  obtain ⟨ev₃, hsome₃, hbusy₃⟩ := hat₂.enabled hpost (by simp)
  obtain ⟨p₃, hs₃⟩ := Option.isSome_iff_exists.mp hsome₃
  rcases hat₂.step_rung hs₃ with ⟨rfl, -⟩ | ⟨rfl, hat₃⟩
  · cases hbusy₃
  -- the completion is given
  have hsome₄ : (step P p₃ (.post (P.entry a (n % P.size)) c)).isSome = true := by
    obtain ⟨hcounts, -, hpending⟩ := hat₃
    rw [← hcounts.postTag] at htag
    simp [step, Device.post, hpending, hanswers, htag]
  obtain ⟨p₄, hs₄⟩ := Option.isSome_iff_exists.mp hsome₄
  rcases hat₃.step_fetched hs₄ with ⟨hwait, -⟩ | ⟨c', hc, hat₄⟩
  · cases hwait
  obtain ⟨-, rfl⟩ := Event.post.inj hc
  obtain ⟨ev₅, hsome₅, -⟩ := hat₄.enabled hpost (by simp)
  obtain ⟨p₅, hs₅⟩ := Option.isSome_iff_exists.mp hsome₅
  obtain ⟨rfl, hat₅⟩ := hat₄.step_posted hs₅
  obtain ⟨ev₆, hsome₆, -⟩ := hat₅.enabled hpost (by simp)
  obtain ⟨p₆, hs₆⟩ := Option.isSome_iff_exists.mp hsome₆
  obtain ⟨rfl, hat₆⟩ := hat₅.step_seen hs₆
  exact ⟨p₁, p₂, p₃, p₄, p₅, p₆, hs₁, hs₂, hs₃, hat₃, hs₄, hs₅, hs₆, hat₆⟩

/-! ## Calls and results -/

/-- The call that an event begins. -/
def Event.called : Event A E C R → Option A
  | .build a => some a
  | _ => none

/-- The result that an event returns. -/
def Event.returned : Event A E C R → Option R
  | .take _ r => some r
  | _ => none

omit [DecidableEq E] [DecidableEq C] [DecidableEq R] in
/-- The looks that find nothing begin and return nothing. -/
theorem filterMap_busy {T : Type} {f : Event A E C R → Option T} (hf : f .wait = none) (evs : List (Event A E C R)) :
    (evs.filter Event.busy).filterMap f = evs.filterMap f := by
  rw [List.filterMap_filter]
  congr 1
  funext ev
  cases ev with
  | wait => exact hf.symm
  | _ => rfl

omit [DecidableEq E] [DecidableEq C] [DecidableEq R] in
/-- **Whole rounds** begin their calls and return their results, in order. -/
theorem calls_of_rounds {evs : List (Event A E C R)} {rs : List (Round A C)}
    (h : evs.filter Event.busy = rs.flatMap (Round.events P)) :
    evs.filterMap Event.called = rs.map Round.call
      ∧ evs.filterMap Event.returned = rs.map fun r => P.result r.call r.completion := by
  rw [← filterMap_busy rfl evs, ← filterMap_busy rfl evs, h, List.filterMap_flatMap, List.filterMap_flatMap]
  exact ⟨List.map_eq_flatMap.symm, List.map_eq_flatMap.symm⟩

end

end QueuePair
