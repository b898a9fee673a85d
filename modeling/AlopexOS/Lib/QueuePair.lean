import AlopexOS.Lib.Run
import Mathlib.Logic.Function.Basic
import Mathlib.Algebra.Order.Group.Nat

/-!
# `Lib.QueuePair` — a submission ring and a completion ring with a phase tag

A driver and a device share two rings. The driver writes an entry at its tail, rings a doorbell with the new
tail, and looks at the completion slot at its head until that slot carries the phase it expects. The device
fetches the entries up to the doorbell and posts a completion for each, with a tag that inverts on every
wrap. Neither side ever compares an entry with a completion: that the driver takes the completion of its own
entry is an invariant of both sides' counters and of the tags left in the slots.

## Contents
- **Rings.** `phaseAt` and `advance`.
- **The two sides.** `Protocol`, `Pair`, `Event`, `step`.
- **Rounds.** `Stage` and `At`: where in a round the two sides are; one lemma for each stage.
- **Runs.** The events of a run are rounds, one after the other.
- **Starting the device again.**
-/

namespace QueuePair

/-! ## Rings -/

/-- The phase of the `n`-th place: 1 on the first pass, inverted on every wrap. -/
def phaseAt (size n : Nat) : Nat := 1 ^^^ (n / size % 2)

/-- The next place in a ring, and its phase. -/
def advance (size i phase : Nat) : Nat × Nat :=
  let i := (i + 1) % size
  (i, if i = 0 then phase ^^^ 1 else phase)

theorem phaseAt_zero (size : Nat) : phaseAt size 0 = 1 := by
  simp [phaseAt]

theorem phaseAt_flip_ne (size n : Nat) : phaseAt size n ^^^ 1 ≠ phaseAt size n := by
  unfold phaseAt
  rcases Nat.mod_two_eq_zero_or_one (n / size) with h | h
  · rw [h]
    decide
  · rw [h]
    decide

theorem phaseAt_succ {size : Nat} (n : Nat) :
    phaseAt size (n + 1) = if (n + 1) % size = 0 then phaseAt size n ^^^ 1 else phaseAt size n := by
  have hdiv : (n + 1) / size = n / size + if size ∣ n + 1 then 1 else 0 := Nat.succ_div
  simp only [Nat.dvd_iff_mod_eq_zero] at hdiv
  unfold phaseAt
  split
  · rename_i h
    rw [hdiv, if_pos h]
    rcases Nat.mod_two_eq_zero_or_one (n / size) with h2 | h2
    · rw [Nat.add_mod, h2]
      rfl
    · rw [Nat.add_mod, h2]
      rfl
  · rename_i h
    rw [hdiv, if_neg h, Nat.add_zero]

/-- **Counting places and walking the ring are the same.** -/
theorem advance_phaseAt (size n : Nat) :
    advance size (n % size) (phaseAt size n) = ((n + 1) % size, phaseAt size (n + 1)) := by
  unfold advance
  rw [Nat.mod_add_mod, phaseAt_succ]

/-! ## The two sides -/

/-- What the two sides agree on. The driver makes calls `A` that return results `R`; `E` are the entries and
    `C` the completions. -/
structure Protocol (A E C R : Type) where
  size : Nat
  size_gt_one : 1 < size
  /-- The entry a call builds in a slot. -/
  entry : A → Nat → E
  /-- The completions the device may post for an entry. -/
  answers : E → C → Bool
  tag : C → Nat
  /-- What a call returns when it takes a completion. -/
  result : A → C → R

theorem Protocol.size_pos {A E C R : Type} (P : Protocol A E C R) : 0 < P.size :=
  Nat.lt_of_succ_lt P.size_gt_one

/-- The device's side of the rings. -/
structure Device (E : Type) where
  /-- The tail it was told last. -/
  rung : Nat
  /-- The head it was told last. -/
  freed : Nat
  fetchAt : Nat
  postAt : Nat
  postTag : Nat
  pending : List E

/-- A device that has just been started. -/
def Device.fresh {E : Type} : Device E := ⟨0, 0, 0, 0, 1, []⟩

/-- Where the driver is in a call. -/
inductive Turn (A : Type) where
  | idle
  | built (a : A)
  | polling (a : A)
  | matched (a : A)
  deriving DecidableEq

/-- Both rings with the indices of both sides. `turn` says how far the command in flight is. -/
structure Pair (A E C : Type) where
  sq : Nat → E
  cq : Nat → C
  tail : Nat
  head : Nat
  phase : Nat
  turn : Turn A
  dev : Device E

/-- One thing that happens on either side. `wait` is a look at the completion slot that finds the old phase,
    `see` one that finds the expected phase. -/
inductive Event (A E C R : Type) where
  | build (a : A)
  | ring
  | fetch (e : E)
  | post (e : E) (c : C)
  | wait
  | see
  | take (c : C) (r : R)

/-- All events but the looks that find nothing. -/
def Event.busy {A E C R : Type} : Event A E C R → Bool
  | .wait => false
  | _ => true

section

variable {A E C R : Type} [DecidableEq E] [DecidableEq C] [DecidableEq R]

/-- Fetch the entry `e` that stands in the ring. -/
def Device.fetch (size : Nat) (sq : Nat → E) (d : Device E) (e : E) : Option (Device E) :=
  if d.fetchAt ≠ d.rung ∧ e = sq d.fetchAt then
    some { d with fetchAt := (d.fetchAt + 1) % size, pending := d.pending ++ [e] }
  else none

/-- Post a completion for an entry that was fetched, whichever. -/
def Device.post (P : Protocol A E C R) (d : Device E) (e : E) (c : C) : Option (Device E) :=
  if e ∈ d.pending ∧ P.answers e c = true ∧ P.tag c = d.postTag then
    some { d with
      postAt := (advance P.size d.postAt d.postTag).1
      postTag := (advance P.size d.postAt d.postTag).2
      pending := d.pending.erase e }
  else none

/-- An event that the state allows leads to the next state. -/
def step (P : Protocol A E C R) (s : Pair A E C) : Event A E C R → Option (Pair A E C)
  | .build a =>
      match s.turn with
      | .idle =>
          some { s with
            sq := Function.update s.sq s.tail (P.entry a s.tail)
            tail := (s.tail + 1) % P.size
            turn := .built a }
      | _ => none
  | .ring =>
      match s.turn with
      | .built a => some { s with dev := { s.dev with rung := s.tail }, turn := .polling a }
      | _ => none
  | .fetch e => (s.dev.fetch P.size s.sq e).map fun d => { s with dev := d }
  | .post e c =>
      (s.dev.post P e c).map fun d => { s with dev := d, cq := Function.update s.cq s.dev.postAt c }
  | .wait =>
      match s.turn with
      | .polling _ => if P.tag (s.cq s.head) ≠ s.phase then some s else none
      | _ => none
  | .see =>
      match s.turn with
      | .polling a => if P.tag (s.cq s.head) = s.phase then some { s with turn := .matched a } else none
      | _ => none
  | .take c r =>
      match s.turn with
      | .matched a =>
          if c = s.cq s.head ∧ r = P.result a c then
            some { s with
              head := (advance P.size s.head s.phase).1
              phase := (advance P.size s.head s.phase).2
              turn := .idle
              dev := { s.dev with freed := (advance P.size s.head s.phase).1 } }
          else none
      | _ => none

/-! ## Rounds -/

/-- A call with the completion it took. -/
structure Round (A C : Type) where
  call : A
  slot : Nat
  completion : C

/-- The events of a command from its entry to its result. -/
def Round.events (P : Protocol A E C R) (r : Round A C) : List (Event A E C R) :=
  [.build r.call, .ring, .fetch (P.entry r.call r.slot), .post (P.entry r.call r.slot) r.completion, .see,
    .take r.completion (P.result r.call r.completion)]

/-- How far a round has got. -/
inductive Stage (A C : Type) where
  | idle
  | built (a : A)
  | rung (a : A)
  | fetched (a : A)
  | posted (a : A) (c : C)
  | seen (a : A) (c : C)

/-- The events of the round so far. -/
def Stage.events (P : Protocol A E C R) (slot : Nat) : Stage A C → List (Event A E C R)
  | .idle => []
  | .built a => [.build a]
  | .rung a => [.build a, .ring]
  | .fetched a => [.build a, .ring, .fetch (P.entry a slot)]
  | .posted a c => [.build a, .ring, .fetch (P.entry a slot), .post (P.entry a slot) c]
  | .seen a c => [.build a, .ring, .fetch (P.entry a slot), .post (P.entry a slot) c, .see]

/-- The counters, when `b` entries were built, `r` rung, `f` fetched, and `p` completions were posted and `d`
    taken; and the tags in the slots. -/
structure Counts (P : Protocol A E C R) (s : Pair A E C) (b r f p d : Nat) : Prop where
  tail : s.tail = b % P.size
  head : s.head = d % P.size
  phase : s.phase = phaseAt P.size d
  rung : s.dev.rung = r % P.size
  freed : s.dev.freed = d % P.size
  fetchAt : s.dev.fetchAt = f % P.size
  postAt : s.dev.postAt = p % P.size
  postTag : s.dev.postTag = phaseAt P.size p
  tags : ∀ i, i < P.size →
    P.tag (s.cq i) = if i < p % P.size then phaseAt P.size p else phaseAt P.size p ^^^ 1

/-- The two sides are in round `n`, as far as `Stage` says. -/
def At (P : Protocol A E C R) (n : Nat) : Stage A C → Pair A E C → Prop
  | .idle, s => Counts P s n n n n n ∧ s.turn = .idle ∧ s.dev.pending = []
  | .built a, s =>
      Counts P s (n + 1) n n n n ∧ s.turn = .built a ∧ s.dev.pending = []
        ∧ s.sq (n % P.size) = P.entry a (n % P.size)
  | .rung a, s =>
      Counts P s (n + 1) (n + 1) n n n ∧ s.turn = .polling a ∧ s.dev.pending = []
        ∧ s.sq (n % P.size) = P.entry a (n % P.size)
  | .fetched a, s =>
      Counts P s (n + 1) (n + 1) (n + 1) n n ∧ s.turn = .polling a
        ∧ s.dev.pending = [P.entry a (n % P.size)]
  | .posted a c, s =>
      Counts P s (n + 1) (n + 1) (n + 1) (n + 1) n ∧ s.turn = .polling a ∧ s.dev.pending = []
        ∧ s.cq (n % P.size) = c ∧ P.answers (P.entry a (n % P.size)) c = true
        ∧ P.tag c = phaseAt P.size n
  | .seen a c, s =>
      Counts P s (n + 1) (n + 1) (n + 1) (n + 1) n ∧ s.turn = .matched a ∧ s.dev.pending = []
        ∧ s.cq (n % P.size) = c ∧ P.answers (P.entry a (n % P.size)) c = true

variable {P : Protocol A E C R} {s s' : Pair A E C} {n : Nat} {ev : Event A E C R}

omit [DecidableEq E] [DecidableEq C] [DecidableEq R] in
/-- The slot at the place of the next completion still has the tag of the pass before. -/
theorem Counts.tag_old {b r f : Nat} (h : Counts P s b r f n n) : P.tag (s.cq s.head) ≠ s.phase := by
  have hlt : n % P.size < P.size := Nat.mod_lt n P.size_pos
  rw [h.head, h.phase, h.tags _ hlt, if_neg (Nat.lt_irrefl _)]
  exact phaseAt_flip_ne _ _

omit [DecidableEq E] [DecidableEq C] [DecidableEq R] in
/-- Posting into the next slot keeps the tags in order. -/
theorem Counts.post {b r f d : Nat} {c : C} {dev : Device E} (h : Counts P s b r f n d)
    (hc : P.tag c = phaseAt P.size n) (hrung : dev.rung = s.dev.rung) (hfreed : dev.freed = s.dev.freed)
    (hfetch : dev.fetchAt = s.dev.fetchAt) (hpost : dev.postAt = (n + 1) % P.size)
    (htag : dev.postTag = phaseAt P.size (n + 1)) :
    Counts P { s with dev := dev, cq := Function.update s.cq (n % P.size) c } b r f (n + 1) d := by
  refine ⟨h.tail, h.head, h.phase, hrung.trans h.rung, hfreed.trans h.freed, hfetch.trans h.fetchAt,
    hpost, htag, ?_⟩
  intro i hi
  have hlt : n % P.size < P.size := Nat.mod_lt n P.size_pos
  have hnext : (n + 1) % P.size = if n % P.size + 1 = P.size then 0 else n % P.size + 1 := by
    rw [← Nat.mod_add_mod]
    split
    · rename_i hwrap
      rw [hwrap, Nat.mod_self]
    · rename_i hwrap
      exact Nat.mod_eq_of_lt (by omega)
  have hold := h.tags i hi
  dsimp only
  rw [phaseAt_succ]
  by_cases hwrap : n % P.size + 1 = P.size
  · -- the pass is over: every slot carries its tag
    rw [if_pos hwrap] at hnext
    rw [hnext, if_neg (Nat.not_lt_zero i), if_pos rfl, Nat.xor_assoc, Nat.xor_self, Nat.xor_zero]
    by_cases heq : i = n % P.size
    · rw [heq, Function.update_self, hc]
    · rw [Function.update_of_ne heq, hold, if_pos (by omega)]
  · -- one more slot carries the tag of this pass
    rw [if_neg hwrap] at hnext
    rw [hnext, if_neg (Nat.succ_ne_zero _)]
    by_cases heq : i = n % P.size
    · rw [heq, Function.update_self, hc, if_pos (Nat.lt_succ_self _)]
    · rw [Function.update_of_ne heq, hold]
      have hiff : i < n % P.size + 1 ↔ i < n % P.size := by omega
      simp only [hiff]

theorem At.step_idle (h : At P n .idle s) (hs : step P s ev = some s') :
    ∃ a, ev = .build a ∧ At P n (.built a) s' := by
  obtain ⟨hcounts, hturn, hpending⟩ := h
  have hfetch : s.dev.fetchAt = s.dev.rung := hcounts.fetchAt.trans hcounts.rung.symm
  cases ev with
  | build a =>
      simp only [step, hturn, Option.some.injEq] at hs
      subst hs
      refine ⟨a, rfl, ⟨?_, hcounts.head, hcounts.phase, hcounts.rung, hcounts.freed, hcounts.fetchAt,
        hcounts.postAt, hcounts.postTag, hcounts.tags⟩, rfl, hpending, ?_⟩
      · rw [hcounts.tail, Nat.mod_add_mod]
      · simp only [hcounts.tail, Function.update_self]
  | fetch e => simp [step, Device.fetch, hfetch] at hs
  | post e c => simp [step, Device.post, hpending] at hs
  | ring => simp [step, hturn] at hs
  | wait => simp [step, hturn] at hs
  | see => simp [step, hturn] at hs
  | take c r => simp [step, hturn] at hs

theorem At.step_built {a : A} (h : At P n (.built a) s) (hs : step P s ev = some s') :
    ev = .ring ∧ At P n (.rung a) s' := by
  obtain ⟨hcounts, hturn, hpending, hslot⟩ := h
  have hfetch : s.dev.fetchAt = s.dev.rung := hcounts.fetchAt.trans hcounts.rung.symm
  cases ev with
  | ring =>
      simp only [step, hturn, Option.some.injEq] at hs
      subst hs
      exact ⟨rfl, ⟨hcounts.tail, hcounts.head, hcounts.phase, hcounts.tail, hcounts.freed,
        hcounts.fetchAt, hcounts.postAt, hcounts.postTag, hcounts.tags⟩, rfl, hpending, hslot⟩
  | fetch e => simp [step, Device.fetch, hfetch] at hs
  | post e c => simp [step, Device.post, hpending] at hs
  | build a => simp [step, hturn] at hs
  | wait => simp [step, hturn] at hs
  | see => simp [step, hturn] at hs
  | take c r => simp [step, hturn] at hs

theorem At.step_rung {a : A} (h : At P n (.rung a) s) (hs : step P s ev = some s') :
    (ev = .wait ∧ s' = s)
      ∨ (ev = .fetch (P.entry a (n % P.size)) ∧ At P n (.fetched a) s') := by
  obtain ⟨hcounts, hturn, hpending, hslot⟩ := h
  -- nothing is posted yet, so a look finds the tag of the pass before
  have hold := hcounts.tag_old
  cases ev with
  | fetch e =>
      simp only [step, Device.fetch, hcounts.fetchAt, hslot, Option.map_eq_some_iff] at hs
      obtain ⟨d, hd, rfl⟩ := hs
      split at hd
      · rename_i he
        obtain rfl := Option.some.inj hd
        obtain ⟨-, rfl⟩ := he
        refine Or.inr ⟨rfl, ⟨hcounts.tail, hcounts.head, hcounts.phase, hcounts.rung, hcounts.freed, ?_,
          hcounts.postAt, hcounts.postTag, hcounts.tags⟩, hturn, ?_⟩
        · exact Nat.mod_add_mod _ _ _
        · simp [hpending]
      · cases hd
  | wait =>
      simp only [step, hturn] at hs
      rw [if_pos hold] at hs
      exact Or.inl ⟨rfl, (Option.some.inj hs).symm⟩
  | see => simp [step, hturn, hold] at hs
  | post e c => simp [step, Device.post, hpending] at hs
  | build a => simp [step, hturn] at hs
  | ring => simp [step, hturn] at hs
  | take c r => simp [step, hturn] at hs

theorem At.step_fetched {a : A} (h : At P n (.fetched a) s) (hs : step P s ev = some s') :
    (ev = .wait ∧ s' = s)
      ∨ ∃ c, ev = .post (P.entry a (n % P.size)) c ∧ At P n (.posted a c) s' := by
  obtain ⟨hcounts, hturn, hpending⟩ := h
  have hfetch : s.dev.fetchAt = s.dev.rung := hcounts.fetchAt.trans hcounts.rung.symm
  have hold := hcounts.tag_old
  cases ev with
  | post e c =>
      simp only [step, Device.post, hpending, Option.map_eq_some_iff] at hs
      obtain ⟨d, hd, rfl⟩ := hs
      split at hd
      · rename_i he
        obtain rfl := Option.some.inj hd
        obtain ⟨hmem, hanswers, htag⟩ := he
        obtain rfl := List.mem_singleton.mp hmem
        rw [hcounts.postTag] at htag
        refine Or.inr ⟨c, rfl, ?_, hturn, by simp, ?_, hanswers, htag⟩
        · rw [hcounts.postAt]
          exact hcounts.post htag rfl rfl rfl
            (by rw [hcounts.postTag, advance_phaseAt]) (by rw [hcounts.postTag, advance_phaseAt])
        · simp only [hcounts.postAt, Function.update_self]
      · cases hd
  | wait =>
      simp only [step, hturn] at hs
      rw [if_pos hold] at hs
      exact Or.inl ⟨rfl, (Option.some.inj hs).symm⟩
  | see => simp [step, hturn, hold] at hs
  | fetch e => simp [step, Device.fetch, hfetch] at hs
  | build a => simp [step, hturn] at hs
  | ring => simp [step, hturn] at hs
  | take c r => simp [step, hturn] at hs

/-- Once the completion is there, the driver does not miss it. -/
theorem At.step_posted {a : A} {c : C} (h : At P n (.posted a c) s) (hs : step P s ev = some s') :
    ev = .see ∧ At P n (.seen a c) s' := by
  obtain ⟨hcounts, hturn, hpending, hslot, hanswers, htag⟩ := h
  have hfetch : s.dev.fetchAt = s.dev.rung := hcounts.fetchAt.trans hcounts.rung.symm
  have hnew : P.tag (s.cq s.head) = s.phase := by rw [hcounts.head, hslot, htag, hcounts.phase]
  cases ev with
  | see =>
      simp only [step, hturn, if_pos hnew, Option.some.injEq] at hs
      subst hs
      exact ⟨rfl, ⟨hcounts.tail, hcounts.head, hcounts.phase, hcounts.rung, hcounts.freed,
        hcounts.fetchAt, hcounts.postAt, hcounts.postTag, hcounts.tags⟩, rfl, hpending, hslot, hanswers⟩
  | wait => simp [step, hturn, hnew] at hs
  | fetch e => simp [step, Device.fetch, hfetch] at hs
  | post e c => simp [step, Device.post, hpending] at hs
  | build a => simp [step, hturn] at hs
  | ring => simp [step, hturn] at hs
  | take c r => simp [step, hturn] at hs

theorem At.step_seen {a : A} {c : C} (h : At P n (.seen a c) s) (hs : step P s ev = some s') :
    ev = .take c (P.result a c) ∧ At P (n + 1) .idle s' := by
  obtain ⟨hcounts, hturn, hpending, hslot, hanswers⟩ := h
  have hfetch : s.dev.fetchAt = s.dev.rung := hcounts.fetchAt.trans hcounts.rung.symm
  cases ev with
  | take c' r =>
      simp only [step, hturn] at hs
      split at hs
      · rename_i he
        obtain ⟨hc, rfl⟩ := he
        obtain rfl := Option.some.inj hs
        rw [hcounts.head, hslot] at hc
        subst hc
        have hnext := advance_phaseAt P.size n
        rw [← hcounts.head, ← hcounts.phase] at hnext
        refine ⟨rfl, ⟨hcounts.tail, ?_, ?_, hcounts.rung, ?_, hcounts.fetchAt, hcounts.postAt,
          hcounts.postTag, hcounts.tags⟩, rfl, hpending⟩
        · simp only [hnext]
        · simp only [hnext]
        · simp only [hnext]
      · cases hs
  | fetch e => simp [step, Device.fetch, hfetch] at hs
  | post e c => simp [step, Device.post, hpending] at hs
  | build a => simp [step, hturn] at hs
  | ring => simp [step, hturn] at hs
  | wait => simp [step, hturn] at hs
  | see => simp [step, hturn] at hs

/-- **One step of either side**: nothing new, one event further in the round, or the round is over. -/
theorem At.round_step {st : Stage A C} (h : At P n st s) (hs : step P s ev = some s') :
    (ev.busy = false ∧ s' = s)
      ∨ (ev.busy = true ∧ ∃ st', At P n st' s'
          ∧ st'.events P (n % P.size) = st.events P (n % P.size) ++ [ev])
      ∨ (ev.busy = true ∧ ∃ r : Round A C, At P (n + 1) .idle s' ∧ r.slot = n % P.size
          ∧ P.answers (P.entry r.call r.slot) r.completion = true
          ∧ r.events P = st.events P (n % P.size) ++ [ev]) := by
  cases st with
  | idle =>
      obtain ⟨a, rfl, h'⟩ := h.step_idle hs
      exact Or.inr (Or.inl ⟨rfl, _, h', rfl⟩)
  | built a =>
      obtain ⟨rfl, h'⟩ := h.step_built hs
      exact Or.inr (Or.inl ⟨rfl, _, h', rfl⟩)
  | rung a =>
      rcases h.step_rung hs with ⟨rfl, rfl⟩ | ⟨rfl, h'⟩
      · exact Or.inl ⟨rfl, rfl⟩
      · exact Or.inr (Or.inl ⟨rfl, _, h', rfl⟩)
  | fetched a =>
      rcases h.step_fetched hs with ⟨rfl, rfl⟩ | ⟨c, rfl, h'⟩
      · exact Or.inl ⟨rfl, rfl⟩
      · exact Or.inr (Or.inl ⟨rfl, _, h', rfl⟩)
  | posted a c =>
      obtain ⟨rfl, h'⟩ := h.step_posted hs
      exact Or.inr (Or.inl ⟨rfl, _, h', rfl⟩)
  | seen a c =>
      have hanswers := h.2.2.2.2
      obtain ⟨rfl, h'⟩ := h.step_seen hs
      exact Or.inr (Or.inr ⟨rfl, ⟨a, n % P.size, c⟩, h', rfl, hanswers, rfl⟩)

omit [DecidableEq E] [DecidableEq C] [DecidableEq R] in
/-- The driver is between two calls only when a round is over. -/
theorem At.idle_of_turn {st : Stage A C} (h : At P n st s) (hturn : s.turn = .idle) : st = .idle := by
  cases st with
  | idle => rfl
  | built a => exact absurd (hturn.symm.trans h.2.1) (by simp)
  | rung a => exact absurd (hturn.symm.trans h.2.1) (by simp)
  | fetched a => exact absurd (hturn.symm.trans h.2.1) (by simp)
  | posted a c => exact absurd (hturn.symm.trans h.2.1) (by simp)
  | seen a c => exact absurd (hturn.symm.trans h.2.1) (by simp)

/-- In the middle of a round one side can go on, when the device has a completion for every entry. -/
theorem At.enabled {st : Stage A C} (hpost : ∀ e n, ∃ c, P.answers e c = true ∧ P.tag c = phaseAt P.size n)
    (h : At P n st s) (hne : st ≠ .idle) : ∃ ev, (step P s ev).isSome = true ∧ ev.busy = true := by
  cases st with
  | idle => exact absurd rfl hne
  | built a =>
      obtain ⟨-, hturn, -⟩ := h
      exact ⟨.ring, by simp only [step, hturn, Option.isSome_some], rfl⟩
  | rung a =>
      obtain ⟨hcounts, -, -, -⟩ := h
      have hrung : s.dev.fetchAt ≠ s.dev.rung := by
        rw [hcounts.fetchAt, hcounts.rung]
        intro he
        -- the ring has more than one slot
        have hdiff := Nat.sub_mod_eq_zero_of_mod_eq he.symm
        rw [Nat.add_sub_cancel_left, Nat.mod_eq_of_lt P.size_gt_one] at hdiff
        cases hdiff
      exact ⟨.fetch (s.sq s.dev.fetchAt), by simp [step, Device.fetch, hrung], rfl⟩
  | fetched a =>
      obtain ⟨hcounts, -, hpending⟩ := h
      obtain ⟨c, hanswers, htag⟩ := hpost (P.entry a (n % P.size)) n
      rw [← hcounts.postTag] at htag
      exact ⟨.post (P.entry a (n % P.size)) c, by simp [step, Device.post, hpending, hanswers, htag], rfl⟩
  | posted a c =>
      obtain ⟨hcounts, hturn, -, hslot, -, htag⟩ := h
      have hnew : P.tag (s.cq s.head) = s.phase := by rw [hcounts.head, hslot, htag, hcounts.phase]
      exact ⟨.see, by simp only [step, hturn, hnew, if_true, Option.isSome_some], rfl⟩
  | seen a c =>
      obtain ⟨-, hturn, -⟩ := h
      exact ⟨.take (s.cq s.head) (P.result a (s.cq s.head)), by simp [step, hturn], rfl⟩

/-- **A round that was begun can be ended.** -/
theorem At.finish {st : Stage A C} (hpost : ∀ e n, ∃ c, P.answers e c = true ∧ P.tag c = phaseAt P.size n)
    (h : At P n st s) (hne : st ≠ .idle) :
    ∃ events s', Run (fun s ev s' => step P s ev = some s') s events s' ∧ At P (n + 1) .idle s' := by
  -- each busy step makes the events of the round longer, and there are six
  obtain ⟨k, hk⟩ : ∃ k, (st.events P (n % P.size)).length + k = 6 := by
    cases st <;> exact ⟨_, Nat.add_sub_of_le (by simp [Stage.events])⟩
  induction k generalizing s st with
  | zero => cases st <;> simp [Stage.events] at hk
  | succ k ih =>
      obtain ⟨ev, hsome, hbusy⟩ := h.enabled hpost hne
      obtain ⟨s₁, hs⟩ := Option.isSome_iff_exists.mp hsome
      rcases h.round_step hs with ⟨hidle, -⟩ | ⟨-, st', h', he⟩ | ⟨-, r, h', -⟩
      · exact absurd (hbusy.symm.trans hidle) (by simp)
      · have hne' : st' ≠ .idle := by
          rintro rfl
          simp [Stage.events] at he
        obtain ⟨events, s₂, hrun, h''⟩ := ih h' hne' (by rw [he, List.length_append, List.length_singleton]; omega)
        exact ⟨_, s₂, (Run.single hs).trans hrun, h''⟩
      · exact ⟨_, s₁, Run.single hs, h'⟩

/-! ## Runs -/

/-- The events so far are whole rounds, each with a completion for its own entry, and the round the two sides
    are in. `n` rounds have been made since the device was started. -/
structure InStep (P : Protocol A E C R) (n : Nat) (rounds : List (Round A C)) (st : Stage A C)
    (events : List (Event A E C R)) (s : Pair A E C) : Prop where
  place : At P n st s
  events_eq : events.filter Event.busy = rounds.flatMap (Round.events P) ++ st.events P (n % P.size)
  answered : ∀ r ∈ rounds, P.answers (P.entry r.call r.slot) r.completion = true

/-- **What a step does to the rounds.** -/
theorem InStep.step {rounds : List (Round A C)} {st : Stage A C} {events : List (Event A E C R)}
    (h : InStep P n rounds st events s) (hs : QueuePair.step P s ev = some s') :
    (∃ st', InStep P n rounds st' (events ++ [ev]) s')
      ∨ ∃ r : Round A C, r.slot = n % P.size
          ∧ InStep P (n + 1) (rounds ++ [r]) .idle (events ++ [ev]) s' := by
  rcases h.place.round_step hs with ⟨hbusy, rfl⟩ | ⟨hbusy, st', hat, he⟩ | ⟨hbusy, r, hat, hslot, ha, he⟩
  · refine Or.inl ⟨st, h.place, ?_, h.answered⟩
    rw [List.filter_append, h.events_eq]
    simp [hbusy]
  · refine Or.inl ⟨st', hat, ?_, h.answered⟩
    rw [List.filter_append, h.events_eq, he]
    simp [hbusy]
  · refine Or.inr ⟨r, hslot, hat, ?_, ?_⟩
    · rw [List.filter_append, h.events_eq, List.flatMap_append, List.flatMap_singleton, he]
      simp [hbusy, Stage.events]
    · intro r' hr'
      rcases List.mem_append.mp hr' with hr' | hr'
      · exact h.answered r' hr'
      · exact List.mem_singleton.mp hr' ▸ ha

omit [DecidableEq E] [DecidableEq C] [DecidableEq R] in
/-- A pair that was never used: the counters are zero and no slot has the first tag. -/
theorem at_start (htail : s.tail = 0) (hhead : s.head = 0) (hphase : s.phase = 1) (hturn : s.turn = .idle)
    (hdev : s.dev = .fresh) (htags : ∀ i, i < P.size → P.tag (s.cq i) = 0) : At P 0 .idle s := by
  refine ⟨⟨?_, ?_, ?_, ?_, ?_, ?_, ?_, ?_, ?_⟩, hturn, ?_⟩
  · rw [htail, Nat.zero_mod]
  · rw [hhead, Nat.zero_mod]
  · rw [hphase, phaseAt_zero]
  · rw [hdev, Nat.zero_mod]
    rfl
  · rw [hdev, Nat.zero_mod]
    rfl
  · rw [hdev, Nat.zero_mod]
    rfl
  · rw [hdev, Nat.zero_mod]
    rfl
  · rw [hdev, phaseAt_zero]
    rfl
  · intro i hi
    rw [htags i hi, Nat.zero_mod, if_neg (Nat.not_lt_zero i), phaseAt_zero]
    rfl
  · rw [hdev]
    rfl

/-- **The two sides stay in step** in every run from a pair that was never used: the events are rounds, and
    round `i` is in slot `i`, modulo the size. -/
theorem inStep_of_run {events : List (Event A E C R)}
    (h : Run (fun s ev s' => QueuePair.step P s ev = some s') s events s') (h0 : At P 0 .idle s) :
    ∃ rounds st, InStep P rounds.length rounds st events s'
      ∧ rounds.map Round.slot = (List.range rounds.length).map (· % P.size) := by
  refine h.history (H := fun events s' => ∃ rounds st, InStep P rounds.length rounds st events s'
      ∧ rounds.map Round.slot = (List.range rounds.length).map (· % P.size)) ?_ ?_
  · intro events s₁ ev s₂ hs hin
    obtain ⟨rounds, st, hin, hslots⟩ := hin
    -- the step goes on with the round in progress, or ends it
    rcases hin.step hs with ⟨st', hin'⟩ | ⟨r, hslot, hin'⟩
    · exact ⟨rounds, st', hin', hslots⟩
    · refine ⟨rounds ++ [r], .idle, ?_, ?_⟩
      · rw [List.length_append, List.length_singleton]
        exact hin'
      · rw [List.length_append, List.length_singleton, List.range_succ, List.map_append, List.map_append,
          hslots, List.map_singleton, List.map_singleton, hslot]
  · exact ⟨[], .idle, ⟨h0, rfl, by simp⟩, rfl⟩

/-! ## Starting the device again -/

omit [DecidableEq E] [DecidableEq C] [DecidableEq R] in
/-- **A device that is started again** is in step with a driver whose counters are those of the start. -/
theorem At.restart (h : At P n .idle s) (htail : s.tail = 0) (hphase : s.phase = 1) :
    At P 0 .idle { s with dev := .fresh } := by
  obtain ⟨hcounts, hturn, -⟩ := h
  have hn : n % P.size = 0 := hcounts.tail.symm.trans htail
  refine at_start htail (hcounts.head.trans hn) hphase hturn rfl ?_
  intro i hi
  have htag := hcounts.tags i hi
  rw [hn, if_neg (Nat.not_lt_zero i), ← hcounts.phase, hphase] at htag
  exact htag

end

end QueuePair
