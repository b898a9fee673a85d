import AlopexOS.Nvme.IoRing
import AlopexOS.Nvme.Transfer
import AlopexOS.Lib.Serving

/-!
# `Nvme.Moving` — a block command, byte by byte

`Nvme.Transfer` carries out a command in one step. A controller moves the bytes of a command one by one, in
any order and some of them more than once, between fetching the entry and posting the completion. When they
lie at different addresses, and all of them were moved, that is the one step.

## Contents
- **Moving bytes**: `mover`, as the worker behind a queue pair.
- **What was moved**: `Scattered` and `Carried`.
- **Blocks.** The data of a call for at most a block lies at different addresses.
-/

namespace AlopexOS.Nvme

open QueuePair Relation

/-! ## Moving bytes -/

/-- Physical memory, and the bytes of the device. -/
structure Contents where
  mem : Nat → UInt8
  disk : Nat → UInt8

/-- The bytes, and a driver whose next slot is `slot`, after `init`. -/
def Contents.host (w : Contents) (slot : Nat) : Host := ⟨w.mem, w.disk, slot, true⟩

/-- The opcode of an entry is that of a read. -/
def SubmissionQueueEntry.Reads (e : SubmissionQueueEntry) : Prop := e.cdw0 &&& 0xFF = 0x02

instance (e : SubmissionQueueEntry) : Decidable e.Reads := inferInstanceAs (Decidable (_ = _))

/-- Move byte `i` of the data of a command. -/
def Contents.move (w : Contents) (e : SubmissionQueueEntry) (i : Nat) : Contents :=
  if e.Reads then { w with mem := Function.update w.mem (e.dataByte i) (w.disk (e.diskStart + i)) }
  else { w with disk := Function.update w.disk (e.diskStart + i) (w.mem (e.dataByte i)) }

/-- The controller at the block commands: it keeps the bytes that were moved. With a status of success all of
    them were. -/
def mover : Worker SubmissionQueueEntry CompletionQueueEntry (List Nat) Contents where
  start := []
  Work e x y := ∃ i, i < e.dataLength ∧ y = (i :: x.1, x.2.move e i)
  Done e c moved := checkStatus c.status = true → ∀ i, i < e.dataLength → i ∈ moved

/-- At the addresses `addr i` with `i` in `moved` there is `x i`, and elsewhere what was there. -/
def Scattered (m : Nat → UInt8) (addr : Nat → Nat) (x : Nat → UInt8) (moved : List Nat) (m' : Nat → UInt8) : Prop :=
  (∀ i ∈ moved, m' (addr i) = x i) ∧ ∀ p, (∀ i ∈ moved, addr i ≠ p) → m' p = m p

section

variable {m m' : Nat → UInt8} {addr : Nat → Nat} {x : Nat → UInt8} {moved : List Nat} {n i : Nat}

theorem Scattered.update (h : Scattered m addr x moved m') (hinj : ∀ j ∈ moved, addr j = addr i → j = i) :
    Scattered m addr x (i :: moved) (Function.update m' (addr i) (x i)) := by
  refine ⟨?_, ?_⟩
  · intro j hj
    by_cases heq : addr j = addr i
    · have hji : j = i := by
        rcases List.mem_cons.mp hj with hji | hj
        · exact hji
        · exact hinj j hj heq
      rw [hji, Function.update_self]
    · rcases List.mem_cons.mp hj with rfl | hj
      · exact absurd rfl heq
      · rw [Function.update_of_ne heq]
        exact h.1 j hj
  · intro p hp
    rw [Function.update_of_ne (hp i List.mem_cons_self).symm]
    exact h.2 p fun j hj => hp j (List.mem_cons_of_mem i hj)

/-- All of them at once. -/
theorem Scattered.eq_scatter (h : Scattered m addr x moved m') (hlt : ∀ i ∈ moved, i < n)
    (hall : ∀ i, i < n → i ∈ moved) (hinj : ∀ i j, i < n → j < n → addr j = addr i → j = i) :
    m' = scatter m addr x n := by
  funext p
  by_cases hp : ∃ i, i < n ∧ addr i = p
  · obtain ⟨i, hi, rfl⟩ := hp
    rw [h.1 i (hall i hi), scatter_at hi fun j hj => hinj i j hi hj]
  · have hp' : ∀ i, i < n → addr i ≠ p := fun i hi he => hp ⟨i, hi, he⟩
    rw [h.2 p fun i hi => hp' i (hlt i hi), scatter_other hp']

end

variable {im : Image} {hhdmOffset : UInt64} {e : SubmissionQueueEntry} {moved : List Nat} {w w' : Contents}

/-- Of the data of a command the bytes `moved` were moved, and nothing else. -/
def Carried (e : SubmissionQueueEntry) (moved : List Nat) (w w' : Contents) : Prop :=
  (∀ i ∈ moved, i < e.dataLength) ∧
    if e.Reads then
      w'.disk = w.disk ∧ Scattered w.mem e.dataByte (fun i => w.disk (e.diskStart + i)) moved w'.mem
    else
      w'.mem = w.mem
        ∧ Scattered w.disk (fun i => e.diskStart + i) (fun i => w.mem (e.dataByte i)) moved w'.disk

/-- The bytes of the data lie at different addresses. -/
def SubmissionQueueEntry.Apart (e : SubmissionQueueEntry) : Prop :=
  ∀ i j, i < e.dataLength → j < e.dataLength → e.dataByte j = e.dataByte i → j = i

theorem Carried.move {i : Nat} (hi : i < e.dataLength) (hapart : e.Apart) (h : Carried e moved w w') :
    Carried e (i :: moved) w (w'.move e i) := by
  obtain ⟨hlt, hmoved⟩ := h
  refine ⟨List.forall_mem_cons.mpr ⟨hi, hlt⟩, ?_⟩
  unfold Contents.move
  split
  · rename_i hread
    rw [if_pos hread] at hmoved
    obtain ⟨hdisk, hmem⟩ := hmoved
    refine ⟨hdisk, ?_⟩
    show Scattered _ _ _ _ (Function.update w'.mem (e.dataByte i) (w'.disk (e.diskStart + i)))
    rw [hdisk]
    exact hmem.update fun j hj => hapart i j hi (hlt j hj)
  · rename_i hwrite
    rw [if_neg hwrite] at hmoved
    obtain ⟨hmem, hdisk⟩ := hmoved
    refine ⟨hmem, ?_⟩
    show Scattered _ _ _ _ (Function.update w'.disk (e.diskStart + i) (w'.mem (e.dataByte i)))
    rw [hmem]
    exact hdisk.update fun j _ he => Nat.add_left_cancel he

/-- Nothing was moved yet. -/
theorem Carried.none (e : SubmissionQueueEntry) (w : Contents) : Carried e [] w w := by
  refine ⟨fun i hi => absurd hi List.not_mem_nil, ?_⟩
  split
  · exact ⟨rfl, fun i hi => absurd hi List.not_mem_nil, fun p _ => rfl⟩
  · exact ⟨rfl, fun i hi => absurd hi List.not_mem_nil, fun p _ => rfl⟩

/-- **The work for a command** moves some of its bytes, in whatever order. -/
theorem carried_of_work (hapart : e.Apart)
    (h : ReflTransGen (mover.Work e) (mover.start, w) (moved, w')) : Carried e moved w w' := by
  have hgen : ∀ y, ReflTransGen (mover.Work e) (mover.start, w) y → Carried e y.1 w y.2 := by
    intro y hy
    induction hy with
    | refl => exact Carried.none e w
    | tail _ hwork ih =>
        obtain ⟨i, hi, rfl⟩ := hwork
        exact ih.move hi hapart
  exact hgen _ h

/-- **All bytes in whatever order are the whole command.** -/
theorem Carried.execute {slot : Nat} (h : Carried e moved w w') (hall : ∀ i, i < e.dataLength → i ∈ moved)
    (hapart : e.Apart) : execute e (w.host slot) = w'.host slot := by
  obtain ⟨hlt, hmoved⟩ := h
  unfold Nvme.execute
  by_cases hread : e.Reads
  · rw [if_pos hread] at hmoved
    rw [if_pos (beq_iff_eq.mpr hread)]
    obtain ⟨hdisk, hmem⟩ := hmoved
    rw [Contents.host, Contents.host, hdisk, hmem.eq_scatter hlt hall hapart]
  · rw [if_neg hread] at hmoved
    rw [if_neg (fun heq => hread (beq_iff_eq.mp heq))]
    obtain ⟨hmem, hdisk⟩ := hmoved
    rw [Contents.host, Contents.host, hmem,
      hdisk.eq_scatter hlt hall fun i j _ _ he => Nat.add_left_cancel he]

/-- A call for at most a block. -/
def IoCall.WithinBlock : IoCall → Prop
  | read _ _ count => 0 < count.toNat ∧ count.toNat ≤ 8
  | write _ _ count => 0 < count.toNat ∧ count.toNat ≤ 8

/-- The data of such a call fills at most a page, so its second part lies below its first. -/
theorem IoCall.WithinBlock.apart {call : IoCall} (h : call.WithinBlock) (slot : Nat) :
    (call.entry im hhdmOffset slot).Apart := by
  have hentry : ∀ opcode phys lba (count : UInt32), 0 < count.toNat ∧ count.toNat ≤ 8 →
      (IoCall.entryFor im hhdmOffset opcode slot phys lba count).Apart := by
    intro opcode phys lba count hcount
    obtain ⟨e, he⟩ : ∃ e, e = IoCall.entryFor im hhdmOffset opcode slot phys lba count := ⟨_, rfl⟩
    have hsecond : e.dptr1.toNat = 0 := by
      rw [he]
      rfl
    have hlength : e.dataLength ≤ 4096 := by
      have hword : (count - 1 &&& 0xFFFF).toNat = count.toNat - 1 := by
        have hone : (1 : UInt32) ≤ count := UInt32.le_iff_toNat_le.mpr hcount.1
        rw [UInt32.toNat_and, UInt32.toNat_sub_of_le _ _ hone]
        show (count.toNat - 1) &&& (2 ^ 16 - 1) = _
        rw [Nat.and_two_pow_sub_one_eq_mod]
        exact Nat.mod_eq_of_lt (by omega)
      rw [he]
      show 512 * ((count - 1 &&& 0xFFFF).toNat % 2 ^ 16 + 1) ≤ 4096
      rw [hword, Nat.mod_eq_of_lt (by omega)]
      omega
    rw [← he]
    intro i j hi hj heq
    unfold SubmissionQueueEntry.dataByte at heq
    dsimp only at heq
    rw [hsecond] at heq
    split at heq
    · split at heq
      · omega
      · omega
    · split at heq
      · omega
      · omega
  cases call with
  | read destPhys lba count => exact hentry _ _ _ _ h
  | write srcPhys lba count => exact hentry _ _ _ _ h

end AlopexOS.Nvme
