import AlopexOS.Abtrfs.Abtrfs

/-!
# `Abtrfs.Device` — an honest machine

The machine the results are about: every successful block write is what a later read of that block
returns, and nothing else changes a block. Which requests succeed is a parameter, one answer for each
request in the order they are made, so a result about all `Conditions` is one about every pattern of
failures. A write that fails leaves the disk as it was.

## Contents
- **The machine.** `Conditions`, `Machine`, `honest`.
- **Requests.** What each of them does to a machine.
- **Writing.** `writeAll` gets as far as the first write that fails.
-/

namespace AlopexOS

open Packed Prog

/-! ## The machine -/

/-- How the machine answers its requests, each counted from the start. -/
structure Conditions where
  /-- Whether `operator new` number `k` finds `n` bytes. -/
  newOk : Nat → Nat → Bool
  readOk : Nat → Bool
  writeOk : Nat → Bool
  /-- What a failed read leaves in its buffer. -/
  residue : Nat → Block
  walkBound : Nat

/-- The device, and how many requests for memory, reads and writes there were. -/
structure Machine where
  disk : Nat → Block
  news : Nat
  reads : Nat
  writes : Nat
  /-- The successful writes so far, in order. -/
  log : List (Nat × Block)

/-- One block of a disk replaced. -/
def setBlock (disk : Nat → Block) (w : Nat × Block) : Nat → Block :=
  fun b => if b = w.1 then w.2 else disk b

/-- The disk after the writes of a list, in order. -/
def applyWrites (ws : List (Nat × Block)) (disk : Nat → Block) : Nat → Block := ws.foldl setBlock disk

/-- A device that reads what was written, where `c` does not let a request fail. -/
def honest (c : Conditions) : Platform Machine where
  operatorNew n := ⟨fun m =>
    if c.newOk m.news n = true then (.ok (), { m with news := m.news + 1 }) else (.error .hang, m)⟩
  submitRead _ b := ⟨fun m =>
    (.ok (if c.readOk m.reads = true then (true, m.disk b.toNat) else (false, c.residue m.reads)),
      { m with reads := m.reads + 1 })⟩
  submitWrite _ b x := ⟨fun m =>
    if c.writeOk m.writes = true then
      (.ok true, { m with
        disk := setBlock m.disk (b.toNat, x), writes := m.writes + 1, log := m.log ++ [(b.toNat, x)] })
    else (.ok false, { m with writes := m.writes + 1 })⟩
  walkBound := c.walkBound

/-- `operator new` never halts the machine, and the walk is followed as far as it can go. -/
def Conditions.Generous (c : Conditions) : Prop :=
  (∀ k n, c.newOk k n = true) ∧ 2 ^ 64 ≤ c.walkBound

/-- Memory and rounds without end, reads that succeed, and a given pattern of writes. -/
def Conditions.ample (writeOk : Nat → Bool) : Conditions where
  newOk _ _ := true
  readOk _ := true
  writeOk := writeOk
  residue _ := Bytes.zero
  walkBound := 2 ^ 64

theorem Conditions.ample_generous (writeOk : Nat → Bool) : (Conditions.ample writeOk).Generous :=
  ⟨fun _ _ => rfl, Nat.le_refl _⟩

/-- Nothing was written between the two states. -/
structure Quiet (m m' : Machine) : Prop where
  disk : m'.disk = m.disk
  writes : m'.writes = m.writes
  log : m'.log = m.log

variable {c : Conditions} {m m' : Machine} {fs : AbtrFS}

theorem Quiet.refl (m : Machine) : Quiet m m := ⟨rfl, rfl, rfl⟩

theorem Quiet.trans {m₁ m₂ m₃ : Machine} (h : Quiet m₁ m₂) (h' : Quiet m₂ m₃) : Quiet m₁ m₃ :=
  ⟨h'.disk.trans h.disk, h'.writes.trans h.writes, h'.log.trans h.log⟩

/-- Nothing was written or read between the two states. -/
def Still (m m' : Machine) : Prop := Quiet m m' ∧ m'.reads = m.reads

theorem Still.refl (m : Machine) : Still m m := ⟨Quiet.refl m, rfl⟩

theorem Still.trans {m₁ m₂ m₃ : Machine} (h : Still m₁ m₂) (h' : Still m₂ m₃) : Still m₁ m₃ :=
  ⟨h.1.trans h'.1, h'.2.trans h.2⟩

/-! ## Requests -/

/-- Only the machine's count of requests changes. -/
theorem runs_operatorNew (n : Nat) (m : Machine) :
    Runs c.Generous ((honest c).operatorNew n) m (fun _ m' => Still m m') := by
  by_cases h : c.newOk m.news n = true
  · have hrun : ((honest c).operatorNew n).run m = (.ok (), { m with news := m.news + 1 }) := by
      simp only [honest, h, if_true]
    exact Runs.of_ok hrun ⟨⟨rfl, rfl, rfl⟩, rfl⟩
  · have hrun : ((honest c).operatorNew n).run m = (.error .hang, m) := by
      simp only [honest, h, Bool.false_eq_true, if_false]
    simp only [Runs, hrun]
    exact fun hG => h (hG.1 _ _)

theorem run_readBlock (hv : fs.deviceHandle ≠ invalidHandle) (b : UInt64) (buffer : Block)
    (m : Machine) :
    (readBlock (honest c) fs b buffer).run m
      = (.ok (if c.readOk m.reads = true then (true, m.disk b.toNat) else (false, c.residue m.reads)),
          { m with reads := m.reads + 1 }) := by
  simp only [readBlock, hv, if_false, honest]

theorem run_writeBlock (hv : fs.deviceHandle ≠ invalidHandle) (b : UInt64) (x : Block) (m : Machine) :
    (writeBlock (honest c) fs b x).run m =
      if c.writeOk m.writes = true then
        (.ok true, { m with
          disk := setBlock m.disk (b.toNat, x), writes := m.writes + 1,
          log := m.log ++ [(b.toNat, x)] })
      else (.ok false, { m with writes := m.writes + 1 }) := by
  simp only [writeBlock, hv, if_false, honest]

/-! ## Writing -/

/-- The planned writes as the disk sees them. -/
def onDisk (ws : List (UInt64 × Block)) : List (Nat × Block) := ws.map fun w => (w.1.toNat, w.2)

/-- Of the writes `ws` exactly the first `k` reached the disk: all of them, or the next one failed. -/
structure Wrote (c : Conditions) (ws : List (UInt64 × Block)) (k : Nat) (m m' : Machine) : Prop where
  le : k ≤ ws.length
  ok : ∀ i < k, c.writeOk (m.writes + i) = true
  stopped : k < ws.length → c.writeOk (m.writes + k) = false
  disk : m'.disk = applyWrites ((onDisk ws).take k) m.disk
  log : m'.log = m.log ++ (onDisk ws).take k

/-- **`writeAll` gets as far as the first write that fails.** -/
theorem run_writeAll (hv : fs.deviceHandle ≠ invalidHandle) (ws : List (UInt64 × Block)) (m : Machine) :
    ∃ k m', (writeAll (honest c) fs ws).run m = (.ok (decide (k = ws.length)), m')
      ∧ Wrote c ws k m m' ∧ m'.reads = m.reads := by
  induction ws generalizing m with
  | nil => exact ⟨0, m, rfl, ⟨by simp, by simp, by simp, rfl, by simp⟩, rfl⟩
  | cons w ws ih =>
      simp only [writeAll, run_bind, run_writeBlock hv]
      by_cases hok : c.writeOk m.writes = true
      · obtain ⟨k, m', hrun, hw, hr⟩ := ih { m with
          disk := setBlock m.disk (w.1.toNat, w.2), writes := m.writes + 1,
          log := m.log ++ [(w.1.toNat, w.2)] }
        refine ⟨k + 1, m', ?_, ?_, hr⟩
        · simp only [hok, if_true, andThen_ok, hrun, List.length_cons, Nat.add_right_cancel_iff]
        · refine ⟨Nat.succ_le_succ hw.le, ?_, ?_, ?_, ?_⟩
          · intro i hi
            cases i with
            | zero => exact hok
            | succ i =>
                have := hw.ok i (Nat.lt_of_succ_lt_succ hi)
                rwa [show m.writes + 1 + i = m.writes + (i + 1) by omega] at this
          · intro hlt
            have := hw.stopped (Nat.lt_of_succ_lt_succ hlt)
            rwa [show m.writes + 1 + k = m.writes + (k + 1) by omega] at this
          · rw [hw.disk]
            rfl
          · rw [hw.log]
            simp [onDisk]
      · refine ⟨0, { m with writes := m.writes + 1 }, ?_, ?_, rfl⟩
        · simp only [hok, Bool.false_eq_true, if_false, andThen_ok, run_pure, List.length_cons]
          rfl
        · exact ⟨Nat.zero_le _, by simp, fun _ => by simpa using hok, rfl, by simp⟩

/-- Without a device every write fails. -/
theorem run_writeAll_invalid (hv : fs.deviceHandle = invalidHandle) (w : UInt64 × Block)
    (ws : List (UInt64 × Block)) (m : Machine) :
    (writeAll (honest c) fs (w :: ws)).run m = (.ok false, m) := by
  simp [writeAll, writeBlock, hv]

/-- A block that no write names keeps its content. -/
theorem applyWrites_outside {ws : List (Nat × Block)} {disk : Nat → Block} {b : Nat}
    (h : ∀ w ∈ ws, w.1 ≠ b) : applyWrites ws disk b = disk b := by
  induction ws generalizing disk with
  | nil => rfl
  | cons w ws ih =>
      have hw : b ≠ w.1 := fun he => h w (by simp) he.symm
      show applyWrites ws (setBlock disk w) b = _
      rw [ih (fun v hv => h v (by simp [hv]))]
      simp only [setBlock, hw, if_false]

theorem applyWrites_append (ws ws' : List (Nat × Block)) (disk : Nat → Block) :
    applyWrites (ws ++ ws') disk = applyWrites ws' (applyWrites ws disk) :=
  List.foldl_append

/-- Blocks written one after the other. -/
theorem applyWrites_range (a : Nat) (g : Nat → Block) (n : Nat) (disk : Nat → Block) (b : Nat) :
    applyWrites ((List.range n).map fun i => (a + i, g i)) disk b
      = if a ≤ b ∧ b < a + n then g (b - a) else disk b := by
  induction n with
  | zero =>
      rw [if_neg (by omega)]
      rfl
  | succ n ih =>
      rw [List.range_succ, List.map_append, applyWrites_append]
      show setBlock _ (a + n, g n) b = _
      unfold setBlock
      by_cases h : b = a + n
      · rw [if_pos h, if_pos (by omega), h, Nat.add_sub_cancel_left]
      · rw [if_neg h, ih]
        by_cases hin : a ≤ b ∧ b < a + n
        · rw [if_pos hin, if_pos (by omega)]
        · rw [if_neg hin, if_neg (by omega)]

end AlopexOS
