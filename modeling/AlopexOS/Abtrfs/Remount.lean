import AlopexOS.Abtrfs.Target
import AlopexOS.Abtrfs.Crash

/-!
# `Abtrfs.Remount` — a new object on a device

An object that was just made and mounted with `mountExisting` knows what block 0 of its device says. When
that block is read and carries the magic number the object is mounted, and no call on a mounted object
answers that the device is not; otherwise it stays unmounted.
-/

namespace AlopexOS

open Packed Prog

variable {σ β : Type} {c : Conditions} {m : Machine} {fs : AbtrFS} {handle : Handle} {path : Path}

/-- There is a device, and the next read gives a block 0 with the magic number. -/
def Mountable (c : Conditions) (m : Machine) (handle : Handle) : Prop :=
  handle ≠ invalidHandle ∧ c.readOk m.reads = true ∧ PartitionHeader.magic ⟨m.disk 0⟩ = volumeMagic

instance (c : Conditions) (m : Machine) (handle : Handle) : Decidable (Mountable c m handle) :=
  inferInstanceAs (Decidable (_ ∧ _ ∧ _))

/-- **A device with a volume is mounted.** -/
theorem Mountable.run (h : Mountable c m handle) (base hhdm : UInt64) :
    (mountExisting (honest c) AbtrFS.init base hhdm handle).run m
      = (.ok (mountedOn AbtrFS.init base hhdm handle m.disk), { m with reads := m.reads + 1 }) :=
  run_mountExisting h.1 h.2.1 h.2.2

/-- **Any other device is not.** Nothing is written. -/
theorem Mountable.run_not (h : ¬ Mountable c m handle) (base hhdm : UInt64) :
    ∃ fs m', (mountExisting (honest c) AbtrFS.init base hhdm handle).run m = (.ok fs, m')
      ∧ fs.isMounted = false ∧ Quiet m m' := by
  by_cases hv : handle = invalidHandle
  · -- without a device nothing is read either
    have hv' : (attach AbtrFS.init base hhdm handle).deviceHandle = invalidHandle := hv
    simp only [mountExisting, readBlock, hv', if_true, pure_bind, Bool.false_eq_true, false_and, if_false,
      run_pure]
    exact ⟨_, _, rfl, rfl, Quiet.refl m⟩
  · have hv' : (attach AbtrFS.init base hhdm handle).deviceHandle ≠ invalidHandle := hv
    simp only [mountExisting, run_bind, run_readBlock hv', andThen_ok]
    by_cases hread : c.readOk m.reads = true
    · have hmagic : ¬ PartitionHeader.magic ⟨m.disk (0 : UInt64).toNat⟩ = volumeMagic :=
        fun hmagic => h ⟨hv, hread, hmagic⟩
      simp only [hread, if_true, hmagic, and_false, if_false, run_pure]
      exact ⟨_, _, rfl, rfl, rfl, rfl, rfl⟩
    · simp only [hread, Bool.false_eq_true, if_false, false_and, run_pure]
      exact ⟨_, _, rfl, rfl, rfl, rfl, rfl⟩

/-! ## Calls on a mounted object -/

theorem gives_writeFound {P : Platform σ} (data : List UInt8) (off : UInt64)
    (found : Option AbtrFSDiskHeader) :
    Gives (fun r => r.1 ≠ .deviceNotMounted) (writeFound P fs path data off found) := by
  unfold writeFound
  refine Gives.ite (Gives.pure (by simp)) (Gives.bind fun _ => Gives.bind fun old => ?_)
  split
  · exact Gives.fail _
  · dsimp only
    split
    · exact Gives.pure (by simp)
    · exact Gives.bind fun ok => Gives.ite (Gives.pure (by simp)) (Gives.pure (by simp))

/-- A write on a mounted object does not answer that it is not. -/
theorem gives_writeFile {P : Platform σ} (hm : fs.isMounted = true) (data : List UInt8) (off : UInt64) :
    Gives (fun r => r.1 ≠ .deviceNotMounted) (writeFile P fs path data off) := by
  unfold writeFile
  rw [if_neg (by simp [hm])]
  exact Gives.ite (Gives.pure (by simp))
    (Gives.bind fun root => Gives.bind fun found => gives_writeFound data off found)

/-- The errors of a read on a mounted object. -/
theorem gives_readFileInto {P : Platform σ} {T : Target σ β} (hm : fs.isMounted = true) (data : β)
    (off max : UInt64) :
    Gives (fun r => ∀ e, r.1 = .error e → e = .invalidPath ∨ e = .fileNotFound ∨ e = .ioError)
      (readFileInto P T fs path data off max) := by
  unfold readFileInto
  rw [if_neg (by simp [hm])]
  refine Gives.ite (Gives.pure (by simp)) (Gives.bind fun _ => Gives.bind fun found => ?_)
  cases found with
  | none => exact Gives.pure (by simp)
  | some header =>
      refine Gives.ite (Gives.bind fun d => Gives.pure (by simp)) (Gives.bind fun d => ?_)
      exact Gives.bind fun _ => Gives.bind fun r => Gives.bind fun d =>
        Gives.ite (Gives.bind fun x => Gives.pure (by simp)) (Gives.pure (by simp))

end AlopexOS
