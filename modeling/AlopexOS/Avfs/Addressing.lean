import AlopexOS.Abtrfs.Volumes
import AlopexOS.Avfs.Drives
import AlopexOS.Avfs.Splitters
import AlopexOS.Gaossd.Gaossd
import Mathlib.Data.List.DropRight

/-!
# `Avfs.Addressing` — drives that can be named

The name of a drive is made from the model number of the controller. `gaossd` copies it and takes four kinds
of whitespace off its end, `Init` has a name of its own for none. A path has to spell the name in front of
`://`, and `findDrive` takes blanks off its end. So a name with a colon in it, or with a blank at its end,
cannot be spelled. A blank is left at the end when a NUL is behind it.

## Contents
- **The name of the device**, as the loops of `gaossd` make it.
- **Names that can be spelled.**
- **Model numbers** that give such names.
-/

namespace AlopexOS

open Packed CString

/-! ## The name of the device -/

/-- What the constructor `gaossd()` takes off the end. -/
def isTrimmed (b : UInt8) : Bool := b ∈ [0x20, 0x09, 0x0D, 0x0A]

/-- The copy loop from byte `i` on. -/
def copyModelFrom (mn : Bytes 40) : Nat → Nat → Bytes 64 → Bytes 64
  | 0, _, name => name
  | n + 1, i, name => copyModelFrom mn n (i + 1) (name.put i (mn.get i))

/-- The trim loop over the bytes before `n`, from the last to the first. -/
def trimNameFrom : Nat → Bytes 64 → Bytes 64
  | 0, name => name
  | n + 1, name => if isTrimmed (name.get n) = true then trimNameFrom n (name.put n 0) else name

/-- `storage_dev.name`. -/
def modelName (mn : Bytes 40) : Bytes 64 := trimNameFrom 40 ((copyModelFrom mn 40 0 Bytes.zero).put 40 0)

theorem get_copyModelFrom (mn : Bytes 40) {n i : Nat} (h : i + n ≤ 64) (name : Bytes 64) (j : Nat) :
    (copyModelFrom mn n i name).get j = if i ≤ j ∧ j < i + n then mn.get j else name.get j := by
  induction n generalizing i name with
  | zero => rw [copyModelFrom, if_neg (by omega)]
  | succ n ih =>
      rw [copyModelFrom, ih (by omega)]
      by_cases hj : j = i
      · subst hj
        rw [if_neg (by omega), if_pos (by omega)]
        exact Bytes.get_put_same (by omega)
      · rw [Bytes.get_put_ne hj]
        by_cases hrange : i + 1 ≤ j ∧ j < i + 1 + n
        · rw [if_pos hrange, if_pos (by omega)]
        · rw [if_neg hrange, if_neg (by omega)]

/-- The copy is the model number and zeros behind it. -/
theorem toList_copy (mn : Bytes 40) :
    ((copyModelFrom mn 40 0 Bytes.zero).put 40 0).toList = mn.toList ++ List.replicate 24 0 := by
  have hget : ∀ j, ((copyModelFrom mn 40 0 Bytes.zero).put 40 0).get j = mn.get j := by
    intro j
    by_cases hj : j = 40
    · rw [hj, Bytes.get_put_same (by omega), Bytes.get_of_ge (Nat.le_refl 40)]
    · rw [Bytes.get_put_ne hj, get_copyModelFrom mn (by omega)]
      split
      · rfl
      · rw [Bytes.get_zero, Bytes.get_of_ge (by omega)]
  apply List.ext_getElem
  · simp
  · intro j h₁ h₂
    rw [Bytes.getElem_toList, hget]
    by_cases hj : j < 40
    · rw [List.getElem_append_left (by simpa using hj), Bytes.getElem_toList]
    · rw [List.getElem_append_right (by simpa using hj), List.getElem_replicate, Bytes.get_of_ge (by omega)]

/-- **The trim loop** puts zeros over the whitespace at the end of the first `n` bytes. -/
theorem toList_trimNameFrom {n : Nat} (hn : n ≤ 64) (name : Bytes 64) :
    (trimNameFrom n name).toList = (name.toList.take n).rdropWhile isTrimmed
      ++ List.replicate (n - ((name.toList.take n).rdropWhile isTrimmed).length) 0 ++ name.toList.drop n := by
  induction n generalizing name with
  | zero => simp [trimNameFrom]
  | succ n ih =>
      have hlast : n < name.toList.length := by rw [Bytes.length_toList]; omega
      have htake : name.toList.take (n + 1) = name.toList.take n ++ [name.get n] := by
        rw [List.take_succ_eq_append_getElem hlast, Bytes.getElem_toList]
      rw [trimNameFrom, htake]
      split
      · rename_i hspace
        have hput : (name.put n 0).toList = name.toList.set n 0 := by
          apply List.ext_getElem
          · simp
          · intro j h₁ h₂
            rw [Bytes.getElem_toList, List.getElem_set]
            split
            · rename_i heq
              rw [← heq, Bytes.get_put_same (by omega)]
            · rename_i hne
              rw [Bytes.get_put_ne (Ne.symm hne), Bytes.getElem_toList]
        have hkept := (List.rdropWhile_prefix isTrimmed (name.toList.take n)).length_le
        rw [List.length_take, Nat.min_eq_left (by omega)] at hkept
        have hdrop : (name.toList.set n 0).drop n = 0 :: name.toList.drop (n + 1) := by
          rw [List.drop_eq_getElem_cons (by simpa using hlast), List.getElem_set_self,
            List.drop_set_of_lt (Nat.lt_succ_self n)]
        rw [ih (by omega), List.rdropWhile_concat_pos _ _ _ hspace, hput, List.take_set_of_le (Nat.le_refl n),
          hdrop, Nat.succ_sub hkept, List.replicate_succ']
        simp only [List.append_assoc, List.singleton_append]
      · rename_i hno
        rw [List.rdropWhile_concat_neg _ _ _ hno, ← htake, List.length_take, Nat.min_eq_left (by omega),
          Nat.sub_self, List.replicate_zero, List.append_nil, List.take_append_drop]

/-- **The loops make the name that the constructor registers.** -/
theorem toList_modelName (mn : Bytes 40) : (modelName mn).toList = Storage.storageName mn.toList := by
  have htake : (mn.toList ++ List.replicate 24 0).take 40 = mn.toList :=
    List.take_left' (Bytes.length_toList mn)
  have hdrop : (mn.toList ++ List.replicate 24 0).drop 40 = List.replicate 24 0 :=
    List.drop_left' (Bytes.length_toList mn)
  have hall : mn.toList.take 40 = mn.toList := List.take_of_length_le (by simp)
  have hkept := (List.rdropWhile_prefix isTrimmed mn.toList).length_le
  rw [Bytes.length_toList] at hkept
  unfold modelName Storage.storageName
  rw [toList_trimNameFrom (by omega), toList_copy, htake, hdrop, hall, List.append_assoc,
    List.replicate_append_replicate, show 40 - (mn.toList.rdropWhile isTrimmed).length + 24
      = 64 - (mn.toList.rdropWhile isTrimmed).length by omega]
  rfl

theorem cstr_eq_toList {n : Nat} (b : Bytes n) : cstr b.get 0 n = b.toList.takeWhile (· ≠ 0) := by
  rw [cstr_eq_takeWhile (l := b.toList), List.take_of_length_le (by simp)]
  intro k hk
  rw [Nat.zero_add, List.getD_eq_getElem _ _ (by simpa using hk), Bytes.getElem_toList]

/-- **What the name spells**: the model number up to its first NUL, and without the whitespace at its end
    when there is none. -/
theorem cstr_modelName (mn : Bytes 40) :
    (cstr mn.get 0 40).length < 40 ∧ cstr (modelName mn).get 0 64 = cstr mn.get 0 40
      ∨ (cstr mn.get 0 40).length = 40
        ∧ cstr (modelName mn).get 0 64 = (cstr mn.get 0 40).rdropWhile isTrimmed := by
  obtain ⟨kept, hkept⟩ : ∃ kept, kept = mn.toList.rdropWhile isTrimmed := ⟨_, rfl⟩
  obtain ⟨spaces, hspaces⟩ : ∃ spaces, spaces = mn.toList.rtakeWhile isTrimmed := ⟨_, rfl⟩
  have hlist : kept ++ spaces = mn.toList := by
    rw [hkept, hspaces, List.rdropWhile_append_rtakeWhile]
  have hname : cstr (modelName mn).get 0 64 = kept.takeWhile (· ≠ 0) := by
    have hall : mn.toList.take 40 = mn.toList := List.take_of_length_le (by simp)
    rw [cstr_eq_toList, toList_modelName, Storage.storageName, hall]
    show (mn.toList.rdropWhile isTrimmed ++ List.replicate _ 0).takeWhile _ = _
    rw [← hkept, takeWhile_append_zeros]
  have hlength : (kept ++ spaces).length = 40 := by rw [hlist, Bytes.length_toList]
  rw [hname, cstr_eq_toList, ← hlist]
  by_cases hnul : 0 ∈ kept ++ spaces
  · -- a NUL is no whitespace, so it is kept, and what is before it too
    have hmem : 0 ∈ kept := by
      rcases List.mem_append.mp hnul with h | h
      · exact h
      · rw [hspaces] at h
        exact absurd (List.mem_rtakeWhile_imp h) (by decide)
    refine Or.inl ⟨?_, (takeWhile_append_of_mem hmem spaces).symm⟩
    rw [← hlength]
    exact length_takeWhile_lt hnul
  · have hkept0 : 0 ∉ kept := fun h => hnul (List.mem_append_left _ h)
    rw [takeWhile_eq_self hnul, takeWhile_eq_self hkept0]
    refine Or.inr ⟨hlength, ?_⟩
    rw [hlist, ← hkept]

/-! ## Names that can be spelled -/

namespace AVFS

variable {a : AVFS} {s : List UInt8}

/-- The path that spells a name and a file. -/
def drivePath (s r : List UInt8) : Path := Path.ofBytes (s ++ [colon, slash, slash] ++ r)

theorem str_drivePath (hs : 0 ∉ s) {r : List UInt8} (hfit : s.length + 3 + r.length ≤ 2048) :
    (drivePath s r).str = s ++ [colon, slash, slash] ++ r.takeWhile (· ≠ 0) := by
  have hbyte : ∀ k, k < 2048 →
      (drivePath s r).get (0 + k) = (s ++ [colon, slash, slash] ++ r).getD k 0 := by
    intro k hk
    rw [Nat.zero_add, Bytes.get_of_lt hk]
    show (s ++ [colon, slash, slash] ++ r).getD (0 * 2048 + k) 0 = _
    rw [Nat.zero_mul, Nat.zero_add]
  have hfit' : (s ++ [colon, slash, slash] ++ r).length ≤ 2048 := by
    simp only [List.length_append, List.length_cons, List.length_nil]
    omega
  have hnul : 0 ∉ s ++ [colon, slash, slash] := by
    rw [List.mem_append, not_or]
    exact ⟨hs, by decide⟩
  unfold Path.str
  rw [cstr_eq_takeWhile hbyte, List.take_of_length_le hfit', takeWhile_append_of_not_mem hnul]

/-- **A name can be spelled** when there is no colon in it and no blank at its end. -/
theorem findDrive_drivePath (hs : 0 ∉ s) {r : List UInt8} (hfit : s.length + 3 + r.length ≤ 2048) :
    findDrive (drivePath s r) = .ok s ↔ colon ∉ s ∧ s.getLast? ≠ some blank := by
  constructor
  · intro h
    -- what is found is the name before some separator
    obtain ⟨n, r', ⟨-, hcolon⟩, rfl⟩ := (findDriveFrom_iff rfl []).mp h
    obtain ⟨⟨k, hk⟩, hlast⟩ := withoutBlanks_trimmed n
    refine ⟨fun hmem => hcolon ?_, hlast⟩
    rw [hk]
    exact List.mem_append_left _ hmem
  · rintro ⟨hcolon, hlast⟩
    have hwhole : trimmed s = s := by
      refine List.rdropWhile_eq_self_iff.mpr fun hne hblank => hlast ?_
      rw [List.getLast?_eq_getLast_of_ne_nil hne]
      exact congrArg some (of_decide_eq_true hblank)
    have hsplits : Splits (drivePath s r).str s (r.takeWhile (· ≠ 0)) := ⟨str_drivePath hs hfit, hcolon⟩
    rw [(found_of_splits hsplits).1, hwhole]

/-- A drive with the name is found, as stored names have no NULs. -/
theorem retrieveDrive_of_mem (hnul : ∀ d ∈ a.drives, 0 ∉ d.name) (hmem : ∃ d ∈ a.drives, d.name = s) :
    ∃ i, a.retrieveDrive s = .ok i ∧ (a.drives.get i).name = s := by
  have hwhole : ∀ d ∈ a.drives, d.name.takeWhile (· ≠ 0) = d.name := fun d hd => takeWhile_eq_self (hnul d hd)
  rcases hfind : a.retrieveDrive s with e | i
  · obtain ⟨d, hd, hname⟩ := hmem
    unfold retrieveDrive at hfind
    split at hfind
    · cases hfind
    · rename_i hnone
      have hno := List.findFinIdx?_eq_none_iff.mp hnone d hd
      rw [hwhole d hd, hname] at hno
      exact absurd hno (by simp)
  · refine ⟨i, rfl, ?_⟩
    rw [← hwhole _ (List.get_mem a.drives i), name_retrieveDrive hfind]

/-- **The drives under a name can be addressed**: when `Init` has registered one, any file on it has a path,
    and the path leads to a drive with the name. -/
def Addressable (s : List UInt8) : Prop :=
  ∀ (g : DeviceTable) (calls : List InitCall) (a : AVFS), Run InitStep (attached g) calls a →
    (∃ d ∈ a.drives, d.name = s) → ∀ r : List UInt8, s.length + 3 + r.length ≤ 2048 →
      findDrive (drivePath s r) = .ok s ∧ ∃ i, a.retrieveDrive s = .ok i ∧ (a.drives.get i).name = s

/-! ## Model numbers -/

/-- The name `Init` gives to a device with the model number. -/
def driveName (mn : Bytes 40) : List UInt8 := PhysicalStorage.shownName ⟨0, modelName mn⟩

theorem driveName_eq (mn : Bytes 40) : driveName mn
    = if cstr (modelName mn).get 0 64 = [] then defaultName else cstr (modelName mn).get 0 64 := by
  have hfirst : cstr (modelName mn).get 0 64 = [] ↔ (modelName mn).get 0 = 0 := by
    rw [cstr_succ]
    split
    · rename_i h0
      simp [h0]
    · rename_i h0
      simp [h0]
  unfold driveName PhysicalStorage.shownName
  by_cases h0 : (modelName mn).get 0 = 0
  · rw [if_neg (fun h => h h0), if_pos (hfirst.mpr h0)]
  · rw [if_pos h0, if_neg fun h => h0 (hfirst.mp h)]

theorem length_driveName (mn : Bytes 40) : (driveName mn).length ≤ 40 := by
  have hle := length_cstr_le mn.get 0 40
  rw [driveName_eq]
  split
  · decide
  · rcases cstr_modelName mn with ⟨-, heq⟩ | ⟨-, heq⟩
    · rw [heq]
      exact hle
    · rw [heq]
      exact (List.rdropWhile_prefix _ _).length_le.trans hle

/-- The trim loop takes off all blanks at the end, and no colon. -/
theorem spelled_rdropWhile (t : List UInt8) :
    (colon ∈ t.rdropWhile isTrimmed ↔ colon ∈ t) ∧ (t.rdropWhile isTrimmed).getLast? ≠ some blank := by
  constructor
  · constructor
    · exact fun h => (List.rdropWhile_prefix isTrimmed t).subset h
    · intro h
      rw [← List.rdropWhile_append_rtakeWhile (p := isTrimmed) (l := t), List.mem_append] at h
      rcases h with h | h
      · exact h
      · exact absurd (List.mem_rtakeWhile_imp h) (by decide)
  · intro hlast
    have hne : t.rdropWhile isTrimmed ≠ [] := by
      intro h
      rw [h] at hlast
      cases hlast
    rw [List.getLast?_eq_getLast_of_ne_nil hne] at hlast
    have hno := List.rdropWhile_last_not isTrimmed t hne
    rw [Option.some.inj hlast] at hno
    exact hno (by decide)

/-- Which names can be spelled, by the model number up to its first NUL. -/
theorem spelled_driveName (mn : Bytes 40) :
    (colon ∉ driveName mn ∧ (driveName mn).getLast? ≠ some blank)
      ↔ colon ∉ cstr mn.get 0 40
        ∧ ((cstr mn.get 0 40).length < 40 → (cstr mn.get 0 40).getLast? ≠ some blank) := by
  have hdefault : colon ∉ defaultName ∧ defaultName.getLast? ≠ some blank := by decide
  rw [driveName_eq]
  rcases cstr_modelName mn with ⟨hlt, heq⟩ | ⟨hlen, heq⟩
  · rw [heq]
    split
    · rename_i hempty
      simp [hempty, hdefault]
    · simp only [hlt, true_implies]
  · obtain ⟨hcolon, hlast⟩ := spelled_rdropWhile (cstr mn.get 0 40)
    rw [heq, ← hcolon, hlen]
    split
    · rename_i hempty
      simp [hempty, hdefault]
    · simp only [Nat.lt_irrefl, false_implies, and_true, hlast, ne_eq, not_false_eq_true]

/-- A table with a device that has the model number. -/
def modelTable (mn : Bytes 40) : DeviceTable := ⟨[⟨0, modelName mn⟩], by simp⟩

theorem registered_driveName (mn : Bytes 40) :
    ∃ a, Run InitStep (attached oneEntry) [⟨modelTable mn, oneDisk⟩] a
      ∧ ∃ d ∈ a.drives, d.name = driveName mn := by
  have hrun : Run InitStep (attached oneEntry) [⟨modelTable mn, oneDisk⟩] _ := Run.single rfl
  refine ⟨_, hrun, List.mem_map.mp ?_⟩
  rw [names_of_run hrun]
  exact List.mem_cons_self

/-- A device can be addressed exactly if its name can be spelled. -/
theorem addressable_driveName (mn : Bytes 40) :
    Addressable (driveName mn) ↔ colon ∉ driveName mn ∧ (driveName mn).getLast? ≠ some blank := by
  have hnul : 0 ∉ driveName mn := zero_not_mem_shownName _
  have hlen := length_driveName mn
  have hfit : (driveName mn).length + 3 + ([] : List UInt8).length ≤ 2048 := by
    rw [List.length_nil]
    omega
  constructor
  · intro h
    obtain ⟨a, hrun, hmem⟩ := registered_driveName mn
    exact (findDrive_drivePath hnul hfit).mp (h _ _ a hrun hmem [] hfit).1
  · intro hspelled g calls a hrun hmem r hfit
    exact ⟨(findDrive_drivePath hnul hfit).mpr hspelled, retrieveDrive_of_mem (zero_not_mem_of_run hrun) hmem⟩

/-- **Which controllers give a drive that can be addressed**: those whose model number has no colon before its
    first NUL, and no blank right before it. -/
theorem addressable_iff (mn : Bytes 40) :
    Addressable (driveName mn) ↔ colon ∉ cstr mn.get 0 40
      ∧ ((cstr mn.get 0 40).length < 40 → (cstr mn.get 0 40).getLast? ≠ some blank) :=
  (addressable_driveName mn).trans (spelled_driveName mn)

/-- A model number with a colon in it, and one that a NUL ends behind a blank. -/
def colonModel : Bytes 40 := Bytes.ofMem fun i => if i = 0 then 0x61 else if i = 1 then colon else blank

def blankModel : Bytes 40 := Bytes.ofMem fun i => if i = 0 then 0x61 else if i = 1 then blank else 0

theorem not_addressable : ¬ Addressable (driveName colonModel) ∧ ¬ Addressable (driveName blankModel) := by
  simp only [addressable_driveName, spelled_driveName]
  exact ⟨fun h => h.1 (by decide), fun h => h.2 (by decide) (by decide)⟩

end AVFS

end AlopexOS
