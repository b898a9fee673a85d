import AlopexOS.Avfs.Avfs
import Mathlib.Data.List.TakeWhile

/-!
# `Avfs.Splitters` — the two scanners of a path

`findDrive` and `findPathAfterDrive` look for the same `://`, each in a loop of its own: one collects what is
before it, the other copies what is behind it. Both read the string of the path and take it apart at the
first colon.

## Contents
- **Strings with a separator**: `Splits`, by the first byte.
- **The scanners** accept these strings and no others.
- **The copy** has the string behind the separator, and stays in its array.
-/

namespace AlopexOS.AVFS

open Packed CString

/-! ## Strings with a separator -/

/-- `n://r`, with no colon in `n`. -/
def Splits (s n r : List UInt8) : Prop := s = n ++ [colon, slash, slash] ++ r ∧ colon ∉ n

/-- `name` is `n` without the blanks at its end. -/
def WithoutBlanks (n name : List UInt8) : Prop :=
  (∃ k, n = name ++ List.replicate k blank) ∧ name.getLast? ≠ some blank

theorem withoutBlanks_trimmed (n : List UInt8) : WithoutBlanks n (trimmed n) := by
  have htail : ∃ k, (n.reverse.takeWhile (· = blank)).reverse = List.replicate k blank := by
    refine ⟨_, List.eq_replicate_iff.mpr ⟨rfl, fun b hb => ?_⟩⟩
    have hblank := List.mem_takeWhile_imp (List.mem_reverse.mp hb)
    simpa using hblank
  obtain ⟨k, hk⟩ := htail
  refine ⟨⟨k, ?_⟩, ?_⟩
  · rw [trimmed, ← hk, ← List.reverse_append, List.takeWhile_append_dropWhile, List.reverse_reverse]
  · intro hlast
    rw [trimmed, List.getLast?_reverse] at hlast
    have hhead := List.head?_dropWhile_not (· = blank) n.reverse
    rw [hlast] at hhead
    exact absurd hhead (by simp)

variable {s n r name : List UInt8} {b : UInt8}

theorem not_splits_nil : ¬ Splits [] n r := by
  rintro ⟨h, -⟩
  simp at h

/-- A colon in front: the separator is there or nowhere. -/
theorem splits_colon : Splits (colon :: s) n r ↔ n = [] ∧ s = slash :: slash :: r := by
  constructor
  · rintro ⟨h, hcolon⟩
    cases n with
    | nil => exact ⟨rfl, by simpa using h⟩
    | cons c n =>
        obtain ⟨rfl, -⟩ := List.cons.inj h
        exact absurd List.mem_cons_self hcolon
  · rintro ⟨rfl, rfl⟩
    exact ⟨rfl, List.not_mem_nil⟩

/-- Another byte in front is the first of the name. -/
theorem splits_cons (hb : b ≠ colon) : Splits (b :: s) n r ↔ ∃ n', n = b :: n' ∧ Splits s n' r := by
  constructor
  · rintro ⟨h, hcolon⟩
    cases n with
    | nil => exact absurd (List.cons.inj h).1 hb
    | cons c n' =>
        obtain ⟨rfl, htail⟩ := List.cons.inj h
        exact ⟨n', rfl, htail, fun hmem => hcolon (List.mem_cons_of_mem _ hmem)⟩
  · rintro ⟨n', rfl, rfl, hcolon⟩
    refine ⟨rfl, ?_⟩
    rw [List.mem_cons, not_or]
    exact ⟨fun h => hb h.symm, hcolon⟩

/-- **A string splits in one way.** -/
theorem Splits.unique {n' r' : List UInt8} (h : Splits s n r) (h' : Splits s n' r') : n = n' ∧ r = r' := by
  induction s generalizing n n' with
  | nil => exact absurd h not_splits_nil
  | cons b s ih =>
      by_cases hb : b = colon
      · subst hb
        obtain ⟨rfl, hs⟩ := splits_colon.mp h
        obtain ⟨rfl, hs'⟩ := splits_colon.mp h'
        rw [hs] at hs'
        exact ⟨rfl, (List.cons.inj (List.cons.inj hs').2).2⟩
      · obtain ⟨m, rfl, hm⟩ := (splits_cons hb).mp h
        obtain ⟨m', rfl, hm'⟩ := (splits_cons hb).mp h'
        obtain ⟨rfl, hr⟩ := ih hm hm'
        exact ⟨rfl, hr⟩

/-! ## The scanners -/

variable {path : Path} {i k : Nat}

/-- The two tests for slashes, at the end of the array too. -/
theorem slashesAt_iff (h : i + (k + 1) = 2048) :
    slashesAt path i = true ↔ ∃ r, cstr path.get (i + 1) k = slash :: slash :: r := by
  have hslash : slash ≠ 0 := by decide
  unfold slashesAt
  rw [decide_eq_true_iff]
  match k, h with
  | 0, h => simp [cstr, show ¬ i + 1 < 2048 by omega]
  | 1, h =>
      have hone : ∀ r, cstr path.get (i + 1) 1 ≠ slash :: slash :: r := by
        intro r hr
        have := length_cstr_le path.get (i + 1) 1
        rw [hr, List.length_cons, List.length_cons] at this
        omega
      simp [hone, show ¬ i + 2 < 2048 by omega]
  | k + 2, h =>
      constructor
      · rintro ⟨⟨_, h1⟩, _, h2⟩
        refine ⟨cstr path.get (i + 3) k, ?_⟩
        rw [cstr, cstr, h1, h2, if_neg hslash, if_neg hslash]
      · rintro ⟨r, hr⟩
        have h1 : path.get (i + 1) = slash := by
          have hlen : 0 < (cstr path.get (i + 1) (k + 2)).length := by simp [hr]
          have := getElem_cstr hlen
          simpa [hr] using this.symm
        have h2 : path.get (i + 2) = slash := by
          have hlen : 1 < (cstr path.get (i + 1) (k + 2)).length := by simp [hr]
          have := getElem_cstr hlen
          simpa [hr] using this.symm
        exact ⟨⟨by omega, h1⟩, by omega, h2⟩

/-- At a colon the name is complete, if slashes follow. -/
theorem exists_splits_colon (h : i + (k + 1) = 2048) {P : List UInt8 → Prop} :
    (∃ n r, Splits (colon :: cstr path.get (i + 1) k) n r ∧ P n) ↔ slashesAt path i = true ∧ P [] := by
  simp only [splits_colon, slashesAt_iff h]
  constructor
  · rintro ⟨n, r, ⟨rfl, hr⟩, hP⟩
    exact ⟨⟨r, hr⟩, hP⟩
  · rintro ⟨⟨r, hr⟩, hP⟩
    exact ⟨[], r, ⟨rfl, hr⟩, hP⟩

theorem exists_splits_cons (hb : b ≠ colon) {P : List UInt8 → Prop} :
    (∃ n r, Splits (b :: s) n r ∧ P n) ↔ ∃ n r, Splits s n r ∧ P (b :: n) := by
  simp only [splits_cons hb]
  constructor
  · rintro ⟨_, r, ⟨n, rfl, hsplit⟩, hP⟩
    exact ⟨n, r, hsplit, hP⟩
  · rintro ⟨n, r, hsplit, hP⟩
    exact ⟨_, r, ⟨n, rfl, hsplit⟩, hP⟩

/-- **`findDrive` from byte `i` on** succeeds on a string with a separator, with the name before it. -/
theorem findDriveFrom_iff (h : i + k = 2048) (acc : List UInt8) :
    findDriveFrom path k i acc = .ok name
      ↔ ∃ n r, Splits (cstr path.get i k) n r ∧ trimmed (acc ++ n) = name := by
  induction k generalizing i acc with
  | zero => simp [findDriveFrom, cstr, not_splits_nil]
  | succ k ih =>
      unfold findDriveFrom
      rw [cstr]
      by_cases h0 : path.get i = 0
      · simp [h0, not_splits_nil]
      · rw [if_neg h0, if_neg h0]
        by_cases hc : path.get i = colon
        · rw [if_pos hc, hc, exists_splits_colon h, List.append_nil]
          split
          · rename_i hs
            simp only [hs, true_and, Except.ok.injEq]
          · rename_i hs
            simp only [hs, false_and, reduceCtorEq]
        · rw [if_neg hc, ih (by omega), exists_splits_cons hc]
          simp only [List.append_assoc, List.singleton_append]

/-- **`findPathAfterDrive` from byte `i` on** looks for the same separator, and starts behind it. -/
theorem startIndexFrom_iff (h : i + k = 2048) {start : Nat} :
    startIndexFrom path k i = .ok start
      ↔ ∃ n r, Splits (cstr path.get i k) n r ∧ i + n.length + 3 = start := by
  induction k generalizing i with
  | zero => simp [startIndexFrom, cstr, not_splits_nil]
  | succ k ih =>
      unfold startIndexFrom
      rw [cstr]
      by_cases h0 : path.get i = 0
      · simp [h0, not_splits_nil]
      · rw [if_neg h0, if_neg h0]
        by_cases hc : path.get i = colon
        · rw [if_pos hc, hc, exists_splits_colon h]
          split
          · rename_i hs
            simp only [hs, true_and, Except.ok.injEq, List.length_nil, Nat.add_zero]
          · rename_i hs
            simp only [hs, false_and, reduceCtorEq]
        · rw [if_neg hc, ih (by omega), exists_splits_cons hc]
          simp only [List.length_cons, Nat.add_assoc, Nat.add_comm 1]

/-- What is behind the separator. -/
theorem Splits.cstr_rest (h : Splits (cstr path.get i k) n r) :
    i + n.length + 3 ≤ i + k ∧ cstr path.get (i + n.length + 3) (k - (n.length + 3)) = r := by
  induction k generalizing i n with
  | zero => exact absurd h not_splits_nil
  | succ k ih =>
      rw [cstr] at h
      split at h
      · exact absurd h not_splits_nil
      · by_cases hc : path.get i = colon
        · rw [hc] at h
          obtain ⟨rfl, hr⟩ := splits_colon.mp h
          have hlen := length_cstr_le path.get (i + 1) k
          rw [hr, List.length_cons, List.length_cons] at hlen
          obtain ⟨k, rfl⟩ : ∃ k', k = k' + 2 := ⟨k - 2, by omega⟩
          rw [cstr, cstr] at hr
          split at hr
          · cases hr
          · split at hr
            · cases (List.cons.inj hr).2
            · refine ⟨by rw [List.length_nil]; omega, ?_⟩
              exact (List.cons.inj (List.cons.inj hr).2).2
        · obtain ⟨n', rfl, hsplit⟩ := (splits_cons hc).mp h
          obtain ⟨hle, hrest⟩ := ih hsplit
          rw [List.length_cons]
          refine ⟨by omega, ?_⟩
          rw [← hrest]
          congr 1 <;> omega

/-! ## The copy -/

/-- An assignment that is made when the index is one of the array. -/
def assignAt (directory : Path) (i : Nat) (b : UInt8) : Option Path :=
  if i < 2048 then some (directory.put i b) else none

def terminatedChecked (dirIndex : Nat) (directory : Path) : Option Path :=
  if dirIndex < 2048 then assignAt directory dirIndex 0 else some directory

/-- `copyDirectoryFrom`, whose assignments are checked. -/
def copyDirectoryChecked (path : Path) : Nat → Nat → Nat → Path → Option Path
  | 0, _, dirIndex, directory => terminatedChecked dirIndex directory
  | n + 1, i, dirIndex, directory =>
      (assignAt directory dirIndex (path.get i)).bind fun directory =>
        if path.get i = 0 then terminatedChecked (dirIndex + 1) directory
        else copyDirectoryChecked path n (i + 1) (dirIndex + 1) directory

/-- `findPathAfterDrive`, whose assignments are checked. -/
def findPathAfterDriveChecked (path : Path) : Option (Except ErrorCode Path) :=
  match startIndexFrom path 2048 0 with
  | .error e => some (.error e)
  | .ok start => (copyDirectoryChecked path (2048 - start) start 0 Bytes.zero).map .ok

variable {dirIndex : Nat} {directory : Path}

theorem terminatedChecked_eq : terminatedChecked dirIndex directory = some (terminated dirIndex directory) := by
  unfold terminatedChecked terminated assignAt
  split
  · rfl
  · rfl

/-- **The copy writes into its array only.** It is never further than its source. -/
theorem copyDirectoryChecked_eq (h : dirIndex + k < 2048) :
    copyDirectoryChecked path k i dirIndex directory
      = some (copyDirectoryFrom path k i dirIndex directory) := by
  induction k generalizing i dirIndex directory with
  | zero => exact terminatedChecked_eq
  | succ k ih =>
      have hassign : assignAt directory dirIndex (path.get i)
          = some (directory.put dirIndex (path.get i)) := if_pos (by omega)
      unfold copyDirectoryChecked copyDirectoryFrom
      rw [hassign, Option.bind_some]
      split
      · exact terminatedChecked_eq
      · exact ih (by omega)

theorem get_terminated {j : Nat} (h : j < dirIndex) : (terminated dirIndex directory).get j = directory.get j := by
  unfold terminated
  split
  · exact Bytes.get_put_ne (by omega)
  · rfl

/-- What was copied stays. -/
theorem get_copyDirectoryFrom {j : Nat} (h : j < dirIndex) :
    (copyDirectoryFrom path k i dirIndex directory).get j = directory.get j := by
  induction k generalizing i dirIndex directory with
  | zero => exact get_terminated h
  | succ k ih =>
      have hput : (directory.put dirIndex (path.get i)).get j = directory.get j := Bytes.get_put_ne (by omega)
      unfold copyDirectoryFrom
      split
      · rw [get_terminated (by omega), hput]
      · rw [ih (by omega), hput]

/-- **The copy spells the rest of the path.** -/
theorem cstr_copyDirectoryFrom (h : dirIndex + k < 2048) :
    cstr (copyDirectoryFrom path k i dirIndex directory).get dirIndex (k + 1) = cstr path.get i k := by
  induction k generalizing i dirIndex directory with
  | zero =>
      have hnul : (copyDirectoryFrom path 0 i dirIndex directory).get dirIndex = 0 := by
        unfold copyDirectoryFrom terminated
        rw [if_pos (by omega)]
        exact Bytes.get_put_same (by omega)
      rw [cstr_succ, if_pos hnul, cstr]
  | succ k ih =>
      have hbyte : (copyDirectoryFrom path (k + 1) i dirIndex directory).get dirIndex = path.get i := by
        unfold copyDirectoryFrom
        split
        · rw [get_terminated (by omega)]
          exact Bytes.get_put_same (by omega)
        · rw [get_copyDirectoryFrom (by omega)]
          exact Bytes.get_put_same (by omega)
      rw [cstr_succ, hbyte, cstr_succ (f := path.get)]
      split
      · rfl
      · rename_i h0
        have hnext : copyDirectoryFrom path (k + 1) i dirIndex directory
            = copyDirectoryFrom path k (i + 1) (dirIndex + 1) (directory.put dirIndex (path.get i)) := by
          rw [copyDirectoryFrom, if_neg h0]
        rw [hnext, ih (by omega)]

/-! ## The splitters -/

/-- **On a string with a separator** both succeed. -/
theorem found_of_splits (h : Splits path.str n r) :
    findDrive path = .ok (trimmed n) ∧ ∃ directory, findPathAfterDrive path = .ok directory ∧ directory.str = r := by
  have hstart : startIndexFrom path 2048 0 = .ok (0 + n.length + 3) :=
    (startIndexFrom_iff rfl).mpr ⟨n, r, h, rfl⟩
  obtain ⟨hle, hrest⟩ := Splits.cstr_rest h
  rw [Nat.zero_add] at hle hrest hstart
  refine ⟨(findDriveFrom_iff rfl []).mpr ⟨n, r, h, rfl⟩, _, by rw [findPathAfterDrive, hstart], ?_⟩
  -- the copy is shorter than its array, so the whole array spells no more
  have hcopy := @cstr_copyDirectoryFrom path (n.length + 3) (2048 - (n.length + 3)) 0 Bytes.zero (by omega)
  have hlen := length_cstr_le path.get (n.length + 3) (2048 - (n.length + 3))
  rw [← hcopy] at hlen
  unfold Path.str
  rw [cstr_eq_of_lt (n := 2048 - (n.length + 3) + 1) (by omega) (by omega), hcopy, hrest]

/-- **The two splitters parse the same language.** Each succeeds exactly on the strings with a separator:
    `findDrive` with the name before it, less its trailing blanks, and `findPathAfterDrive` with a path that
    spells the rest. No assignment is outside the array. -/
theorem splitters (path : Path) :
    ((∃ name, findDrive path = .ok name) ↔ ∃ directory, findPathAfterDrive path = .ok directory)
      ∧ ((∃ name, findDrive path = .ok name) ↔ ∃ n r, Splits path.str n r)
      ∧ (∀ n r, Splits path.str n r →
          (∃ name, findDrive path = .ok name ∧ WithoutBlanks n name)
            ∧ ∃ directory, findPathAfterDrive path = .ok directory ∧ directory.str = r)
      ∧ findPathAfterDriveChecked path = some (findPathAfterDrive path) := by
  have hdrive : (∃ name, findDrive path = .ok name) ↔ ∃ n r, Splits path.str n r := by
    constructor
    · rintro ⟨name, hname⟩
      obtain ⟨n, r, hsplit, -⟩ := (findDriveFrom_iff rfl []).mp hname
      exact ⟨n, r, hsplit⟩
    · rintro ⟨n, r, hsplit⟩
      exact ⟨_, (found_of_splits hsplit).1⟩
  have hpath : (∃ directory, findPathAfterDrive path = .ok directory) ↔ ∃ n r, Splits path.str n r := by
    constructor
    · rintro ⟨directory, hdirectory⟩
      unfold findPathAfterDrive at hdirectory
      split at hdirectory
      · cases hdirectory
      · rename_i start hstart
        obtain ⟨n, r, hsplit, -⟩ := (startIndexFrom_iff rfl).mp hstart
        exact ⟨n, r, hsplit⟩
    · rintro ⟨n, r, hsplit⟩
      obtain ⟨directory, hdirectory, -⟩ := (found_of_splits hsplit).2
      exact ⟨directory, hdirectory⟩
  refine ⟨hdrive.trans hpath.symm, hdrive, ?_, ?_⟩
  · intro n r hsplit
    obtain ⟨hname, hdirectory⟩ := found_of_splits hsplit
    exact ⟨⟨_, hname, withoutBlanks_trimmed n⟩, hdirectory⟩
  · unfold findPathAfterDriveChecked findPathAfterDrive
    rcases hstart : startIndexFrom path 2048 0 with e | start
    · rfl
    · simp only
      obtain ⟨n, r, hsplit, rfl⟩ := (startIndexFrom_iff rfl).mp hstart
      obtain ⟨hle, -⟩ := Splits.cstr_rest hsplit
      rw [copyDirectoryChecked_eq (by omega)]
      rfl

end AlopexOS.AVFS
