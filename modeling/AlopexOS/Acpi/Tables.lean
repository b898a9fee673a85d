import AlopexOS.Lib.Packed
import AlopexOS.Lib.Word
import Mathlib.Logic.Function.Basic

/-!
# `Acpi.Tables` — the walks over ACPI tables (`locate_acpi_table_mcfg`, `src/ACPI/acpi.cpp`)

The firmware says where the RSDT is, by 32 bits, and the RSDT where the other tables are, by 32 bits each.
Every table says how long it is. The first walk counts the pointers of the RSDT by a division, the second
compares addresses. The difference that is divided has 64 bits and no sign, so the RSDT has to be as long as
its header; the second walk finds nothing in a table that is too short.

## Contents
- **Memory**: what is fetched, the fields of the tables.
- **The walks** `locateMcfg` and `parseMcfg`, with what they fetch.
- **`locateMcfg` stays in the RSDT** that is as long as its header.
- **`parseMcfg` stays in the MCFG.**
-/

namespace AlopexOS.Acpi

open Packed

/-! ## Memory -/

/-- What is fetched from memory, and where. -/
inductive Fetch where
  /-- The field `length` of the table. -/
  | length (table : UInt64)
  /-- One of the `table_pointers`. -/
  | pointer (addr : UInt64)
  /-- The field `signature` of the table. -/
  | signature (table : UInt64)
  /-- An `MCFGAllocationEntry`. -/
  | entry (addr : UInt64)

/-- `length` of a table header. -/
def tableLength (m : Mem) (table : UInt64) : UInt32 := UInt32.ofNat (load m (table.toNat + 4) 4)

/-- An entry of the RSDT. -/
def tablePointer (m : Mem) (addr : Nat) : UInt32 := UInt32.ofNat (load m addr 4)

/-- `is_mcfg_signature`: "MCFG". -/
def isMcfgSignature (m : Mem) (sig : UInt64) : Bool :=
  m sig.toNat = 0x4D ∧ m (sig.toNat + 1) = 0x43 ∧ m (sig.toNat + 2) = 0x46 ∧ m (sig.toNat + 3) = 0x47

/-- `ECAMRegion`: the buses of a segment group, and where they are mapped. -/
structure ECAMRegion where
  baseAddress : UInt64
  segmentGroup : UInt16
  startBus : UInt8
  endBus : UInt8

/-- `ECAMMap`: room for 16 regions, of which the first `count` are in use. -/
structure ECAMMap where
  regions : Fin 16 → ECAMRegion
  count : Nat

/-- The `MCFGAllocationEntry` at an address, as a region. -/
def allocationEntry (m : Mem) (addr : Nat) : ECAMRegion where
  baseAddress := UInt64.ofNat (load m addr 8)
  segmentGroup := UInt16.ofNat (load m (addr + 8) 2)
  startBus := m (addr + 10)
  endBus := m (addr + 11)

/-! ## The walks -/

/-- `entries`. -/
def rsdtEntries (length : UInt32) : UInt32 := ((length.toUInt64 - 36) / 4).toUInt32

/-- The loop of `locate_acpi_table_mcfg` from entry `i` on, with `n` entries left. -/
def locateFrom (m : Mem) (rsdt : UInt64) : Nat → UInt32 → List Fetch → Option UInt64 × List Fetch
  | 0, _, log => (none, log)
  | n + 1, i, log =>
      let addr := rsdt + 36 + i.toUInt64 * 4
      let header := (tablePointer m addr.toNat).toUInt64
      let log := log ++ [.pointer addr]
      if header = 0 then locateFrom m rsdt n (i + 1) log
      else
        let log := log ++ [.signature header]
        if isMcfgSignature m header = true then (some header, log)
        else locateFrom m rsdt n (i + 1) log

/-- `locate_acpi_table_mcfg`; `none` is null. -/
def locateMcfg (m : Mem) (rsdt : UInt64) : Option UInt64 × List Fetch :=
  if rsdt = 0 then (none, [])
  else locateFrom m rsdt (rsdtEntries (tableLength m rsdt)).toNat 0 [.length rsdt]

/-- The loop of `parse_mcfg`. -/
def parseFrom (m : Mem) (fin ptr : UInt64) (map : ECAMMap) (log : List Fetch) : ECAMMap × List Fetch :=
  if h : ptr + 16 ≤ fin ∧ map.count < 16 then
    parseFrom m fin (ptr + 16)
      { regions := Function.update map.regions ⟨map.count, h.2⟩ (allocationEntry m ptr.toNat)
        count := map.count + 1 }
      (log ++ [.entry ptr])
  else (map, log)
termination_by 16 - map.count

/-- `parse_mcfg`: the result, and `out_map` afterwards. -/
def parseMcfg (m : Mem) (mcfg : UInt64) (outMap : ECAMMap) : Bool × ECAMMap × List Fetch :=
  if mcfg = 0 then (false, outMap, [])
  else
    let (map, log) := parseFrom m (mcfg + (tableLength m mcfg).toUInt64) (mcfg + 44)
      { outMap with count := 0 } [.length mcfg]
    (decide (0 < map.count), map, log)

/-! ## `locateMcfg` -/

variable {m : Mem} {rsdt mcfg : UInt32} {n : Nat} {i : UInt32} {log : List Fetch}

/-- The test of the loop, for the pointer it has fetched. -/
def refersToMcfg (m : Mem) (pointer : UInt32) : Bool :=
  pointer ≠ 0 ∧ isMcfgSignature m pointer.toUInt64 = true

/-- The pointers that lie in the RSDT, up to its length. -/
def referenced (m : Mem) (rsdt : UInt32) : List UInt32 :=
  (List.range (((tableLength m rsdt.toUInt64).toNat - 36) / 4)).map fun i =>
    tablePointer m (rsdt.toNat + 36 + 4 * i)

/-- The walk returns the first table of the RSDT that is the MCFG, and fetches pointers of the RSDT only. -/
def LocatesInside (m : Mem) (rsdt : UInt32) : Prop :=
  (locateMcfg m rsdt.toUInt64).1 = ((referenced m rsdt).find? (refersToMcfg m)).map UInt32.toUInt64
    ∧ ∀ addr, Fetch.pointer addr ∈ (locateMcfg m rsdt.toUInt64).2 →
      rsdt.toNat + 36 ≤ addr.toNat
        ∧ addr.toNat + 4 ≤ rsdt.toNat + (tableLength m rsdt.toUInt64).toNat

theorem toNat_pointer (rsdt i : UInt32) :
    (rsdt.toUInt64 + 36 + i.toUInt64 * 4).toNat = rsdt.toNat + 36 + 4 * i.toNat := by
  have hr := rsdt.toNat_lt
  have hi := i.toNat_lt
  simp only [UInt64.toNat_add, UInt64.toNat_mul, UInt32.toNat_toUInt64, UInt64.reduceToNat]
  omega

theorem toNat_next (h : i.toNat + (n + 1) < 2 ^ 32) : (i + 1).toNat = i.toNat + 1 := by
  rw [UInt32.toNat_add]
  show (i.toNat + 1) % 2 ^ 32 = _
  omega

/-- **One round**: the pointer is fetched, and the walk ends if it refers to the MCFG. -/
theorem locateFrom_succ (m : Mem) (rsdt : UInt32) (n : Nat) (i : UInt32) (log : List Fetch) :
    ∃ log', (∀ addr, Fetch.pointer addr ∈ log'
          ↔ Fetch.pointer addr ∈ log ∨ addr = rsdt.toUInt64 + 36 + i.toUInt64 * 4)
      ∧ locateFrom m rsdt.toUInt64 (n + 1) i log
        = if refersToMcfg m (tablePointer m (rsdt.toNat + 36 + 4 * i.toNat)) = true then
            (some (tablePointer m (rsdt.toNat + 36 + 4 * i.toNat)).toUInt64, log')
          else locateFrom m rsdt.toUInt64 n (i + 1) log' := by
  obtain ⟨pointer, hpointer⟩ : ∃ p, tablePointer m (rsdt.toNat + 36 + 4 * i.toNat) = p := ⟨_, rfl⟩
  have hnull : pointer.toUInt64 = 0 ↔ pointer = 0 := by
    rw [← UInt64.toNat_inj, ← UInt32.toNat_inj, UInt32.toNat_toUInt64]
    rfl
  simp only [locateFrom, refersToMcfg, toNat_pointer, hpointer, hnull, decide_eq_true_eq]
  by_cases h0 : pointer = 0
  · refine ⟨_, ?_, by rw [if_pos h0, if_neg (fun h => h.1 h0)]⟩
    intro addr
    rw [List.mem_append, List.mem_singleton, Fetch.pointer.injEq]
  · refine ⟨log ++ [.pointer (rsdt.toUInt64 + 36 + i.toUInt64 * 4)] ++ [.signature pointer.toUInt64], ?_, ?_⟩
    · intro addr
      simp only [List.mem_append, List.mem_singleton, Fetch.pointer.injEq, reduceCtorEq, or_false]
    · rw [if_neg h0]
      simp only [ne_eq, h0, not_false_eq_true, true_and]

/-- **The walk over `n` entries** from entry `i` on returns the first that refers to the MCFG. -/
theorem locateFrom_fst (h : i.toNat + n < 2 ^ 32) :
    (locateFrom m rsdt.toUInt64 n i log).1
      = (((List.range' i.toNat n).map fun j => tablePointer m (rsdt.toNat + 36 + 4 * j)).find?
          (refersToMcfg m)).map UInt32.toUInt64 := by
  induction n generalizing i log with
  | zero => rfl
  | succ n ih =>
      have hnext : (i + 1).toNat = i.toNat + 1 := toNat_next h
      obtain ⟨log', -, hstep⟩ := locateFrom_succ m rsdt n i log
      rw [hstep, List.range'_succ, List.map_cons, List.find?_cons]
      split
      · rename_i hmcfg
        rw [hmcfg]
        rfl
      · rename_i hno
        rw [ih (by omega), hnext, Bool.eq_false_iff.mpr hno]

/-- It fetches pointers at these entries only. -/
theorem pointer_of_locateFrom (h : i.toNat + n < 2 ^ 32) {addr : UInt64}
    (haddr : Fetch.pointer addr ∈ (locateFrom m rsdt.toUInt64 n i log).2) :
    Fetch.pointer addr ∈ log
      ∨ rsdt.toNat + 36 + 4 * i.toNat ≤ addr.toNat ∧ addr.toNat + 4 ≤ rsdt.toNat + 36 + 4 * (i.toNat + n) := by
  induction n generalizing i log with
  | zero => exact Or.inl haddr
  | succ n ih =>
      have hnext : (i + 1).toNat = i.toNat + 1 := toNat_next h
      obtain ⟨log', hlog', hstep⟩ := locateFrom_succ m rsdt n i log
      have hpointer := toNat_pointer rsdt i
      rw [hstep] at haddr
      have hin : Fetch.pointer addr ∈ log'
          ∨ rsdt.toNat + 36 + 4 * (i.toNat + 1) ≤ addr.toNat
            ∧ addr.toNat + 4 ≤ rsdt.toNat + 36 + 4 * (i.toNat + 1 + n) := by
        split at haddr
        · exact Or.inl haddr
        · rw [← hnext]
          exact ih (by omega) haddr
      rcases hin with hin | hin
      · rcases (hlog' addr).mp hin with hold | rfl
        · exact Or.inl hold
        · exact Or.inr (by omega)
      · exact Or.inr (by omega)

/-- What was fetched stays in the log. -/
theorem mem_locateFrom {addr : UInt64} (h : Fetch.pointer addr ∈ log) :
    Fetch.pointer addr ∈ (locateFrom m rsdt.toUInt64 n i log).2 := by
  induction n generalizing i log with
  | zero => exact h
  | succ n ih =>
      obtain ⟨log', hlog', hstep⟩ := locateFrom_succ m rsdt n i log
      have hin := (hlog' addr).mpr (Or.inl h)
      rw [hstep]
      split
      · exact hin
      · exact ih hin

/-- The number of pointers behind a header, when there is room for it. -/
theorem rsdtEntries_of_le {length : UInt32} (h : 36 ≤ length.toNat) :
    (rsdtEntries length).toNat = (length.toNat - 36) / 4 := by
  have hlt := length.toNat_lt
  unfold rsdtEntries
  rw [UInt64.toNat_toUInt32, UInt64.toNat_div, UInt64.toNat_sub, UInt32.toNat_toUInt64]
  simp only [UInt64.reduceToNat]
  omega

/-- A table that is shorter than its header has billions of pointers. -/
theorem rsdtEntries_of_lt {length : UInt32} (h : length.toNat < 36) :
    2 ^ 32 - 9 ≤ (rsdtEntries length).toNat := by
  unfold rsdtEntries
  rw [UInt64.toNat_toUInt32, UInt64.toNat_div, UInt64.toNat_sub, UInt32.toNat_toUInt64]
  simp only [UInt64.reduceToNat]
  omega

/-- **`locate_acpi_table_mcfg` stays in the RSDT exactly if the RSDT is as long as its header.** -/
theorem locatesInside_iff (hrsdt : rsdt ≠ 0) :
    LocatesInside m rsdt ↔ 36 ≤ (tableLength m rsdt.toUInt64).toNat := by
  have hnull : rsdt.toUInt64 ≠ 0 := by
    rw [ne_eq, ← UInt64.toNat_inj, UInt32.toNat_toUInt64]
    exact fun h => hrsdt (UInt32.toNat_inj.mp h)
  have hwalk : locateMcfg m rsdt.toUInt64 = locateFrom m rsdt.toUInt64
      (rsdtEntries (tableLength m rsdt.toUInt64)).toNat 0 [.length rsdt.toUInt64] := if_neg hnull
  unfold LocatesInside
  rw [hwalk]
  constructor
  · -- without room for the header, the first pointer is fetched behind the end
    rintro ⟨-, hfetch⟩
    by_contra hshort
    have hmany := rsdtEntries_of_lt (Nat.lt_of_not_le hshort)
    obtain ⟨n, hn⟩ : ∃ n, (rsdtEntries (tableLength m rsdt.toUInt64)).toNat = n + 1 :=
      ⟨(rsdtEntries (tableLength m rsdt.toUInt64)).toNat - 1, by omega⟩
    obtain ⟨log', hlog', hstep⟩ := locateFrom_succ m rsdt n 0 [.length rsdt.toUInt64]
    have hfirst := (hlog' _).mpr (Or.inr rfl)
    have hin : Fetch.pointer (rsdt.toUInt64 + 36 + (0 : UInt32).toUInt64 * 4)
        ∈ (locateFrom m rsdt.toUInt64 (n + 1) 0 [.length rsdt.toUInt64]).2 := by
      rw [hstep]
      split
      · exact hfirst
      · exact mem_locateFrom hfirst
    rw [hn] at hfetch
    have hbound := (hfetch _ hin).2
    rw [toNat_pointer] at hbound
    omega
  · intro hlong
    have hlt := (rsdtEntries (tableLength m rsdt.toUInt64)).toNat_lt
    have hentries := rsdtEntries_of_le hlong
    have hzero : (0 : UInt32).toNat = 0 := rfl
    constructor
    · rw [locateFrom_fst (by omega), hentries, hzero, List.range_eq_range'.symm]
      rfl
    · intro addr haddr
      rcases pointer_of_locateFrom (by omega) haddr with hin | hin
      · exact absurd (List.mem_singleton.mp hin) (by simp)
      · omega

/-! ## `parseMcfg` -/

/-- The number of entries that lie in the table, and in the map. -/
def regionCount (length : UInt32) : Nat := min 16 ((length.toNat - 44) / 16)

/-- The walk stores the first entries of the MCFG, and fetches entries of the MCFG only. -/
def ParsesInside (m : Mem) (mcfg : UInt32) (outMap : ECAMMap) : Prop :=
  let (found, map, log) := parseMcfg m mcfg.toUInt64 outMap
  let count := regionCount (tableLength m mcfg.toUInt64)
  found = decide (0 < count) ∧ map.count = count
    ∧ (∀ k : Fin 16, map.regions k
        = if k.val < count then allocationEntry m (mcfg.toNat + 44 + 16 * k) else outMap.regions k)
    ∧ ∀ addr, Fetch.entry addr ∈ log →
        mcfg.toNat + 44 ≤ addr.toNat
          ∧ addr.toNat + 16 ≤ mcfg.toNat + (tableLength m mcfg.toUInt64).toNat

variable {fin ptr : UInt64} {map : ECAMMap} {base : Nat}

/-- What the loop has done when it is at the entry `map.count`, with `count` entries to store in all. -/
structure Parsed (m : Mem) (base count : Nat) (outMap map : ECAMMap) (fin : Nat) (log : List Fetch) : Prop where
  count_le : map.count ≤ count
  regions : ∀ k : Fin 16, map.regions k
    = if k.val < map.count then allocationEntry m (base + 16 * k) else outMap.regions k
  fetched : ∀ addr, Fetch.entry addr ∈ log → base ≤ addr.toNat ∧ addr.toNat + 16 ≤ fin

variable {outMap : ECAMMap} {count : Nat}

/-- **A round of the loop** stores one entry more. -/
theorem Parsed.next (h : Parsed m base count outMap map fin.toNat log) (hptr : ptr.toNat = base + 16 * map.count)
    (hfin : ptr.toNat + 16 ≤ fin.toNat) (hcount : map.count < 16) (hlt : map.count < count) :
    Parsed m base count outMap
      { regions := Function.update map.regions ⟨map.count, hcount⟩ (allocationEntry m ptr.toNat)
        count := map.count + 1 }
      fin.toNat (log ++ [.entry ptr]) where
  count_le := hlt
  regions k := by
    show Function.update map.regions ⟨map.count, hcount⟩ _ k = if k.val < map.count + 1 then _ else _
    by_cases hk : k = ⟨map.count, hcount⟩
    · rw [hk, Function.update_self, if_pos (Nat.lt_succ_self _), hptr]
    · have hne : k.val ≠ map.count := fun he => hk (Fin.ext he)
      rw [Function.update_of_ne hk, h.regions]
      by_cases hlt : k.val < map.count
      · rw [if_pos hlt, if_pos (by omega)]
      · rw [if_neg hlt, if_neg (by omega)]
  fetched addr haddr := by
    rcases List.mem_append.mp haddr with hold | hnew
    · exact h.fetched addr hold
    · rw [Fetch.entry.inj (List.mem_singleton.mp hnew)]
      omega

/-- **The loop** stores all entries that lie before the end, as far as there is room. -/
theorem parsed_parseFrom (hbase : base ≤ 2 ^ 63) (hsmall : fin.toNat ≤ 2 ^ 63)
    (h : Parsed m base (min 16 ((fin.toNat - base) / 16)) outMap map fin.toNat log)
    (hptr : ptr.toNat = base + 16 * map.count) :
    Parsed m base (min 16 ((fin.toNat - base) / 16)) outMap (parseFrom m fin ptr map log).1 fin.toNat
        (parseFrom m fin ptr map log).2
      ∧ (parseFrom m fin ptr map log).1.count = min 16 ((fin.toNat - base) / 16) := by
  have hleft : ∀ ptr : UInt64, ptr.toNat ≤ 2 ^ 63 + 256 → (ptr + 16).toNat = ptr.toNat + 16
      ∧ (ptr + 16 ≤ fin ↔ ptr.toNat + 16 ≤ fin.toNat) := by
    intro ptr hptr
    have hnext : (ptr + 16).toNat = ptr.toNat + 16 := by
      rw [UInt64.toNat_add]
      show (ptr.toNat + 16) % 2 ^ 64 = _
      omega
    exact ⟨hnext, by rw [UInt64.le_iff_toNat_le, hnext]⟩
  induction ptr, map, log using parseFrom.induct m fin with
  | case1 ptr map log htest ih =>
      obtain ⟨hnext, htest'⟩ := hleft ptr (by omega)
      have hfits := htest'.mp htest.1
      rw [parseFrom, dif_pos htest]
      refine ih (h.next hptr hfits htest.2 (by omega)) ?_
      show (ptr + 16).toNat = base + 16 * (map.count + 1)
      omega
  | case2 ptr map log hstop =>
      have hle := h.count_le
      rw [parseFrom, dif_neg hstop]
      refine ⟨h, ?_⟩
      rw [(hleft ptr (by omega)).2] at hstop
      show map.count = _
      omega

/-- **`parse_mcfg` stays in the MCFG**, whatever its length says. -/
theorem parsesInside (m : Mem) (hmcfg : mcfg ≠ 0) (outMap : ECAMMap) : ParsesInside m mcfg outMap := by
  have hnull : mcfg.toUInt64 ≠ 0 := by
    rw [ne_eq, ← UInt64.toNat_inj, UInt32.toNat_toUInt64]
    exact fun h => hmcfg (UInt32.toNat_inj.mp h)
  obtain ⟨length, hlength⟩ : ∃ length, tableLength m mcfg.toUInt64 = length := ⟨_, rfl⟩
  have hm := mcfg.toNat_lt
  have hl := length.toNat_lt
  have hfin : (mcfg.toUInt64 + length.toUInt64).toNat = mcfg.toNat + length.toNat := by
    rw [UInt64.toNat_add, UInt32.toNat_toUInt64, UInt32.toNat_toUInt64]
    omega
  have hstart : (mcfg.toUInt64 + 44).toNat = mcfg.toNat + 44 := by
    rw [UInt64.toNat_add, UInt32.toNat_toUInt64]
    show (mcfg.toNat + 44) % 2 ^ 64 = _
    omega
  have hinit : Parsed m (mcfg.toNat + 44)
      (min 16 (((mcfg.toUInt64 + length.toUInt64).toNat - (mcfg.toNat + 44)) / 16)) outMap
      { outMap with count := 0 } (mcfg.toUInt64 + length.toUInt64).toNat [.length mcfg.toUInt64] := by
    refine ⟨Nat.zero_le _, fun k => by rw [if_neg (Nat.not_lt_zero _)], fun addr haddr => ?_⟩
    exact absurd (List.mem_singleton.mp haddr) (by simp)
  obtain ⟨hparsed, hcount⟩ := parsed_parseFrom (by omega) (by omega) hinit hstart
  have hregions : min 16 (((mcfg.toUInt64 + length.toUInt64).toNat - (mcfg.toNat + 44)) / 16) = regionCount length := by
    unfold regionCount
    omega
  rw [hregions] at hcount
  unfold ParsesInside parseMcfg
  simp only [if_neg hnull, hlength]
  refine ⟨by rw [hcount], hcount, ?_, ?_⟩
  · intro k
    rw [hparsed.regions, hcount]
  · rw [← hfin]
    exact hparsed.fetched

/-! ## Both walks -/

/-- **The walks stay inside the tables exactly if the RSDT is as long as its header**; the MCFG may say
    anything. -/
theorem walks_inside_iff (hrsdt : rsdt ≠ 0) (hmcfg : mcfg ≠ 0) (outMap : ECAMMap) :
    (LocatesInside m rsdt ∧ ParsesInside m mcfg outMap) ↔ 36 ≤ (tableLength m rsdt.toUInt64).toNat :=
  (and_iff_left (parsesInside m hmcfg outMap)).trans (locatesInside_iff hrsdt)

/-- An empty map. -/
def noRegions : ECAMMap := ⟨fun _ => ⟨0, 0, 0, 0⟩, 0⟩

/-- A memory of words. -/
def memOf (words : List (Nat × Nat)) : Mem := words.foldl (fun m w => store m w.1 4 w.2) fun _ => 0

/-- The RSDT at `0x1000` has three pointers: null, the FADT at `0x3000`, and the MCFG at `0x2000`. The MCFG
    has two entries, for the buses up to 63 and up to 127. -/
def bootTables : Mem := memOf
  [(0x1004, 48), (0x1028, 0x3000), (0x102C, 0x2000),
    (0x2000, 0x4746434D), (0x2004, 76), (0x202C, 0xB0000000), (0x2034, 0x3F000000), (0x203C, 0xB4000000),
    (0x2044, 0x7F400000),
    (0x3000, 0x50434146)]

theorem walks_inside_boot :
    (LocatesInside bootTables 0x1000 ∧ ParsesInside bootTables 0x2000 noRegions)
      ∧ (locateMcfg bootTables 0x1000).1 = some 0x2000
      ∧ (parseMcfg bootTables 0x2000 noRegions).2.1.count = 2
      ∧ (parseMcfg bootTables 0x2000 noRegions).2.1.regions 1 = ⟨0xB4000000, 0, 64, 127⟩ := by
  have hinside : LocatesInside bootTables 0x1000 ∧ ParsesInside bootTables 0x2000 noRegions :=
    (walks_inside_iff (by decide) (by decide) noRegions).mpr (by decide)
  have hcount : (parseMcfg bootTables 0x2000 noRegions).2.1.count = 2 := hinside.2.2.1
  exact ⟨hinside, by decide +kernel, hcount, (hinside.2.2.2.1 1).trans rfl⟩

/-- A memory with an RSDT at `0x1000` that is of the given length and refers to nothing. -/
def rsdtOf (length : UInt8) : Mem := fun a => if a = 0x1004 then length else 0

/-- An RSDT that says it is as long as a signature and a length. -/
theorem not_walks_inside :
    ¬ (LocatesInside (rsdtOf 8) 0x1000 ∧ ParsesInside (rsdtOf 8) 0x2000 noRegions) := by
  rintro ⟨hlocates, -⟩
  exact absurd ((locatesInside_iff (by decide)).mp hlocates) (by decide)

end AlopexOS.Acpi
