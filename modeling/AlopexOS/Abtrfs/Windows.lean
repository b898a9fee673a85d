import AlopexOS.Abtrfs.Stored

/-!
# `Abtrfs.Windows` — `readFile` from any offset

A window of a file starts inside a block and ends inside another one. The first round of the copying loop
drops what is in front of the window, every later one starts at the front of its block, and the limit
stops the loop wherever it is reached.

## Contents
- **Blocks** and offsets into them.
- **One window** of a file.
- **Consecutive windows** make up the file.
-/

namespace AlopexOS

open Packed ByteString CString Prog

variable {c : Conditions} {fs : AbtrFS} {path : Path} {files : List File} {f : File} {m : Machine}

/-! ## Blocks and offsets -/

/-- Whole blocks in front of an offset are dropped as blocks. -/
theorem drop_joinBlocks (bs : List Block) (q s : Nat) :
    (joinBlocks bs).drop (q * 4096 + s) = (joinBlocks (bs.drop q)).drop s := by
  induction q generalizing bs with
  | zero => rw [Nat.zero_mul, Nat.zero_add, List.drop_zero]
  | succ q ih =>
      cases bs with
      | nil => simp [joinBlocks]
      | cons b bs =>
          have hb : b.toList.length = 4096 := Bytes.length_toList b
          show (b.toList ++ joinBlocks bs).drop ((q + 1) * 4096 + s) = _
          rw [show (q + 1) * 4096 + s = b.toList.length + (q * 4096 + s) by rw [hb]; omega,
            List.drop_length_add_append]
          exact ih bs

/-- Blocks that are stored one after the other are also stored from the `q`-th on. -/
theorem Holds.drop {disk : Nat → Block} {a : Nat} {bs : List Block} (h : Holds disk a bs) (q : Nat) :
    Holds disk (a + q) (bs.drop q) := by
  rw [holds_iff]
  intro i hi
  rw [List.length_drop] at hi
  rw [Nat.add_assoc, List.getElem_drop]
  exact h.getElem (by omega)

/-- **The copying loop from inside a block**, when the reads succeed. -/
theorem run_readBlocks_shift (hv : fs.deviceHandle ≠ invalidHandle) (hread : ∀ k, c.readOk k = true)
    (po count : UInt64) (bs : List Block) (n : Nat) (b : UInt64) (shift : Nat) (hshift : shift < 4096)
    (remaining : Nat) (buffer : Block) (m : Machine) (hb : b.toNat + bs.length = count.toNat)
    (hpo : po.toNat + count.toNat < 2 ^ 64) (hold : Holds m.disk (po.toNat + b.toNat) bs)
    (hn : remaining ≤ n) :
    ∃ m', (readBlocks (honest c) fs po count n b shift remaining buffer).run m
        = (.ok (true, ((joinBlocks bs).drop shift).take remaining), m') ∧ Quiet m m' := by
  have hdone : ¬ (b < count ∧ 0 < remaining) → ((joinBlocks bs).drop shift).take remaining = [] →
      ∃ m', (readBlocks (honest c) fs po count n b shift remaining buffer).run m
        = (.ok (true, ((joinBlocks bs).drop shift).take remaining), m') ∧ Quiet m m' := by
    intro hstop hnil
    refine ⟨m, ?_, Quiet.refl m⟩
    rw [hnil]
    cases n with
    | zero => rfl
    | succ n =>
        rw [readBlocks, if_neg hstop]
        rfl
  by_cases h0 : remaining = 0
  · exact hdone (by omega) (by rw [h0, List.take_zero])
  · cases bs with
    | nil =>
        have hge : ¬ b < count := by
          rw [UInt64.lt_iff_toNat_lt, ← hb, List.length_nil]
          omega
        exact hdone (fun h => hge h.1) (by simp [joinBlocks])
    | cons x bs =>
        obtain ⟨n, rfl⟩ : ∃ k, n = k + 1 := ⟨n - 1, by omega⟩
        rw [List.length_cons] at hb
        have hlt : b < count := by
          rw [UInt64.lt_iff_toNat_lt, ← hb]
          omega
        have haddr : (po + b).toNat = po.toNat + b.toNat := Word.toNat_add_of_lt (by omega)
        have hx : m.disk (po + b).toNat = x := by
          rw [haddr]
          exact hold.1
        have hb1 := Word.toNat_succ_of_lt hlt
        have hlen : ((x.toList.drop shift).take remaining).length = min remaining (4096 - shift) := by
          rw [List.length_take, List.length_drop, Bytes.length_toList]
        -- behind the first block every round starts at the front
        obtain ⟨res, m', hrun, hq, hends⟩ := run_readBlocks (c := c) hv po count bs n (b + 1)
          (remaining - ((x.toList.drop shift).take remaining).length) x { m with reads := m.reads + 1 }
          (by omega) hpo (by rw [hb1, ← Nat.add_assoc]; exact hold.2) (by rw [hlen]; omega)
        rcases hends with ⟨hres, _, _⟩ | ⟨_, i, _, hbad, _⟩
        · refine ⟨m', ?_, ⟨hq.disk, hq.writes, hq.log⟩⟩
          simp only [readBlocks, hlt, show 0 < remaining by omega, and_self, if_true, run_bind,
            run_readBlock hv, andThen_ok, hread, hx, hrun, run_pure]
          rw [hres]
          show (Except.ok (true, _), m') = _
          have hdrop : (joinBlocks (x :: bs)).drop shift = x.toList.drop shift ++ joinBlocks bs := by
            show (x.toList ++ joinBlocks bs).drop shift = _
            rw [List.drop_append_of_le_length (by rw [Bytes.length_toList]; omega)]
          have hrest : remaining - min remaining (x.toList.drop shift).length
              = remaining - (x.toList.drop shift).length := by omega
          rw [hdrop, List.take_append, List.length_take, hrest]
        · rw [hread] at hbad
          cases hbad

/-! ## One window -/

/-- How many bytes a window has: what is left behind `off`, under the limit `max`, where 0 is no
    limit. -/
def windowLength (len off max : Nat) : Nat :=
  if 0 < max ∧ max < len - off then max else len - off

/-- The length as the call computes it. -/
theorem toNat_windowLength (total off max : UInt64) (hle : off.toNat ≤ total.toNat) :
    (if 0 < max ∧ max < total - off then max else total - off).toNat
      = windowLength total.toNat off.toNat max.toNat := by
  have havail : (total - off).toNat = total.toNat - off.toNat := Word.toNat_sub_of_le hle
  unfold windowLength
  simp only [UInt64.lt_iff_toNat_lt, havail, UInt64.toNat_zero]
  split
  · rfl
  · exact havail

/-- A window of a file without a limit is the rest of it. -/
theorem take_windowLength {x : List UInt8} {off max : Nat} :
    (x.drop off).take (windowLength x.length off max) = limited (x.drop off) max := by
  have hlen : (x.drop off).length = x.length - off := List.length_drop
  unfold windowLength limited
  by_cases h0 : max = 0
  · rw [if_neg (by omega), if_pos h0, List.take_of_length_le (by omega)]
  · rw [if_neg h0]
    by_cases hlt : max < x.length - off
    · rw [if_pos ⟨by omega, hlt⟩]
    · rw [if_neg (by omega), List.take_of_length_le (by omega), List.take_of_length_le (by omega)]

theorem length_limited_drop {x : List UInt8} {off max : Nat} :
    (limited (x.drop off) max).length = windowLength x.length off max := by
  rw [← take_windowLength, List.length_take, List.length_drop]
  unfold windowLength
  split <;> omega

theorem limited_nil (max : Nat) : limited [] max = [] := by
  unfold limited
  split
  · rfl
  · exact List.take_nil

/-- **The loop copies the window** of a file that is stored at `a`. -/
theorem run_readBlocks_window {blk : Block} {a : Nat} (off max : UInt64) (hok : f.Ok) (hh : IsHeader blk f a)
    (hv : fs.deviceHandle ≠ invalidHandle) (hread : ∀ k, c.readOk k = true)
    (hin : off.toNat < f.length) (hpo : a + 1 + f.payload.length < 2 ^ 64)
    (hold : Holds m.disk (a + 1) f.payload) :
    ∃ m', (readBlocks (honest c) fs (AbtrFSDiskHeader.payloadOffset ⟨blk⟩)
        (AbtrFSDiskHeader.sectionCount ⟨blk⟩) (windowLength f.length off.toNat max.toNat) (off / 4096)
        (off % 4096).toNat (windowLength f.length off.toNat max.toNat) Bytes.zero).run m
      = (.ok (true, limited (f.content.drop off.toNat) max.toNat), m') ∧ Quiet m m' := by
  have hmax := hok.length_le
  have hdiv : (off / 4096).toNat = off.toNat / 4096 := UInt64.toNat_div _ _
  have hmod : (off % 4096).toNat = off.toNat % 4096 := UInt64.toNat_mod _ _
  have hle : windowLength f.length off.toNat max.toNat ≤ f.length - off.toNat := by
    unfold windowLength
    split <;> omega
  have hwindow : ((joinBlocks (f.payload.drop (off.toNat / 4096))).drop (off % 4096).toNat).take
      (windowLength f.length off.toNat max.toNat) = limited (f.content.drop off.toNat) max.toNat := by
    rw [← drop_joinBlocks, hmod, Nat.div_add_mod', ← take_windowLength, File.length_content f,
      hok.content_eq, List.drop_take, List.take_take, Nat.min_eq_left hle]
  rw [← hwindow]
  apply run_readBlocks_shift hv hread
  · rw [hmod]
    exact Nat.mod_lt _ (by decide)
  · rw [hh.sectionCount, hdiv, List.length_drop]
    omega
  · rw [hh.payloadOffset, hh.sectionCount]
    exact hpo
  · rw [hh.payloadOffset, hdiv]
    exact hold.drop _
  · exact Nat.le_refl _

/-- What `read_file` answers when it finds the file and reads the window `w`: the bytes, and the caller's
    array with exactly these, if it gave one. -/
def Windowed (w : List UInt8) (data : Option Dynarr)
    (res : Except ErrorCode (List UInt8) × Option Dynarr) : Prop :=
  res.1 = .ok w ∧ res.2.map Dynarr.elems = data.map fun _ => w

/-- **`readFile` of one window** of the first file that the path names. -/
theorem runs_readFile_found {pre post : List File} (hvol : Volume fs m.disk (pre ++ f :: post)) (hok : f.Ok)
    (hpre : ∀ g ∈ pre, ¬ g.Named path) (hm : f.Named path) (hseg : chopPath path ≠ [])
    (hread : ∀ k, c.readOk k = true) (data : Option Dynarr) (off max : UInt64) :
    Runs c.Generous (readFile (honest c) fs path data off max) m
      (fun res m' => Quiet m m' ∧ Windowed (limited (f.content.drop off.toNat) max.toNat) data res) := by
  unfold readFile
  rw [if_neg (by simp [hvol.mounted]), if_neg hseg]
  refine (runs_operatorNew 4096 m).bind ?_
  rintro _ m₁ ⟨hq₁, hr₁⟩
  refine (runs_findFileHeader (m := m₁) (by rw [hq₁.disk]; exact hvol.front path)).bind ?_
  rintro o m₂ ⟨hq₂, hs⟩
  rw [hq₁.disk, hr₁] at hs
  generalize m₂.reads = r at hs
  have hq := hq₁.trans hq₂
  obtain rfl := hs.eq_some hpre hm hread
  obtain ⟨hh, hp, hrest⟩ := hvol.laid.file
  have hend := hrest.end_eq
  have hlt := fs.partitionHeader.used.toNat_lt
  have hsize := hh.totalSize_eq
  have hcontent := File.length_content f
  refine Runs.ite (fun h0 => ?_) (fun h0 => ?_)
  · -- the window starts behind the end
    have hnil : f.content.drop off.toNat = [] := by
      rw [UInt64.le_iff_toNat_le, hsize] at h0
      exact List.drop_of_length_le (by omega)
    have hw : limited (f.content.drop off.toNat) max.toNat = [] := by
      rw [hnil, limited_nil]
    apply Runs.pure
    refine ⟨hq, by rw [hw], ?_⟩
    rw [hw, Option.map_map]
    rfl
  · have hin : off.toNat < f.length := by
      rw [UInt64.le_iff_toNat_le, hsize] at h0
      omega
    have hcount := toNat_windowLength (AbtrFSDiskHeader.totalSize ⟨m.disk (1 + spanAll pre)⟩) off
      max (by rw [hsize]; exact Nat.le_of_lt hin)
    rw [hsize] at hcount
    simp only [hcount]
    refine (runs_resize _ _ _).bind ?_
    rintro target m₃ ⟨⟨hq₃, _⟩, htarget⟩
    refine (runs_operatorNew 4096 m₃).bind ?_
    rintro _ m₄ ⟨hq₄, _⟩
    have hq' := hq.trans (hq₃.trans hq₄)
    unfold File.span at hend
    obtain ⟨m₅, hrun, hq₅⟩ := run_readBlocks_window (m := m₄) (c := c) off max hok hh
      hvol.handle hread hin (by omega) (by rw [hq'.disk]; exact hp)
    have hwlen : (limited (f.content.drop off.toNat) max.toNat).length
        = windowLength f.length off.toNat max.toNat := by
      rw [length_limited_drop, hcontent]
    refine (Runs.of_ok (Q := fun r m' => r = (true, limited (f.content.drop off.toNat) max.toNat)
      ∧ Quiet m₄ m') hrun ⟨rfl, hq₅⟩).bind ?_
    rintro _ m₆ ⟨rfl, hq₆⟩
    have helems : (target.assign (limited (f.content.drop off.toNat) max.toNat)).elems
        = limited (f.content.drop off.toNat) max.toNat := by
      show (limited (f.content.drop off.toNat) max.toNat).take target.elems.length
        ++ target.elems.drop (limited (f.content.drop off.toNat) max.toNat).length = _
      rw [htarget, hwlen, Dynarr.length_resized,
        List.take_of_length_le (Nat.le_of_eq hwlen),
        List.drop_of_length_le (Nat.le_of_eq (Dynarr.length_resized _ _)), List.append_nil]
    rw [if_pos rfl]
    refine (runs_operatorNew _ m₆).bind ?_
    rintro _ m₇ ⟨hq₇, _⟩
    apply Runs.pure
    refine ⟨hq'.trans (hq₆.trans hq₇), by rw [helems], ?_⟩
    rw [Option.map_map]
    simp only [Function.comp_def, helems]

/-- On a volume in order that is the file with the name. -/
theorem runs_readFile_window (hvol : WellLaidOut fs m.disk files) (hf : f ∈ files)
    (hp : path.str = f.name) (hlen : path.str.length ≤ 254) (hseg : chopPath path ≠ [])
    (hread : ∀ k, c.readOk k = true) (data : Option Dynarr) (off max : UInt64) :
    Runs c.Generous (readFile (honest c) fs path data off max) m
      (fun res m' => Quiet m m' ∧ Windowed (limited (f.content.drop off.toNat) max.toNat) data res) := by
  have hok := hvol.ok f hf
  obtain ⟨pre, post, rfl⟩ := List.append_of_mem hf
  exact runs_readFile_found hvol.toVolume hok (not_named_of_distinct hvol.distinct hp) ⟨hp, hlen⟩ hseg hread
    data off max

/-! ## Consecutive windows -/

/-- `read_file` for windows of the given sizes, each from where the last one ended, into one array. -/
def readWindows {σ : Type} (P : Platform σ) (fs : AbtrFS) (path : Path) :
    List UInt64 → UInt64 → Option Dynarr → Prog σ (Except ErrorCode (List UInt8))
  | [], _, _ => pure (.ok [])
  | size :: sizes, off, data => do
      let r ← readFile P fs path data off size
      match r.1 with
      | .error e => pure (.error e)
      | .ok bytes => do
          let rest ← readWindows P fs path sizes (off + UInt64.ofNat bytes.length) r.2
          pure (rest.map (bytes ++ ·))

/-- Two windows next to each other. -/
theorem take_append_window (x : List UInt8) (n rest : Nat) :
    x.take n ++ (x.drop (x.take n).length).take rest = x.take (n + rest) := by
  have hdrop : x.drop (x.take n).length = x.drop n := by
    rw [List.length_take]
    by_cases hle : n ≤ x.length
    · rw [Nat.min_eq_left hle]
    · rw [List.drop_of_length_le (by omega), List.drop_of_length_le (by omega)]
  rw [hdrop, List.take_add]

/-- **Consecutive windows** from `off` on. -/
theorem runs_readWindows (hvol : WellLaidOut fs m.disk files) (hf : f ∈ files)
    (hp : path.str = f.name) (hlen : path.str.length ≤ 254) (hseg : chopPath path ≠ [])
    (hread : ∀ k, c.readOk k = true) (sizes : List UInt64) (hpos : ∀ s ∈ sizes, 0 < s)
    (data : Option Dynarr) (off : UInt64) :
    Runs c.Generous (readWindows (honest c) fs path sizes off data) m
      (fun res m' => Quiet m m'
        ∧ res = .ok ((f.content.drop off.toNat).take (sizes.map UInt64.toNat).sum)) := by
  induction sizes generalizing off data m with
  | nil => exact Runs.pure ⟨Quiet.refl m, by rw [List.map_nil, List.sum_nil, List.take_zero]⟩
  | cons size sizes ih =>
      obtain ⟨hsize, hpos⟩ := List.forall_mem_cons.mp hpos
      refine (runs_readFile_window hvol hf hp hlen hseg hread data off size).bind ?_
      rintro ⟨_, d'⟩ m₁ ⟨hq, rfl, _⟩
      have hsize' : ¬ size.toNat = 0 := by
        rw [UInt64.lt_iff_toNat_lt] at hsize
        exact Nat.ne_of_gt hsize
      have hw : limited (f.content.drop off.toNat) size.toNat = (f.content.drop off.toNat).take size.toNat :=
        if_neg hsize'
      simp only [hw]
      -- the next window starts where this one ended
      have hnext : (off + UInt64.ofNat ((f.content.drop off.toNat).take size.toNat).length).toNat
          = off.toNat + ((f.content.drop off.toNat).take size.toNat).length := by
        have hcontent : f.content.length < 2 ^ 64 := by
          rw [File.length_content]
          exact f.length_lt
        have hoff := off.toNat_lt
        have hwlen : ((f.content.drop off.toNat).take size.toNat).length ≤ f.content.length - off.toNat := by
          rw [List.length_take, List.length_drop]
          omega
        have hn : (UInt64.ofNat ((f.content.drop off.toNat).take size.toNat).length).toNat
            = ((f.content.drop off.toNat).take size.toNat).length := Word.toNat_ofNat (by omega)
        rw [Word.toNat_add_of_lt (by rw [hn]; omega), hn]
      refine (ih (m := m₁) (by rw [hq.disk]; exact hvol) hpos d' _).bind ?_
      rintro _ m₂ ⟨hq₂, rfl⟩
      apply Runs.pure
      refine ⟨hq.trans hq₂, ?_⟩
      rw [hnext, ← List.drop_drop, List.map_cons, List.sum_cons]
      show Except.ok (_ ++ _) = _
      rw [take_append_window]

/-- **Windowed reads.** A file that the walk can find comes back window by window, and consecutive windows
    make it up, as far as memory lasts. -/
theorem reads_windows (hvol : WellLaidOut fs m.disk files) (hf : f ∈ files) (hp : path.str = f.name)
    (hlen : path.str.length ≤ 254) (hseg : ∃ b ∈ path.str, b ≠ slash)
    (hsize : (f.payload.length - 1) * 4096 + f.size < 2 ^ 64) (hread : ∀ k, c.readOk k = true) :
    f.content = (joinBlocks f.payload).take ((f.payload.length - 1) * 4096 + f.size)
    ∧ f.content.length = (f.payload.length - 1) * 4096 + f.size
    ∧ (∀ (data : Option Dynarr) (off max : UInt64),
        Runs c.Generous (readFile (honest c) fs path data off max) m
          (fun res _ => Windowed (limited (f.content.drop off.toNat) max.toNat) data res))
    ∧ ∀ (data : Option Dynarr) (sizes : List UInt64), (∀ s ∈ sizes, 0 < s) →
        Runs c.Generous (readWindows (honest c) fs path sizes 0 data) m
          (fun res _ => res = .ok (f.content.take (sizes.map UInt64.toNat).sum)
            ∧ (f.content.length ≤ (sizes.map UInt64.toNat).sum → res = .ok f.content)) := by
  have hok := hvol.ok f hf
  have hcount := hok.payload_pos
  have hlength : f.length = (f.payload.length - 1) * 4096 + f.size := by
    rw [File.length, if_neg (Nat.ne_of_gt hcount), Nat.mod_eq_of_lt hsize]
  have hpath := chopPath_ne_nil hseg
  refine ⟨by rw [← hlength]; exact hok.content_eq, by rw [File.length_content, hlength], ?_, ?_⟩
  · intro data off max
    exact (runs_readFile_window hvol hf hp hlen hpath hread data off max).imp fun res m' h => h.2
  · intro data sizes hpos
    refine (runs_readWindows hvol hf hp hlen hpath hread sizes hpos data 0).imp ?_
    rintro res m' ⟨_, rfl⟩
    refine ⟨rfl, fun hall => ?_⟩
    show Except.ok (f.content.take _) = _
    rw [List.take_of_length_le hall]

/-- It is about volumes there are: the windows of one byte each of a file of two bytes. -/
theorem reads_windows_b :
    Runs workingMachine.Generous
      (readWindows (honest workingMachine) (layFs [(pathB, [7, 8])]) pathB [1, 1] 0 none)
      (Machine.start (layDisk [(pathB, [7, 8])])) fun res _ => res = .ok [7, 8] := by
  have hvol : WellLaidOut (layFs [(pathB, [7, 8])]) (layDisk [(pathB, [7, 8])]) (layFiles [(pathB, [7, 8])]) :=
    wellLaidOut_layDisk (by simp) (by decide) (List.pairwise_singleton _ _)
  have hcontent : (created pathB [7, 8]).content = [7, 8] := content_created _ (by decide) (by decide)
  have hname : (created pathB [7, 8]).name = pathB.str := name_created (by rw [str_pathB]; decide) _
  refine ((reads_windows (m := Machine.start (layDisk [(pathB, [7, 8])])) (c := workingMachine) hvol
    (f := created pathB [7, 8]) (by simp [layFiles]) hname.symm (by rw [str_pathB]; decide)
    (by rw [str_pathB]; decide) (by decide) (fun _ => rfl)).2.2.2 none [1, 1] (by simp)).imp ?_
  rintro res m' ⟨_, hall⟩
  rw [hcontent] at hall
  exact hall (by decide)

/-! ## What does not come back -/

/-- Bytes that come back were copied into an array of their own. -/
theorem newOk_of_readFile {data d' : Option Dynarr} {off max : UInt64} {w : List UInt8} {m' : Machine}
    (hrun : (readFile (honest c) fs path data off max).run m = (.ok (.ok w, d'), m')) (hw : w ≠ []) :
    ∃ k, c.newOk k w.length = true := by
  unfold readFile at hrun
  split at hrun
  · cases hrun
  split at hrun
  · cases hrun
  obtain ⟨_, m₁, _, hrun⟩ := bind_eq_ok hrun
  obtain ⟨found, m₂, _, hrun⟩ := bind_eq_ok hrun
  cases found with
  | none => cases hrun
  | some header =>
      dsimp only at hrun
      split at hrun
      · cases hrun
        exact absurd rfl hw
      · generalize (if 0 < max ∧ max < header.totalSize - off then max else header.totalSize - off).toNat
          = n at hrun
        obtain ⟨target, m₃, hresize, hrun⟩ := bind_eq_ok hrun
        obtain ⟨_, m₄, _, hrun⟩ := bind_eq_ok hrun
        obtain ⟨r, m₅, _, hrun⟩ := bind_eq_ok hrun
        split at hrun
        · obtain ⟨_, m₆, hnew, hrun⟩ := bind_eq_ok hrun
          cases hrun
          have htarget := ((runs_resize (c := c) _ n m₂).returned hresize).2
          have hlen : (target.assign r.2).elems.length = n := by
            show (r.2.take target.elems.length ++ target.elems.drop r.2.length).length = n
            rw [htarget, List.length_append, List.length_take, List.length_drop, Dynarr.length_resized]
            omega
          rw [hlen]
          refine ⟨m₅.news, ?_⟩
          by_contra hno
          simp only [honest, hno, if_false] at hnew
          cases hnew
        · cases hrun

/-- The volume with one file under a path. -/
theorem wellLaidOut_single (path : Path) {x : List UInt8} (hx : 0 < x.length)
    (hfit : 2 + blocksFor 4096 x.length ≤ 204800) :
    WellLaidOut (layFs [(path, x)]) (layDisk [(path, x)]) [created path x] := by
  refine wellLaidOut_layDisk (by simpa using hx) ?_ (List.pairwise_singleton _ _)
  show 1 + spanAll [created path x] ≤ 204800
  rw [spanAll_cons, spanAll_nil, File.span, length_payload_created]
  omega

/-- A content larger than the kernel heap. -/
def largeContent : List UInt8 := List.replicate 0x1000001 7

/-- **Not every stored file comes back**: a path without a segment is refused, a path of 255 bytes is not
    found, and a file larger than the kernel heap halts the machine. -/
theorem not_all_windows :
    (WellLaidOut (layFs [(Path.ofBytes [slash], [7])]) (layDisk [(Path.ofBytes [slash], [7])])
        [created (Path.ofBytes [slash]) [7]]
      ∧ (created (Path.ofBytes [slash]) [7]).name = (Path.ofBytes [slash]).str
      ∧ Reads workingMachine (layFs [(Path.ofBytes [slash], [7])])
          (Machine.start (layDisk [(Path.ofBytes [slash], [7])])) (Path.ofBytes [slash]) (.error .invalidPath))
    ∧ (WellLaidOut (layFs [(longPath, [7])]) (layDisk [(longPath, [7])]) [created longPath [7]]
      ∧ (created longPath [7]).name = longPath.str
      ∧ Reads workingMachine (layFs [(longPath, [7])]) (Machine.start (layDisk [(longPath, [7])])) longPath
          (.error .fileNotFound))
    ∧ WellLaidOut (layFs [(pathA, largeContent)]) (layDisk [(pathA, largeContent)])
        [created pathA largeContent]
      ∧ (created pathA largeContent).name = pathA.str
      ∧ ((readFile (honest workingMachine) (layFs [(pathA, largeContent)]) pathA none 0 0).run
          (Machine.start (layDisk [(pathA, largeContent)]))).1 = .error .hang := by
  have hslash : (Path.ofBytes [slash]).str = [slash] := str_ofBytes (by decide) (by decide)
  refine ⟨?_, ?_, ?_⟩
  · have hvol := wellLaidOut_single (Path.ofBytes [slash]) (show 0 < [(7 : UInt8)].length by decide) (by decide)
    refine ⟨hvol, name_created (by rw [hslash]; decide) _, ?_⟩
    have hread : Reads workingMachine _ (Machine.start (layDisk [(Path.ofBytes [slash], [7])])) _ _ :=
      reads_volume hvol.toVolume (fun _ => rfl) (Path.ofBytes [slash])
    rwa [readResult, if_pos ((chopPath_eq_nil _).mpr (by rw [hslash]; simp))] at hread
  · have hvol := wellLaidOut_single longPath (show 0 < [(7 : UInt8)].length by decide) (by decide)
    refine ⟨hvol, ?_, ?_⟩
    · rw [name_created_eq_take, List.take_of_length_le]
      exact Nat.le_of_eq (by rw [str_longPath, List.length_replicate])
    · have hread : Reads workingMachine _ (Machine.start (layDisk [(longPath, [7])])) _ _ :=
        reads_volume hvol.toVolume (fun _ => rfl) longPath
      rwa [readResult_absent] at hread
      · exact chopPath_ne_nil ⟨0x61, by rw [str_longPath]; exact List.mem_replicate.mpr ⟨by decide, rfl⟩, by decide⟩
      · intro g _ hg
        have hlen := hg.2
        rw [str_longPath, List.length_replicate] at hlen
        omega
  · have hlen : largeContent.length = 0x1000001 := List.length_replicate
    have hvol := wellLaidOut_single pathA (x := largeContent) (by rw [hlen]; decide) (by rw [hlen]; decide)
    have hname : (created pathA largeContent).name = pathA.str := name_created (by rw [str_pathA]; decide) _
    have hcontent : (created pathA largeContent).content = largeContent :=
      content_created pathA (by rw [hlen]; decide) (by rw [hlen]; decide)
    refine ⟨hvol, hname, ?_⟩
    have hreads : Reads workingMachine _ (Machine.start (layDisk [(pathA, largeContent)])) _ _ :=
      reads_volume hvol.toVolume (fun _ => rfl) pathA
    have hnone : ∀ g ∈ ([] : List File), ¬ g.Named pathA := by simp
    have hresult : readResult ([] ++ [created pathA largeContent]) pathA
        = .ok (created pathA largeContent).content :=
      readResult_append_self (chopPath_ne_nil (by rw [str_pathA]; decide)) hnone
        (named_created (by rw [str_pathA]; decide) _)
    rw [List.nil_append, hcontent] at hresult
    rcases hrun : (readFile (honest workingMachine) (layFs [(pathA, largeContent)]) pathA none 0 0).run
        (Machine.start (layDisk [(pathA, largeContent)])) with ⟨r, m'⟩
    cases r with
    | ok res =>
        -- what came back would be the content, which no array holds
        obtain ⟨res, d'⟩ := res
        obtain rfl : res = .ok largeContent := (hreads.returned hrun).trans hresult
        have hne : largeContent ≠ [] := by
          rw [← List.length_pos_iff, hlen]
          decide
        obtain ⟨k, hk⟩ := newOk_of_readFile hrun hne
        rw [hlen] at hk
        have hfits : Heap.requestSize (UInt64.ofNat 0x1000001) ≤ Heap.heapSize - Heap.headerSize :=
          of_decide_eq_true hk
        exact absurd hfits (by decide)
    | error e =>
        cases e with
        | hang => rfl
        | wild => exact absurd hrun hreads.not_wild

end AlopexOS
