import AlopexOS.Avfs.RoundTrip
import AlopexOS.Arr.Dynarr

/-!
# `SystemX.Read` — `SYS_READ` (`src/SystemX/AlopexOS/SystemX.cpp`)

`SystemX_ABI::read` takes the caller's buffer for an array: a view of it, with capacity 0. The first byte
that is read makes the array grow. So it gets storage of its own, and the buffer, which was never the
array's, is deleted.

## Contents
- **The call.** `Arr.Dynarr.target`, `SystemX.read`.
- **What it does to memory**: a view that is only emptied, and one that grows.
- **Delivery.**
-/

namespace AlopexOS

open Prog Packed Arr

variable {σ : Type}

/-! ## The call -/

/-- An array over memory, as `read_file` uses it. -/
def Arr.Dynarr.target (new : Nat → Prog σ Unit) : Target (σ × Memory UInt8) Arr.Dynarr where
  assignEmpty d := do
    let d ← d.clear
    d.resize byteType new 0
  resize d n := d.resize byteType new n
  assign d xs := d.assign xs
  copy d := if d.size = 0 then pure [] else do
    zoom .fst (new d.size.toNat)
    d.elems byteType

/-- `SystemX_ABI::read` with the `dataSize` bytes that the caller gave: what is in `rcx` afterwards. -/
def SystemX.read (P : Platform σ) (avfs : AVFS) (path : Path) (dataSize : UInt64) :
    Prog (σ × Memory UInt8) ErrorCode := do
  let dataView := Arr.Dynarr.view dataSize
  let r ← avfs.read (P.on .fst) (Arr.Dynarr.target P.operatorNew) path dataView dataSize
  r.2.destruct
  pure r.1

/-- Memory in which the caller has the buffer `buf`, before a call. -/
def withBuffer (blocks : List (List (Slot UInt8))) (buf : List UInt8) : Memory UInt8 :=
  ⟨blocks, buf.map fun x => ⟨some x, true⟩, []⟩

/-! ## What it does to memory -/

namespace Arr.Memory

variable {T : Type} {m m' : Memory T} {i : Nat}

/-- The caller's buffer has the bytes it had, and nothing was deleted or written behind its end. -/
def Spares (m m' : Memory T) : Prop :=
  m'.external.map Slot.value = m.external.map Slot.value
    ∧ ∀ x ∈ m'.notes, x ∈ m.notes ∨ ∃ p i, x = .missing p i

theorem Spares.refl (m : Memory T) : Spares m m := ⟨rfl, fun _ h => Or.inl h⟩

theorem Spares.trans {m₁ m₂ m₃ : Memory T} (h : Spares m₁ m₂) (h' : Spares m₂ m₃) : Spares m₁ m₃ := by
  refine ⟨h'.1.trans h.1, fun x hx => ?_⟩
  rcases h'.2 x hx with hx | hx
  · exact h.2 x hx
  · exact Or.inr hx

/-- Destroying an element leaves its bytes. -/
theorem spares_destroy : m.Spares (m.destroy .external i) := by
  unfold destroy
  split
  · rename_i value hi
    have hi : m.external[i]? = some ⟨value, true⟩ := hi
    obtain ⟨hlt, hget⟩ := List.getElem?_eq_some_iff.mp hi
    have hlt' : i < (m.slots .external).length := hlt
    unfold put
    rw [if_pos hlt']
    refine ⟨?_, fun _ h => Or.inl h⟩
    show (m.external.set i ⟨value, false⟩).map Slot.value = _
    rw [List.map_set]
    apply List.ext_getElem
    · simp
    · intro j hj hj'
      rw [List.getElem_set]
      split
      · subst_vars
        rw [List.getElem_map, hget]
      · rfl
  · refine ⟨rfl, fun x hx => ?_⟩
    rcases List.mem_append.mp hx with hx | hx
    · exact Or.inl hx
    · exact Or.inr ⟨_, _, List.mem_singleton.mp hx⟩

theorem spares_destroyed (is : List Nat) (m : Memory T) :
    m.Spares (is.foldl (fun m i => m.destroy .external i) m) := by
  induction is generalizing m with
  | nil => exact Spares.refl m
  | cons i is ih => exact spares_destroy.trans (ih _)

end Arr.Memory

variable {P : Platform σ} {fs : AbtrFS} {path : Path} {n max : UInt64} {t t' : σ × Memory UInt8}
  {bytes : List UInt8} {d : Arr.Dynarr}

/-- The array as a view of nothing. -/
theorem run_assignEmpty_view (new : Nat → Prog σ Unit) :
    ((Arr.Dynarr.target new).assignEmpty (Arr.Dynarr.view n)).run t
      = (.ok ⟨.external, 0, 0⟩, (t.1, t.2.each (fun m i => m.destroy .external i) 0 n.toNat)) := rfl

/-- What `read_file` does after it has made the array larger. -/
theorem moves_filled (po count start : UInt64) (k shift remaining : Nat) (d : Arr.Dynarr) :
    Moves Kept (do
      (P.on .fst).operatorNew 4096
      let r ← readBlocks (P.on .fst) fs po count k start shift remaining Bytes.zero
      let data ← (Arr.Dynarr.target P.operatorNew).assign d r.2
      if r.1 = true then do
        let copied ← (Arr.Dynarr.target P.operatorNew).copy data
        pure (Except.ok copied, data)
      else pure (.error ErrorCode.ioError, data)) := by
  refine Moves.bind Kept.trans (moves_zoom_fst _) fun _ => ?_
  rw [(Platform.sees_on P .fst fs.deviceHandle).readBlocks rfl]
  refine Moves.bind Kept.trans (moves_zoom_fst _) fun r => ?_
  refine Moves.bind Kept.trans (Arr.Dynarr.moves_assign _) fun data => ?_
  refine Moves.ite (Moves.bind Kept.trans ?_ fun _ => Moves.pure Kept.refl _) (Moves.pure Kept.refl _)
  exact Moves.ite (Moves.pure Kept.refl _)
    (Moves.bind Kept.trans (moves_zoom_fst _) fun _ => Arr.Dynarr.moves_elems)

/-- **`read_file` into a view**: of an empty file nothing is read and the view is emptied; any other file
    makes it grow, and the storage it had is deleted. -/
theorem readFileInto_view
    (hrun : (readFileInto (P.on .fst) (Arr.Dynarr.target P.operatorNew) fs path (Arr.Dynarr.view n) 0 max).run t
      = (.ok (.ok bytes, d), t')) :
    ∃ s₀ s₁ header, (P.operatorNew 4096).run t.1 = (.ok (), s₀)
      ∧ (findFileHeader P fs path).run s₀ = (.ok (some header), s₁)
      ∧ (header.totalSize = 0 → d = ⟨.external, 0, 0⟩
        ∧ t'.2 = t.2.each (fun m i => m.destroy .external i) 0 n.toNat)
      ∧ (header.totalSize ≠ 0 → .deleted .external ∈ t'.2.notes) := by
  unfold readFileInto at hrun
  split at hrun
  · cases hrun
  · split at hrun
    · cases hrun
    · obtain ⟨_, t₀, hnew, hrest⟩ := bind_eq_ok hrun
      obtain ⟨hnew, ht₀⟩ := zoom_eq_ok hnew
      obtain ⟨found, t₁, hfind, hrest⟩ := bind_eq_ok hrest
      rw [(Platform.sees_on P .fst fs.deviceHandle).findFileHeader rfl] at hfind
      obtain ⟨hfind, ht₁⟩ := zoom_eq_ok hfind
      cases found with
      | none => cases hrest
      | some header =>
          refine ⟨_, _, header, hnew, hfind, ?_, ?_⟩
          · intro h0
            dsimp only at hrest
            rw [if_pos (UInt64.le_zero_iff.mpr h0)] at hrest
            obtain ⟨d', t₂, hempty, hrest⟩ := bind_eq_ok hrest
            rw [run_assignEmpty_view] at hempty
            obtain ⟨hd, rfl⟩ := Prod.mk.inj hempty
            obtain rfl := Except.ok.inj hd
            obtain ⟨hd, rfl⟩ := Prod.mk.inj hrest
            have hmem : t₁.2 = t.2 := by
              rw [ht₁, ht₀]
              rfl
            refine ⟨(Prod.mk.inj (Except.ok.inj hd)).2.symm, ?_⟩
            rw [← hmem]
          · intro hpos
            dsimp only at hrest
            have hlt : ¬ header.totalSize ≤ 0 := fun hle => hpos (UInt64.le_zero_iff.mp hle)
            rw [if_neg hlt] at hrest
            obtain ⟨d', t₂, hresize, hrest⟩ := bind_eq_ok hrest
            have hkept := (moves_filled _ _ _ _ _ _ d').returned hrest
            have hcap : (Arr.Dynarr.view n).capacity
                < (if 0 < max ∧ max < header.totalSize - 0 then max else header.totalSize - 0) :=
              UInt64.lt_iff_toNat_lt.mpr (bytesToRead_pos hlt)
            exact hkept.subset (Arr.Dynarr.deleted_of_resize (by simp [Arr.Dynarr.view]) hcap hresize)

/-! ## Delivery -/

/-- What the caller is promised of the buffer `buf`, when the file has the content `content`. -/
structure Delivered (content buf : List UInt8) (m : Memory UInt8) : Prop where
  bytes : m.external.map Slot.value = (content.take buf.length ++ buf.drop content.length).map some
  kept : Note.deleted .external ∉ m.notes
  inside : ∀ k i, Note.outside (.heap k) i ∉ m.notes

/-- The header a walk finds has the length of the file. -/
theorem totalSize_of_found {c : Conditions} {m m' : Machine} {pre : List File} {f : File}
    {header : AbtrFSDiskHeader} (hfront : Front fs m.disk (pre ++ [f]) path)
    (hfirst : ∀ g ∈ pre, ¬ g.Named path) (hnamed : f.Named path)
    (hrun : (findFileHeader (honest c) fs path).run m = (.ok (some header), m')) :
    header.totalSize.toNat = f.length := by
  obtain ⟨_, hends⟩ := (runs_findFileHeader (c := c) hfront).returned hrun
  obtain ⟨b, hlaid, _⟩ := hfront.laid
  generalize hres : some (some header, m'.reads) = res at hends
  cases hends with
  | absent _ _ => cases hres
  | failed _ _ _ _ _ _ _ => cases hres
  | found pre₂ post₂ f₂ hf₂ hpre₂ hm₂ _ =>
      obtain ⟨rfl, rfl, rfl⟩ := first_unique hf₂ hfirst hnamed hpre₂ hm₂
      obtain ⟨hheader, _⟩ := Prod.mk.inj (Option.some.inj hres)
      rw [Option.some.inj hheader]
      exact hlaid.file.1.totalSize_eq

variable {B : Board} {a : AVFS} {directory : Path} {handle : Handle} {s : Computer} {pre : List File}
  {f : File} {blocks : List (List (Slot UInt8))} {buf : List UInt8} {u : Computer × Memory UInt8}

/-- **When `SYS_READ` delivers.** A call that succeeds delivers the content of the file exactly when there
    is none. -/
theorem delivered_iff (hn : Names a path handle directory)
    (hfound : Found (s.device handle).disk directory pre f)
    (hrun : (SystemX.read B.platform a path (UInt64.ofNat buf.length)).run (s, withBuffer blocks buf)
      = (.ok .success, u)) : Delivered f.content buf u.2 ↔ f.content = [] := by
  unfold SystemX.read at hrun
  obtain ⟨⟨e, d⟩, t', hread, hrest⟩ := bind_eq_ok hrun
  obtain ⟨_, t'', hdestruct, hrest⟩ := bind_eq_ok hrest
  obtain ⟨he, rfl⟩ := Prod.mk.inj hrest
  obtain rfl : e = .success := Except.ok.inj he
  obtain ⟨base, bytes, hfile⟩ := read_inv ((B.sees handle).on .fst) hn hread
  obtain ⟨s₀, s₁, header, hnew, hfind, hempty, hgrown⟩ := readFileInto_view hfile
  -- the walk reads the disk as it was
  rw [(B.sees handle).operatorNew] at hnew
  obtain ⟨hnew, _⟩ := zoom_eq_ok hnew
  obtain ⟨hquiet, _⟩ := (runs_operatorNew 4096 _).returned hnew
  have hdisk : ((Computer.machine handle).get s₀).disk = (s.device handle).disk := by
    rw [hquiet.disk]
    show ((Computer.machine handle).get ((Computer.machine handle).set s _)).disk = _
    rw [Component.get_set]
    rfl
  rw [(B.sees handle).findFileHeader rfl] at hfind
  obtain ⟨hfind, _⟩ := zoom_eq_ok hfind
  have hfront := hfound.front AbtrFS.init base a.hhdm hn.handle_ne
  rw [← hdisk] at hfront
  have hsize : header.totalSize.toNat = f.content.length := by
    rw [File.length_content]
    have hstart : ((Component.fst.comp (Computer.machine handle)).get (s, withBuffer blocks buf)).disk
        = ((Computer.machine handle).get s₀).disk := hdisk.symm
    rw [hstart] at hfind
    exact totalSize_of_found hfront hfound.first hfound.named hfind
  constructor
  · intro hdelivered
    by_contra hne
    -- a file with content makes the view grow
    have hpos : header.totalSize ≠ 0 := by
      intro h0
      rw [h0] at hsize
      exact hne (List.length_eq_zero_iff.mp hsize.symm)
    exact hdelivered.kept ((Arr.Dynarr.moves_destruct.returned hdestruct).subset (hgrown hpos))
  · intro hnil
    rw [hnil] at hsize ⊢
    obtain ⟨rfl, hmem⟩ := hempty (UInt64.toNat_inj.mp hsize)
    -- the destructor of an empty view does nothing
    obtain rfl : t' = t'' := (Prod.mk.inj hdestruct).2
    have hspares : (withBuffer blocks buf).Spares t'.2 := by
      rw [hmem]
      exact Memory.spares_destroyed _ _
    have hnotes : ∀ x ∈ t'.2.notes, ∃ p i, x = Note.missing p i := by
      intro x hx
      rcases hspares.2 x hx with hx | hx
      · cases hx
      · exact hx
    refine ⟨?_, fun hx => ?_, fun k i hx => ?_⟩
    · rw [hspares.1, List.take_nil, List.nil_append, List.length_nil, List.drop_zero]
      simp [withBuffer]
    · obtain ⟨p, j, hx⟩ := hnotes _ hx
      cases hx
    · obtain ⟨p, j, hx⟩ := hnotes _ hx
      cases hx

/-- A computer whose device has the file "a" with the content `x`. -/
def computerWith (x : List UInt8) : Computer := ⟨0, fun _ => ⟨layDisk [(pathA, x)], 0, 0, []⟩⟩

/-- The file is read into a buffer. -/
def readA (x buf : List UInt8) : Except Fault ErrorCode × Computer × Memory UInt8 :=
  (SystemX.read (board fun _ => true).platform avfsD pathDA (UInt64.ofNat buf.length)).run
    (computerWith x, withBuffer [] buf)

theorem found_a {x : List UInt8} (hfit : 1 + spanAll (layFiles [(pathA, x)]) ≤ 204800)
    (hstr : directory.str = [0x61]) :
    Found ((computerWith x).device 0).disk directory [] (created pathA x) where
  magic := magic_usedHeader _
  laid := ⟨_, (volume_layDisk hfit).laid, Nat.le_refl _⟩
  first := by simp
  named := ⟨by rw [hstr, name_pathA], by rw [hstr]; decide⟩

/-- An empty file is delivered. -/
theorem delivered_empty : Delivered [] [0xEE] (readA [] [0xEE]).2.2 := by
  obtain ⟨directory, hn, hstr⟩ := names_pathDA
  have hok : (readA [] [0xEE]).1 = .ok .success := by decide +kernel
  have hcontent : (created pathA []).content = [] := by decide +kernel
  have h := delivered_iff hn (found_a (by decide) hstr) (Prod.ext hok rfl)
  rw [hcontent] at h
  exact h.mpr rfl

/-- **A file is read, and the caller's buffer is deleted.** Of two bytes of the caller's neither gets the
    content, and the block that does is too short for both. -/
theorem buffer_deleted :
    (∃ directory, Names avfsD pathDA 0 directory
      ∧ Found ((computerWith [1]).device 0).disk directory [] (created pathA [1]))
    ∧ (created pathA [1]).content = [1] ∧ (readA [1] [0xEE, 0xEE]).1 = .ok .success
    ∧ (readA [1] [0xEE, 0xEE]).2.2.external.map Slot.value = [some 0xEE, some 0xEE]
    ∧ Note.deleted .external ∈ (readA [1] [0xEE, 0xEE]).2.2.notes
    ∧ Note.outside (.heap 0) 1 ∈ (readA [1] [0xEE, 0xEE]).2.2.notes := by
  obtain ⟨directory, hn, hstr⟩ := names_pathDA
  refine ⟨⟨directory, hn, found_a (by decide) hstr⟩, content_oneByte, ?_, ?_, ?_, ?_⟩
  · decide +kernel
  · decide +kernel
  · decide +kernel
  · decide +kernel

end AlopexOS
