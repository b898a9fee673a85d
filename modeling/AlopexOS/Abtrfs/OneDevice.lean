import AlopexOS.Lib.Zoom
import AlopexOS.Abtrfs.Device

/-!
# `Abtrfs.OneDevice` — one device of several

A computer has devices, and each file system object works on one of them. On a computer that hands every
request to the device it names, a call is the call on a machine with that device alone, and the other
devices stay as they are.

## Contents
- **`Sees`**: a platform on which a handle reaches a platform of its own.
- **Every function** of the file system seen on that device.
- **A platform as a part** of something larger.
- **A computer** whose devices are honest.
-/

namespace AlopexOS

open Packed Prog

variable {σ τ : Type} {Q : Platform τ} {P : Platform σ} {L : Component τ σ} {handle : Handle} {fs : AbtrFS}
  {path : Path}

/-- On `Q` the requests with the handle `handle` are the requests of `P` on the part `L`. -/
structure Sees (Q : Platform τ) (P : Platform σ) (L : Component τ σ) (handle : Handle) : Prop where
  operatorNew : ∀ n, Q.operatorNew n = zoom L (P.operatorNew n)
  submitRead : ∀ b, Q.submitRead handle b = zoom L (P.submitRead handle b)
  submitWrite : ∀ b x, Q.submitWrite handle b x = zoom L (P.submitWrite handle b x)
  walkBound : Q.walkBound = P.walkBound

/-! ## Every function -/

namespace Sees

variable (hq : Sees Q P L handle) (hfs : fs.deviceHandle = handle)

include hq hfs

theorem readBlock (b : UInt64) (buffer : Block) :
    readBlock Q fs b buffer = zoom L (readBlock P fs b buffer) := by
  simp only [AlopexOS.readBlock, hfs, hq.submitRead, zoom_ite, zoom_pure]

theorem writeBlock (b : UInt64) (x : Block) : writeBlock Q fs b x = zoom L (writeBlock P fs b x) := by
  simp only [AlopexOS.writeBlock, hfs, hq.submitWrite, zoom_ite, zoom_pure]

theorem walk (used : UInt64) (n : Nat) (curr : UInt64) (buffer : Block) :
    walk Q fs path used n curr buffer = zoom L (walk P fs path used n curr buffer) := by
  induction n generalizing curr buffer with
  | zero => simp only [AlopexOS.walk, zoom_fail]
  | succ n ih =>
      simp only [AlopexOS.walk, hq.readBlock hfs, ih, zoom_ite, zoom_bind, zoom_pure]

theorem findFileHeader : findFileHeader Q fs path = zoom L (findFileHeader P fs path) := by
  simp only [AlopexOS.findFileHeader, hq.operatorNew, hq.walk hfs, hq.walkBound, zoom_bind]

theorem exists' : exists' Q fs path = zoom L (exists' P fs path) := by
  simp only [AlopexOS.exists', zoom_ite, zoom_pure, zoom_bind, hq.operatorNew, hq.findFileHeader hfs]

theorem readBlocks (po count : UInt64) (n : Nat) (b : UInt64) (shift remaining : Nat) (buffer : Block) :
    readBlocks Q fs po count n b shift remaining buffer
      = zoom L (readBlocks P fs po count n b shift remaining buffer) := by
  induction n generalizing b shift remaining buffer with
  | zero => simp only [AlopexOS.readBlocks, zoom_pure]
  | succ n ih =>
      simp only [AlopexOS.readBlocks, hq.readBlock hfs, ih, zoom_ite, zoom_bind, zoom_pure]

omit hfs in
theorem resize (d : Dynarr) (n : Nat) : d.resize Q n = zoom L (d.resize P n) := by
  unfold Dynarr.resize
  split
  · simp only [hq.operatorNew, zoom_bind, zoom_pure]
  · rw [zoom_pure]

theorem readFile (data : Option Dynarr) (off max : UInt64) :
    readFile Q fs path data off max = zoom L (readFile P fs path data off max) := by
  simp only [AlopexOS.readFile, zoom_ite, zoom_pure, zoom_bind, hq.operatorNew, hq.findFileHeader hfs]
  congr 2
  refine bind_congr fun _ => bind_congr fun found => ?_
  cases found with
  | none => simp only [zoom_pure]
  | some header =>
      simp only [zoom_ite, zoom_pure, zoom_bind, hq.resize, hq.readBlocks hfs]

omit hfs in
theorem descend (segment : List UInt8) (isLast : Bool) {next : TreeNode → Prog τ TreeNode}
    {next₀ : TreeNode → Prog σ TreeNode} (hnext : ∀ t, next t = zoom L (next₀ t)) (t : TreeNode) :
    descend Q segment isLast next t = zoom L (descend P segment isLast next₀ t) := by
  induction t with
  | null => simp only [AlopexOS.descend, hq.operatorNew, hnext, zoom_ite, zoom_bind, zoom_pure]
  | node name isDirectory left right ihl ihr =>
      simp only [AlopexOS.descend, hnext, ihl, ihr, zoom_ite, zoom_bind, zoom_pure]

omit hfs in
theorem findOrCreateNode (segments : List (List UInt8)) (t : TreeNode) :
    findOrCreateNode Q segments t = zoom L (findOrCreateNode P segments t) := by
  induction segments generalizing t with
  | nil => simp only [AlopexOS.findOrCreateNode, zoom_pure]
  | cons segment segments ih => exact hq.descend _ _ ih t

theorem writeAll (ws : List (UInt64 × Block)) : writeAll Q fs ws = zoom L (writeAll P fs ws) := by
  induction ws with
  | nil => simp only [AlopexOS.writeAll, zoom_pure]
  | cons w ws ih =>
      simp only [AlopexOS.writeAll, hq.writeBlock hfs, ih, zoom_ite, zoom_bind, zoom_pure]

theorem oldContent (found : Option AbtrFSDiskHeader) :
    oldContent Q fs path found = zoom L (oldContent P fs path found) := by
  cases found with
  | none => simp only [AlopexOS.oldContent, zoom_pure]
  | some header =>
      simp only [AlopexOS.oldContent, hq.readFile hfs, zoom_bind]
      refine bind_congr fun r => ?_
      cases r.1 <;> simp only [zoom_pure]

theorem writeFound (data : List UInt8) (off : UInt64) (found : Option AbtrFSDiskHeader) :
    writeFound Q fs path data off found = zoom L (writeFound P fs path data off found) := by
  simp only [AlopexOS.writeFound, zoom_ite, zoom_pure, zoom_bind, hq.operatorNew, hq.oldContent hfs]
  congr 1
  refine bind_congr fun _ => bind_congr fun old => ?_
  split
  · simp only [zoom_fail]
  · split
    · simp only [zoom_pure]
    · rename_i h _
      have hwrite : ∀ ws, AlopexOS.writeAll Q { fs with partitionHeader := h } ws = _ := hq.writeAll hfs
      simp only [hwrite, zoom_bind, zoom_ite, zoom_pure]

theorem writeFile (data : List UInt8) (off : UInt64) :
    writeFile Q fs path data off = zoom L (writeFile P fs path data off) := by
  simp only [AlopexOS.writeFile, hq.findOrCreateNode, zoom_ite, zoom_pure, zoom_bind]
  congr 2
  refine bind_congr fun root => ?_
  have hroot : ({ fs with rootNode := root } : AbtrFS).deviceHandle = handle := hfs
  rw [hq.findFileHeader hroot]
  exact bind_congr fun found => hq.writeFound hroot data off found

omit hfs in
theorem mountExisting (base hhdm : UInt64) :
    mountExisting Q fs base hhdm handle = zoom L (mountExisting P fs base hhdm handle) := by
  have hread : ∀ b x, AlopexOS.readBlock Q (attach fs base hhdm handle) b x = _ := hq.readBlock rfl
  simp only [AlopexOS.mountExisting, hread, zoom_ite, zoom_pure, zoom_bind]

omit hfs in
theorem mount (base hhdm : UInt64) :
    mount Q fs base hhdm handle = zoom L (mount P fs base hhdm handle) := by
  have hread : ∀ b x, AlopexOS.readBlock Q (attach fs base hhdm handle) b x = _ := hq.readBlock rfl
  simp only [AlopexOS.mount, hread, zoom_ite, zoom_pure, zoom_bind]

omit hfs in
theorem format (base hhdm : UInt64) :
    format Q fs base hhdm handle = zoom L (format P fs base hhdm handle) := by
  have hwrite : ∀ b x, AlopexOS.writeBlock Q { attach fs base hhdm handle with partitionHeader := formatHeader } b x
      = _ := hq.writeBlock rfl
  simp only [AlopexOS.format, hwrite, zoom_ite, zoom_pure, zoom_bind]

end Sees

/-! ## A platform as a part -/

/-- A platform as a part of something larger. -/
def Platform.on (P : Platform σ) (L : Component τ σ) : Platform τ where
  operatorNew n := zoom L (P.operatorNew n)
  submitRead handle b := zoom L (P.submitRead handle b)
  submitWrite handle b x := zoom L (P.submitWrite handle b x)
  walkBound := P.walkBound

/-- It is the same on every device. -/
theorem Platform.sees_on (P : Platform σ) (L : Component τ σ) (handle : Handle) : Sees (P.on L) P L handle :=
  ⟨fun _ => rfl, fun _ => rfl, fun _ _ => rfl, rfl⟩

/-- What it reaches, the larger one reaches. -/
theorem Sees.on {ρ : Type} {P' : Platform ρ} {M : Component σ ρ} (h : Sees P P' M handle) (L : Component τ σ) :
    Sees (P.on L) P' (L.comp M) handle where
  operatorNew n := by
    rw [zoom_comp, ← h.operatorNew]
    rfl
  submitRead b := by
    rw [zoom_comp, ← h.submitRead]
    rfl
  submitWrite b x := by
    rw [zoom_comp, ← h.submitWrite]
    rfl
  walkBound := h.walkBound

/-! ## A computer -/

/-- One device with what was asked of it so far. -/
structure DeviceState where
  disk : Nat → Block
  reads : Nat
  writes : Nat
  log : List (Nat × Block)

structure Computer where
  news : Nat
  device : Handle → DeviceState

/-- How a computer answers its requests. -/
structure Board where
  newOk : Nat → Nat → Bool
  readOk : Handle → Nat → Bool
  writeOk : Handle → Nat → Bool
  residue : Handle → Nat → Block
  walkBound : Nat

/-- The answers that concern one device. -/
def Board.conditions (B : Board) (handle : Handle) : Conditions where
  newOk := B.newOk
  readOk := B.readOk handle
  writeOk := B.writeOk handle
  residue := B.residue handle
  walkBound := B.walkBound

/-- The computer as a machine with one device. -/
def Computer.machine (handle : Handle) : Component Computer Machine where
  get s := ⟨(s.device handle).disk, s.news, (s.device handle).reads, (s.device handle).writes,
    (s.device handle).log⟩
  set s m := {
    news := m.news
    device := fun h => if h = handle then ⟨m.disk, m.reads, m.writes, m.log⟩ else s.device h }
  get_set s m := by simp
  set_get s := by
    congr 1
    funext h
    split
    · subst_vars
      rfl
    · rfl
  set_set s m m' := by
    congr 1
    funext h
    dsimp only
    split <;> rfl

/-- The platform of a computer whose devices are honest. -/
def Board.platform (B : Board) : Platform Computer where
  operatorNew n := ⟨fun s =>
    if B.newOk s.news n = true then (.ok (), { s with news := s.news + 1 }) else (.error .hang, s)⟩
  submitRead handle b := zoom (Computer.machine handle) ((honest (B.conditions handle)).submitRead handle b)
  submitWrite handle b x :=
    zoom (Computer.machine handle) ((honest (B.conditions handle)).submitWrite handle b x)
  walkBound := B.walkBound

/-- **Each device is an honest machine.** -/
theorem Board.sees (B : Board) (handle : Handle) :
    Sees B.platform (honest (B.conditions handle)) (Computer.machine handle) handle := by
  refine ⟨fun n => ext fun s => ?_, fun b => rfl, fun b x => rfl, rfl⟩
  simp only [Board.platform, run_zoom, honest, Board.conditions]
  by_cases hok : B.newOk s.news n = true
  · have hnews : ((Computer.machine handle).get s).news = s.news := rfl
    simp only [hnews, hok, if_true]
    congr 1
    show _ = Computer.mk _ _
    congr 1
    funext h
    split
    · subst_vars
      rfl
    · rfl
  · have hnews : ((Computer.machine handle).get s).news = s.news := rfl
    simp only [hnews, hok, if_false, Bool.false_eq_true]
    rw [(Computer.machine handle).set_get]

end AlopexOS
