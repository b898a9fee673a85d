import AlopexOS.Kernel.Lines
import AlopexOS.Kernel.Rectangles
import AlopexOS.Lib.Painting

/-!
# `Kernel.Screens` — what the screens show after drawing on them (`src/kernel/display.cpp`)

`displays` has a `screen` for each framebuffer that the boot loader reports. A `screen` remembers nothing of what
it has drawn, but its framebuffer does: the points of all screens are a picture, and every call is a stroke on it.

## Contents
- **Calls** on one screen, and `displays`.
- **The points of the screens**, each with a word of its own.
- **A call is a stroke**: `Gives`, `Call.Covers` and `gives_of_stores`.
- **Runs**: `run_of_near` and `screens_show_strokes`.
-/

namespace AlopexOS.Display

open Painting

/-! ## Calls -/

/-- The calls of a `screen` that draw. -/
inductive Call where
  | setPixel (coord : Vector2D) (color : UInt32)
  | clear (color : UInt32)
  | drawLine (p0 p1 : Vector2D) (color : UInt32)
  | drawRect (pos size : Vector2D) (color : UInt32)
  | fillRect (pos size : Vector2D) (color : UInt32)

def Call.color : Call → UInt32
  | .setPixel _ color => color
  | .clear color => color
  | .drawLine _ _ color => color
  | .drawRect _ _ color => color
  | .fillRect _ _ color => color

/-- The stores of a call that returns; a line has `n` rounds of its loop for that. -/
def Call.stores (fb : Option Framebuffer) (n : Nat) : Call → Option (List Store)
  | .setPixel coord color => some (Display.setPixel fb coord color)
  | .clear color => some (Display.clear fb color)
  | .drawLine p0 p1 color =>
      match Display.drawLine n p0 p1 with
      | .returned calls => some ((LineRun.returned calls).stores fb color)
      | .overflowed => none
      | .running => none
  | .drawRect pos size color => some (Display.drawRect fb pos size color)
  | .fillRect pos size color => some (Display.fillRect fb pos size color)

/-- `_screen_buffer` as the constructor of `displays` leaves it, with the `_frameBuffer` of each `screen`. -/
structure Displays where
  screenBuffer : List (Option Framebuffer)

/-- `get_screen`. -/
def Displays.getScreen (d : Displays) (id : UInt8) : Option (Option Framebuffer) := d.screenBuffer[id.toNat]?

/-- A call on the screen with the number. -/
structure Draw where
  id : UInt8
  call : Call

/-- Memory after a call. There is none on a screen that `get_screen` does not find. -/
def Displays.draw (d : Displays) (n : Nat) (m : Words) (c : Draw) : Option Words :=
  (d.getScreen c.id).bind fun fb => (c.call.stores fb n).map (after m)

/-! ## The points of the screens -/

/-- A point of one of the screens. -/
abbrev Spot := UInt8 × Vector2D

/-- A point that is to be seen. -/
def Displays.Shown (d : Displays) (q : Spot) : Prop :=
  ∃ fb, d.getScreen q.1 = some (some fb) ∧ fb.address ≠ 0 ∧ fb.OnScreen q.2

/-- The word of a point. -/
def Displays.cell (d : Displays) (q : Spot) : UInt64 :=
  match d.getScreen q.1 with
  | some (some fb) => fb.pixel q.2
  | _ => 0

/-- What follows the last row. -/
def Framebuffer.behind (fb : Framebuffer) : Nat := fb.address.toNat + fb.height.toNat * fb.pitch.toNat

/-- Width and height fit in the `u32` of the drawing calls. -/
def Framebuffer.Sides (fb : Framebuffer) : Prop := fb.width.toNat < 2 ^ 32 ∧ fb.height.toNat < 2 ^ 32

/-- Framebuffers as the boot loader reports them, each in its own part of memory. -/
structure Displays.Apart (d : Displays) : Prop where
  inMemory : ∀ {i fb}, d.getScreen i = some (some fb) → fb.InMemory
  sides : ∀ {i fb}, d.getScreen i = some (some fb) → fb.Sides
  apart : ∀ {i j fb fb'}, d.getScreen i = some (some fb) → d.getScreen j = some (some fb') → i ≠ j →
    fb.behind ≤ fb'.address.toNat ∨ fb'.behind ≤ fb.address.toNat

variable {fb : Framebuffer} {p q pos size : Vector2D} {color : UInt32} {s : Store} {stores : List Store}
  {m m' : Words} {d : Displays} {n : Nat}

theorem Displays.cell_of_getScreen {i : UInt8} (h : d.getScreen i = some (some fb)) (p : Vector2D) :
    d.cell (i, p) = fb.pixel p := by
  simp only [Displays.cell, h]

/-- The rows are one behind the other, so the word of a point is where it should be. -/
theorem toNat_pixel_of_inMemory (hmem : fb.InMemory) (hp : fb.OnScreen p) :
    (fb.pixel p).toNat = fb.address.toNat + 4 * (p.y.toNat * (fb.pitch.toNat / 4) + p.x.toNat)
      ∧ p.x.toNat < fb.pitch.toNat / 4 ∧ (fb.pixel p).toNat < fb.behind := by
  obtain ⟨hpitch, hroom⟩ := hmem
  rw [onScreen_iff] at hp
  have hx : p.x.toNat < fb.pitch.toNat / 4 := by omega
  have hrow : (p.y.toNat + 1) * (fb.pitch.toNat / 4) ≤ fb.height.toNat * (fb.pitch.toNat / 4) :=
    Nat.mul_le_mul_right _ hp.2
  have hwords : 4 * (fb.height.toNat * (fb.pitch.toNat / 4)) ≤ fb.height.toNat * fb.pitch.toNat := by
    rw [Nat.mul_left_comm]
    exact Nat.mul_le_mul_left _ (Nat.mul_div_le _ _)
  rw [Nat.succ_mul] at hrow
  unfold Framebuffer.behind
  rw [toNat_pixel]
  omega

/-- Two points of a screen have different words. -/
theorem pixel_inj (hmem : fb.InMemory) (hp : fb.OnScreen p) (hq : fb.OnScreen q) (h : fb.pixel p = fb.pixel q) :
    p = q := by
  obtain ⟨hpixel, hx, -⟩ := toNat_pixel_of_inMemory hmem hp
  obtain ⟨hpixel', hx', -⟩ := toNat_pixel_of_inMemory hmem hq
  rw [h, hpixel'] at hpixel
  have hindex : p.x.toNat + p.y.toNat * (fb.pitch.toNat / 4) = q.x.toNat + q.y.toNat * (fb.pitch.toNat / 4) := by
    omega
  have hrow := congrArg (· / (fb.pitch.toNat / 4)) hindex
  have hcolumn := congrArg (· % (fb.pitch.toNat / 4)) hindex
  simp only [Nat.add_mul_div_right _ _ (Nat.zero_lt_of_lt hx), Nat.div_eq_of_lt hx, Nat.div_eq_of_lt hx',
    Nat.zero_add] at hrow
  simp only [Nat.add_mul_mod_self_right, Nat.mod_eq_of_lt hx, Nat.mod_eq_of_lt hx'] at hcolumn
  exact Vector2D.ext (UInt32.toNat_inj.mp hcolumn) (UInt32.toNat_inj.mp hrow)

/-- **Each point that is shown has a word of its own.** -/
theorem Displays.Apart.cell_injOn (hd : d.Apart) : Set.InjOn d.cell {q | d.Shown q} := by
  rintro ⟨i, p⟩ ⟨fb, hfb, -, hp⟩ ⟨j, q⟩ ⟨fb', hfb', -, hq⟩ h
  dsimp only at hfb hfb' hp hq
  rw [cell_of_getScreen hfb, cell_of_getScreen hfb'] at h
  have hpixel := toNat_pixel_of_inMemory (hd.inMemory hfb) hp
  have hpixel' := toNat_pixel_of_inMemory (hd.inMemory hfb') hq
  by_cases hij : i = j
  · subst hij
    obtain rfl : fb = fb' := Option.some.inj (Option.some.inj (hfb.symm.trans hfb'))
    rw [pixel_inj (hd.inMemory hfb) hp hq h]
  · rw [h] at hpixel
    have hapart := hd.apart hfb hfb' hij
    omega

/-- The screens as a surface. -/
def Displays.surface (d : Displays) (hd : d.Apart) : Surface Spot UInt64 where
  shown := {q | d.Shown q}
  cell := d.cell
  apart := hd.cell_injOn

/-! ## A call is a stroke -/

/-- The stores give the points of the set that are on the screen the color. -/
def Gives (fb : Framebuffer) (points : Set Vector2D) (color : UInt32) (stores : List Store) : Prop :=
  ∀ s, s ∈ stores ↔ fb.address ≠ 0 ∧ ∃ p ∈ points, fb.OnScreen p ∧ s = ⟨fb.pixel p, color⟩

theorem gives_flatMap (fb : Framebuffer) (calls : List Vector2D) (color : UInt32) :
    Gives fb {p | p ∈ calls} color (calls.flatMap fun p => setPixel (some fb) p color) := by
  intro s
  rw [List.mem_flatMap]
  simp only [mem_setPixel, Set.mem_ofPred_eq]
  constructor
  · rintro ⟨p, hp, hscreen, hnull, hs⟩
    exact ⟨hnull, p, hp, hscreen, hs⟩
  · rintro ⟨hnull, p, hp, hscreen, hs⟩
    exact ⟨p, hp, hscreen, hnull, hs⟩

theorem gives_setPixel (fb : Framebuffer) (p : Vector2D) (color : UInt32) :
    Gives fb {p} color (setPixel (some fb) p color) := by
  intro s
  rw [mem_setPixel]
  constructor
  · rintro ⟨hscreen, hnull, hs⟩
    exact ⟨hnull, p, rfl, hscreen, hs⟩
  · rintro ⟨hnull, _, rfl, hscreen, hs⟩
    exact ⟨hscreen, hnull, hs⟩

theorem toUInt64_of_lt {v : UInt64} (h : v.toNat < 2 ^ 32) : v.toUInt32.toUInt64 = v := by
  apply UInt64.toNat_inj.mp
  rw [UInt32.toNat_toUInt64, toNat_toUInt32 h]

/-- **`clear` reaches every point**, and nothing behind the rows. -/
theorem gives_clear (hsides : fb.Sides) (color : UInt32) :
    Gives fb Set.univ color (clear (some fb) color) := by
  intro s
  rw [clear]
  by_cases hnull : fb.address = 0
  · simp [hnull]
  · rw [if_neg hnull]
    simp only [mem_upFrom64, List.mem_singleton, ← word_add]
    constructor
    · rintro ⟨y, -, hy, x, -, hx, rfl⟩
      have hx32 : x.toNat < 2 ^ 32 := Nat.lt_trans hx hsides.1
      have hy32 : y.toNat < 2 ^ 32 := Nat.lt_trans hy hsides.2
      refine ⟨hnull, ⟨x.toUInt32, y.toUInt32⟩, Set.mem_univ _, ⟨?_, ?_⟩, ?_⟩
      · show x.toUInt32.toUInt64 < fb.width
        rwa [toUInt64_of_lt hx32]
      · show y.toUInt32.toUInt64 < fb.height
        rwa [toUInt64_of_lt hy32]
      · rw [Framebuffer.pixel, toUInt64_of_lt hx32, toUInt64_of_lt hy32]
    · rintro ⟨-, p, -, ⟨hx, hy⟩, rfl⟩
      exact ⟨p.y.toUInt64, UInt64.zero_le, hy, p.x.toUInt64, UInt64.zero_le, hx, rfl⟩

theorem gives_fillRect (hsides : fb.Sides) (hfits : FarCornerFits fb pos size) (color : UInt32) :
    Gives fb {p | InRect pos size p} color (fillRect (some fb) pos size color) := by
  intro s
  rw [mem_fillRect_iff_pixelwise hsides.1 hsides.2 hfits]
  exact mem_pixelwise

/-- The border of what the screen leaves of a rectangle. -/
def outline (fb : Framebuffer) (pos size : Vector2D) : Set Vector2D :=
  {p | InRect pos size p ∧ fb.OnScreen p
    ∧ (p.x = pos.x ∨ p.x.toNat + 1 = min (pos.x.toNat + size.x.toNat) fb.width.toNat
      ∨ p.y = pos.y ∨ p.y.toNat + 1 = min (pos.y.toNat + size.y.toNat) fb.height.toNat)}

/-- The rectangle has points, and its far corner does not wrap around. -/
def Proper (pos size : Vector2D) : Prop :=
  (0 < size.x.toNat ∧ pos.x.toNat + size.x.toNat < 2 ^ 32) ∧ 0 < size.y.toNat ∧ pos.y.toNat + size.y.toNat < 2 ^ 32

/-- The far row or column of a rectangle that starts on the screen. -/
theorem last_of_proper {start size limit : UInt32} (hsize : 0 < size.toNat)
    (hwraps : start.toNat + size.toNat < 2 ^ 32) (h : start.toNat < limit.toNat) :
    edge start size limit = min (start.toNat + size.toNat) limit.toNat
      ∧ last (edge start size limit) + 1 = edge start size limit := by
  have hedge := edge_cases size h
  have hlast := last_cases (edge_lt start size limit)
  omega

/-- **What `draw_rect` calls for** is the border of the part of the rectangle that is on the screen. -/
theorem rectCalls_eq_outline (hsides : fb.Sides) (hproper : Proper pos size) :
    {p | p ∈ rectCalls fb pos size} = outline fb pos size := by
  obtain ⟨⟨hsx, hwx⟩, hsy, hwy⟩ := hproper
  ext p
  rw [Set.mem_ofPred_eq, mem_rectCalls, outline, Set.mem_ofPred_eq, onScreen_iff, InRect, ← UInt32.toNat_inj,
    ← UInt32.toNat_inj]
  by_cases hstart : pos.x.toNat < fb.width.toUInt32.toNat ∧ pos.y.toNat < fb.height.toUInt32.toNat
  · obtain ⟨hedgex, hlastx⟩ := last_of_proper hsx hwx hstart.1
    obtain ⟨hedgey, hlasty⟩ := last_of_proper hsy hwy hstart.2
    rw [toNat_toUInt32 hsides.1] at hedgex hstart ⊢
    rw [toNat_toUInt32 hsides.2] at hedgey hstart ⊢
    omega
  · rw [toNat_toUInt32 hsides.1, toNat_toUInt32 hsides.2] at hstart ⊢
    omega

/-- The points that a call is about. What a line between far points or a rectangle that is not proper covers is
    not said. -/
def Call.Covers (fb : Framebuffer) (points : Set Vector2D) : Call → Prop
  | .setPixel coord _ => points = {coord}
  | .clear _ => points = Set.univ
  | .drawLine p0 p1 _ => Small p0 → Small p1 → ∃ calls, IsLine p0 p1 calls ∧ points = {p | p ∈ calls}
  | .drawRect pos size _ => Proper pos size → points = outline fb pos size
  | .fillRect pos size _ => points = {p | InRect pos size p}

/-- `fill_rect` keeps to its rectangle. -/
def Call.Fits (fb : Framebuffer) : Call → Prop
  | .fillRect pos size _ => FarCornerFits fb pos size
  | _ => True

/-- A loop that has returned returns the same with more rounds. -/
theorem loop_mono {l : Line} {p1 : Vector2D} {k : Nat} {st : LineState} {calls calls' : List Vector2D}
    (h : l.loop p1 n st calls = .returned calls') (hk : n ≤ k) : l.loop p1 k st calls = .returned calls' := by
  induction n generalizing k st calls with
  | zero => cases h
  | succ n ih =>
      obtain ⟨k, rfl⟩ : ∃ k', k = k' + 1 := ⟨k - 1, by omega⟩
      unfold Line.loop at h ⊢
      by_cases hend : st.x = toInt p1.x ∧ st.y = toInt p1.y
      · simp only [if_pos hend] at h ⊢
        exact h
      · simp only [if_neg hend] at h ⊢
        cases hstep : l.step st with
        | none => simp only [hstep, reduceCtorEq] at h
        | some st' =>
            simp only [hstep] at h
            exact ih h (Nat.le_of_succ_le_succ hk)

theorem drawLine_mono {p0 p1 : Vector2D} {k : Nat} {calls : List Vector2D} (h : drawLine n p0 p1 = .returned calls)
    (hk : n ≤ k) : drawLine k p0 p1 = .returned calls := by
  unfold drawLine at h ⊢
  cases hl : Line.of p0 p1 with
  | none => simp only [hl, reduceCtorEq] at h
  | some l =>
      cases herr : int (l.dx + l.dy) with
      | none => simp only [hl, herr, reduceCtorEq] at h
      | some err =>
          simp only [hl, herr] at h ⊢
          exact loop_mono h hk

/-- A line between near points is one, wherever the screen ends. -/
theorem drawLine_of_small {p0 p1 : Vector2D} (h0 : Small p0) (h1 : Small p1) :
    ∃ calls, IsLine p0 p1 calls ∧ ∀ n, 2 ^ 28 ≤ n → drawLine n p0 p1 = .returned calls := by
  obtain ⟨calls, hline, hloop⟩ := loop_of_walked h0 h1 (walked_start p0 p1) (Nat.zero_add _)
  refine ⟨calls, hline, fun n hn => ?_⟩
  have hX := way_lt h0.1 h1.1
  have hY := way_lt h0.2 h1.2
  have hinit : int ((line p0 p1).dx + (line p0 p1).dy)
      = some (DigitalLine.err (way p0.x p1.x) (way p0.y p1.y) 0 0) := by
    have herr : (line p0 p1).dx + (line p0 p1).dy = DigitalLine.err (way p0.x p1.x) (way p0.y p1.y) 0 0 := by
      simp [line, DigitalLine.err, Int.sub_eq_add_neg]
    rw [herr, DigitalLine.err_eq, DigitalLine.deviation]
    apply int_of
    omega
  rw [drawLine, line_of h0 h1]
  simp only [hinit, toInt_of_lt h0.1, toInt_of_lt h0.2]
  rw [← place_zero p0.x p1.x, ← place_zero p0.y p1.y]
  apply hloop
  omega

/-- **A call that returns gives its points its color**, and stores to no other word. -/
theorem gives_of_stores {c : Call} (hsides : fb.Sides) (hfits : c.Fits fb)
    (h : c.stores (some fb) n = some stores) : ∃ points, c.Covers fb points ∧ Gives fb points c.color stores := by
  cases c with
  | setPixel coord color =>
      obtain rfl := Option.some.inj h
      exact ⟨{coord}, rfl, gives_setPixel fb coord color⟩
  | clear color =>
      obtain rfl := Option.some.inj h
      exact ⟨Set.univ, rfl, gives_clear hsides color⟩
  | drawLine p0 p1 color =>
      unfold Call.stores at h
      cases hrun : drawLine n p0 p1 with
      | overflowed => simp only [hrun, reduceCtorEq] at h
      | running => simp only [hrun, reduceCtorEq] at h
      | returned calls =>
          simp only [hrun, Option.some.injEq] at h
          subst h
          refine ⟨{p | p ∈ calls}, fun h0 h1 => ?_, gives_flatMap fb calls color⟩
          obtain ⟨calls', hline, hreturns⟩ := drawLine_of_small h0 h1
          have hsame := hreturns (max n (2 ^ 28)) (Nat.le_max_right _ _)
          rw [drawLine_mono hrun (Nat.le_max_left _ _)] at hsame
          obtain rfl : calls = calls' := LineRun.returned.inj hsame
          exact ⟨calls, hline, rfl⟩
  | drawRect pos size color =>
      obtain rfl := Option.some.inj h
      exact ⟨{p | p ∈ rectCalls fb pos size}, rectCalls_eq_outline hsides,
        gives_flatMap fb (rectCalls fb pos size) color⟩
  | fillRect pos size color =>
      obtain rfl := Option.some.inj h
      exact ⟨{p | InRect pos size p}, rfl, gives_fillRect hsides hfits color⟩

/-! ## Runs -/

/-- A call that returns. -/
def Displays.Draws (d : Displays) (m : Words) (c : Draw) (m' : Words) : Prop := ∃ n, d.draw n m c = some m'

/-- The call fits the screen that it is for. -/
def Displays.Fits (d : Displays) (c : Draw) : Prop := ∀ fb, d.getScreen c.id = some (some fb) → c.call.Fits fb

/-- The stroke that a call is: its points on its screen, in its color. -/
def Displays.IsStroke (d : Displays) (c : Draw) (s : Stroke Spot UInt32) : Prop :=
  s.color = c.call.color ∧ ∃ points, s.points = {q | q.1 = c.id ∧ q.2 ∈ points}
    ∧ ∀ fb, d.getScreen c.id = some (some fb) → c.call.Covers fb points

theorem stores_none {c : Call} (h : c.stores none n = some stores) : stores = [] := by
  cases c with
  | setPixel coord color => exact (Option.some.inj h).symm
  | clear color => exact (Option.some.inj h).symm
  | drawRect pos size color => exact (Option.some.inj h).symm
  | fillRect pos size color => exact (Option.some.inj h).symm
  | drawLine p0 p1 color =>
      unfold Call.stores at h
      cases hrun : drawLine n p0 p1 with
      | overflowed => simp only [hrun, reduceCtorEq] at h
      | running => simp only [hrun, reduceCtorEq] at h
      | returned calls =>
          simp only [hrun, Option.some.injEq] at h
          rw [← h, LineRun.stores, List.flatMap_eq_nil_iff]
          intro p _
          rfl

/-- **A call is a stroke** on the picture of all screens. -/
theorem paints_of_draws {c : Draw} (hd : d.Apart) (hfits : d.Fits c) (h : d.Draws m c m') :
    ∃ s, d.IsStroke c s ∧ (d.surface hd).Paints m s m' := by
  obtain ⟨n, h⟩ := h
  obtain ⟨screen, hscreen, h⟩ := Option.bind_eq_some_iff.mp h
  obtain ⟨stores, hstores, rfl⟩ := Option.map_eq_some_iff.mp h
  cases screen with
  | none =>
      obtain rfl := stores_none hstores
      refine ⟨⟨∅, c.call.color⟩, ⟨rfl, ∅, ?_, fun fb hfb => ?_⟩, ?_, ?_⟩
      · ext q
        simp
      · rw [hscreen] at hfb
        cases hfb
      · intro q _ hq
        exact absurd hq (Set.notMem_empty q)
      · intro a _
        rfl
  | some fb =>
      obtain ⟨points, hcovers, hgives⟩ := gives_of_stores (hd.sides hscreen) (hfits fb hscreen) hstores
      have hvalue : ∀ s ∈ stores, s.value = c.call.color := by
        intro s hs
        obtain ⟨-, p, -, -, rfl⟩ := (hgives s).mp hs
        rfl
      have haddr : ∀ a, a ∈ stores.map Store.addr
          ↔ fb.address ≠ 0 ∧ ∃ p ∈ points, fb.OnScreen p ∧ fb.pixel p = a := by
        intro a
        rw [List.mem_map]
        constructor
        · rintro ⟨s, hs, rfl⟩
          obtain ⟨hnull, p, hp, hon, rfl⟩ := (hgives s).mp hs
          exact ⟨hnull, p, hp, hon, rfl⟩
        · rintro ⟨hnull, p, hp, hon, rfl⟩
          exact ⟨_, (hgives _).mpr ⟨hnull, p, hp, hon, rfl⟩, rfl⟩
      refine ⟨⟨{q | q.1 = c.id ∧ q.2 ∈ points}, c.call.color⟩, ⟨rfl, points, rfl, fun fb' hfb' => ?_⟩, ?_, ?_⟩
      · obtain rfl := Option.some.inj (Option.some.inj (hscreen.symm.trans hfb'))
        exact hcovers
      · rintro ⟨_, p⟩ ⟨fb', hfb', hnull, hon⟩ ⟨rfl, hp⟩
        obtain rfl := Option.some.inj (Option.some.inj (hscreen.symm.trans hfb'))
        show after m stores (d.cell (c.id, p)) = _
        rw [after_of_color hvalue, d.cell_of_getScreen hscreen, if_pos]
        exact (haddr _).mpr ⟨hnull, p, hp, hon, rfl⟩
      · intro a ha
        rw [after_of_color hvalue, if_neg]
        intro hmem
        obtain ⟨hnull, p, hp, hon, rfl⟩ := (haddr a).mp hmem
        exact ha (c.id, p) ⟨fb, hscreen, hnull, hon⟩ ⟨rfl, hp⟩ (d.cell_of_getScreen hscreen p)

variable {draws : List Draw}

/-- A line between near points, or anything else. -/
def Call.Near : Call → Prop
  | .drawLine p0 p1 _ => Small p0 ∧ Small p1
  | _ => True

theorem stores_of_near {c : Call} (fb : Option Framebuffer) (h : c.Near) :
    ∃ stores, c.stores fb (2 ^ 28) = some stores := by
  cases c with
  | setPixel coord color => exact ⟨_, rfl⟩
  | clear color => exact ⟨_, rfl⟩
  | drawRect pos size color => exact ⟨_, rfl⟩
  | fillRect pos size color => exact ⟨_, rfl⟩
  | drawLine p0 p1 color =>
      obtain ⟨calls, -, hreturns⟩ := drawLine_of_small h.1 h.2
      refine ⟨(LineRun.returned calls).stores fb color, ?_⟩
      simp only [Call.stores, hreturns _ (Nat.le_refl _)]

/-- **Calls on screens that are there return**, when the lines are between near points. -/
theorem run_of_near (m : Words) (h : ∀ c ∈ draws, (d.getScreen c.id).isSome ∧ c.call.Near) :
    ∃ m', Run d.Draws m draws m' := by
  induction draws generalizing m with
  | nil => exact ⟨m, .start⟩
  | cons c draws ih =>
      obtain ⟨hscreen, hnear⟩ := h c List.mem_cons_self
      obtain ⟨fb, hfb⟩ := Option.isSome_iff_exists.mp hscreen
      obtain ⟨stores, hstores⟩ := stores_of_near fb hnear
      have hdraws : d.Draws m c (after m stores) := by
        refine ⟨2 ^ 28, ?_⟩
        simp only [Displays.draw, hfb, Option.bind_some, hstores, Option.map_some]
      obtain ⟨m', hrun⟩ := ih (after m stores) fun c' hc' => h c' (List.mem_cons_of_mem c hc')
      exact ⟨m', (Run.single hdraws).trans hrun⟩

/-- A run of calls is a run of strokes, one for each call. -/
theorem strokes_of_run (hd : d.Apart) (hfits : ∀ c ∈ draws, d.Fits c) (h : Run d.Draws m draws m') :
    ∃ strokes, List.Forall₂ d.IsStroke draws strokes ∧ Run (d.surface hd).Paints m strokes m' := by
  have hrun : Run (fun m c m' => d.Fits c ∧ d.Draws m c m') m draws m' :=
    h.mono_labels fun _ c _ hc hdraws => ⟨hfits c hc, hdraws⟩
  obtain ⟨strokes, _, hstrokes, hpaints, rfl⟩ := hrun.relates (P := Eq) (Q := d.IsStroke)
    (S := (d.surface hd).Paints) (t := m) (fun _ c m₂ _ hstep he => by
      subst he
      obtain ⟨s, hs, hpaints⟩ := paints_of_draws hd hstep.1 hstep.2
      exact ⟨s, m₂, hs, hpaints, rfl⟩) rfl
  exact ⟨strokes, hstrokes, hpaints⟩

/-- A word that is no point of a screen drawn on is left alone. -/
theorem others_of_run (hd : d.Apart) (hfits : ∀ c ∈ draws, d.Fits c) (h : Run d.Draws m draws m') {a : UInt64}
    (ha : ∀ c ∈ draws, ∀ p, d.Shown (c.id, p) → d.cell (c.id, p) ≠ a) : m' a = m a := by
  obtain ⟨strokes, hstrokes, hrun⟩ := strokes_of_run hd hfits h
  apply Surface.others_of_run hrun
  rintro s hs ⟨i, p⟩ hshown hp
  obtain ⟨c, hc, -, points, hpoints, -⟩ := Run.exists_of_forall₂ hstrokes hs
  rw [hpoints] at hp
  obtain rfl : i = c.id := hp.1
  exact ha c hc p hshown

/-- **What the screens show after any calls** is what they showed before, painted with the strokes of the calls in
    their order. A word that is no point of a screen drawn on is left alone. -/
theorem screens_show_strokes (hd : d.Apart) (hfits : ∀ c ∈ draws, d.Fits c) (h : Run d.Draws m draws m') :
    ∃ strokes, List.Forall₂ d.IsStroke draws strokes
      ∧ (∀ q, d.Shown q → m' (d.cell q) = painted (fun q => m (d.cell q)) strokes q)
      ∧ ∀ a, (∀ c ∈ draws, ∀ p, d.Shown (c.id, p) → d.cell (c.id, p) ≠ a) → m' a = m a := by
  obtain ⟨strokes, hstrokes, hrun⟩ := strokes_of_run hd hfits h
  refine ⟨strokes, hstrokes, ?_, ?_⟩
  · intro q hq
    exact Surface.picture_of_run hrun q hq
  · intro a ha
    exact others_of_run hd hfits h ha

/-- Two screens, a small one behind a large one. -/
def twoScreens : Displays := ⟨[some vga, some ⟨0xF0000000, 2, 2, 8⟩]⟩

theorem twoScreens_cases {i : UInt8} (h : twoScreens.getScreen i = some (some fb)) :
    (i = 0 ∧ fb = vga) ∨ (i = 1 ∧ fb = ⟨0xF0000000, 2, 2, 8⟩) := by
  unfold Displays.getScreen at h
  obtain ⟨hlt, he⟩ := List.getElem?_eq_some_iff.mp h
  have hlt : i.toNat < 2 := hlt
  obtain hi | hi : i.toNat = 0 ∨ i.toNat = 1 := by omega
  · obtain rfl : i = 0 := UInt8.toNat_inj.mp hi
    exact .inl ⟨rfl, (Option.some.inj he).symm⟩
  · obtain rfl : i = 1 := UInt8.toNat_inj.mp hi
    exact .inr ⟨rfl, (Option.some.inj he).symm⟩

theorem twoScreens_apart : twoScreens.Apart where
  inMemory h := by
    obtain ⟨-, rfl⟩ | ⟨-, rfl⟩ := twoScreens_cases h
    · exact ⟨by decide, by decide⟩
    · exact ⟨by decide, by decide⟩
  sides h := by
    obtain ⟨-, rfl⟩ | ⟨-, rfl⟩ := twoScreens_cases h
    · exact ⟨by decide, by decide⟩
    · exact ⟨by decide, by decide⟩
  apart h h' hne := by
    obtain ⟨rfl, rfl⟩ | ⟨rfl, rfl⟩ := twoScreens_cases h
    · obtain ⟨rfl, rfl⟩ | ⟨rfl, rfl⟩ := twoScreens_cases h'
      · exact absurd rfl hne
      · exact .inl (by decide)
    · obtain ⟨rfl, rfl⟩ | ⟨rfl, rfl⟩ := twoScreens_cases h'
      · exact .inr (by decide)
      · exact absurd rfl hne

/-- To clear one screen after the other leaves the first one with its own color. -/
theorem screens_show_strokes_a :
    ∃ m', Run twoScreens.Draws (fun _ => 0) [⟨1, .clear 3⟩, ⟨0, .clear 9⟩] m'
      ∧ m' (twoScreens.cell (1, ⟨1, 1⟩)) = 3 ∧ m' 0 = 0 := by
  have hrun := (Run.single (R := twoScreens.Draws) (s := fun _ => 0) (a := ⟨1, .clear 3⟩) ⟨0, rfl⟩).step
    (a := ⟨0, .clear 9⟩) ⟨0, rfl⟩
  obtain ⟨strokes, hstrokes, hpicture, hothers⟩ := screens_show_strokes twoScreens_apart
    (fun c hc fb _ => by
      obtain rfl | rfl : c = ⟨1, .clear 3⟩ ∨ c = ⟨0, .clear 9⟩ := by simpa using hc
      · trivial
      · trivial) hrun
  refine ⟨_, hrun, ?_, ?_⟩
  · rw [hpicture (1, ⟨1, 1⟩) ⟨⟨0xF0000000, 2, 2, 8⟩, rfl, by decide, by decide⟩]
    cases hstrokes with
    | cons hfirst hrest =>
        obtain ⟨hcolor, points, hpoints, hcovers⟩ := hfirst
        obtain rfl : points = Set.univ := hcovers ⟨0xF0000000, 2, 2, 8⟩ rfl
        show painted _ ([] ++ _ :: _) _ = _
        refine (painted_of_last ?_ ?_).trans hcolor
        · rw [hpoints]
          exact ⟨rfl, Set.mem_univ _⟩
        · cases hrest with
          | cons hsecond hnil =>
              obtain ⟨-, points', hpoints', -⟩ := hsecond
              cases hnil
              rw [List.forall_mem_singleton, hpoints']
              rintro ⟨hid, -⟩
              cases hid
  · apply hothers
    rintro c - p ⟨fb, hfb, hnull, hon⟩ hcell
    rw [twoScreens.cell_of_getScreen hfb] at hcell
    have haddress : 0 < fb.address.toNat := Word.ne_zero_iff.mp hnull
    have hpixel := (toNat_pixel_of_inMemory (twoScreens_apart.inMemory hfb) hon).1
    rw [hcell] at hpixel
    have hzero : (0 : UInt64).toNat = 0 := rfl
    omega

end AlopexOS.Display
