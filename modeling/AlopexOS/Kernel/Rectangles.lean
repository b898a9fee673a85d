import AlopexOS.Kernel.Display
import Mathlib.Data.List.Range

/-!
# `Kernel.Rectangles` — `fill_rect` and `draw_rect` against `set_pixel`

Both clip the far corner of the rectangle, `pos + size`, to the screen. The sum wraps around, so a corner beyond
`2^32` comes back before the near one. `fill_rect` then writes a whole `size.x` behind the row; `draw_rect`
computes the last row and column by another subtraction, which wraps around when the size is zero.

## Contents
- **The clipped corner** in numbers: `edge` and `last`.
- **`fillRect`** is `set_pixel` for all points, unless the corner wraps around.
- **`drawRect`** draws the border, unless the rectangle is empty.
-/

namespace AlopexOS.Display

/-! ## The clipped corner -/

/-- The number that `x2` and `y2` have after clipping. -/
def edge (start size limit : UInt32) : Nat := min ((start.toNat + size.toNat) % 2 ^ 32) limit.toNat

/-- The number of `x2 - 1` and `y2 - 1`. -/
def last (edge : Nat) : Nat := (edge + (2 ^ 32 - 1)) % 2 ^ 32

variable {start size limit : UInt32}

theorem toNat_clip (start size limit : UInt32) :
    (if limit < start + size then limit else start + size).toNat = edge start size limit := by
  have hsum : (start + size).toNat = (start.toNat + size.toNat) % 2 ^ 32 := UInt32.toNat_add start size
  rw [edge, ← hsum]
  by_cases hlt : limit < start + size
  · have hlt' : limit.toNat < (start + size).toNat := hlt
    rw [if_pos hlt]
    omega
  · have hle : (start + size).toNat ≤ limit.toNat := UInt32.not_lt.mp hlt
    rw [if_neg hlt]
    omega

theorem edge_lt (start size limit : UInt32) : edge start size limit < 2 ^ 32 := by
  unfold edge
  omega

/-- Without a wrap-around the corner is clipped; after one it is before the near corner. -/
theorem edge_cases (size : UInt32) (h : start.toNat < limit.toNat) :
    (start.toNat + size.toNat < 2 ^ 32 ∧ edge start size limit = min (start.toNat + size.toNat) limit.toNat)
      ∨ (edge start size limit < start.toNat ∧ edge start size limit + 2 ^ 32 = start.toNat + size.toNat) := by
  have hlimit := limit.toNat_lt
  have hsize := size.toNat_lt
  unfold edge
  omega

theorem last_cases {e : Nat} (h : e < 2 ^ 32) : (e = 0 ∧ last e + 1 = 2 ^ 32) ∨ (0 < e ∧ last e + 1 = e) := by
  unfold last
  omega

theorem edge_le (size : UInt32) (h : start.toNat < limit.toNat) :
    edge start size limit ≤ start.toNat + size.toNat := by
  rcases edge_cases size h with ⟨-, hedge⟩ | ⟨hlt, -⟩
  · rw [hedge]
    exact Nat.min_le_left _ _
  · omega

/-- The last row or column is one of the rectangle, also where the subtraction wraps around. -/
theorem last_lt (hsize : 0 < size.toNat) (h : start.toNat < limit.toNat) :
    last (edge start size limit) < start.toNat + size.toNat := by
  have hle := edge_le size h
  rcases last_cases (edge_lt start size limit) with ⟨hzero, hlast⟩ | ⟨-, hlast⟩
  · rcases edge_cases size h with ⟨-, hedge⟩ | ⟨-, hwrap⟩
    · omega
    · omega
  · omega

theorem edge_of_fits (h : start.toNat + size.toNat ≤ limit.toNat) :
    edge start size limit = start.toNat + size.toNat := by
  have hlimit := limit.toNat_lt
  rw [edge, Nat.mod_eq_of_lt (Nat.lt_of_le_of_lt h hlimit), Nat.min_eq_left h]

/-- The last row or column of a rectangle that fits, or that ends at the far end of the numbers. -/
theorem last_of_fits (hsize : 0 < size.toNat)
    (h : start.toNat + size.toNat ≤ limit.toNat ∨ start.toNat + size.toNat = 2 ^ 32) :
    last (edge start size limit) + 1 = start.toNat + size.toNat := by
  rcases h with hfits | hend
  · have hlast := last_cases (edge_lt start size limit)
    rw [edge_of_fits hfits] at hlast ⊢
    omega
  · rw [edge, hend, Nat.mod_self, Nat.zero_min]
    rfl

theorem toNat_sub_one (v : UInt32) : (v - 1).toNat = last v.toNat := by
  rw [UInt32.toNat_sub, last]
  show (2 ^ 32 - 1 + v.toNat) % 2 ^ 32 = _
  omega

/-- The point is in the rectangle, with the far corner where it should be. -/
def InRect (pos size p : Vector2D) : Prop :=
  (pos.x.toNat ≤ p.x.toNat ∧ p.x.toNat < pos.x.toNat + size.x.toNat)
    ∧ pos.y.toNat ≤ p.y.toNat ∧ p.y.toNat < pos.y.toNat + size.y.toNat

variable {fb : Framebuffer} {pos size p : Vector2D} {color : UInt32} {s : Store} {a : UInt64}

theorem onScreen_iff : fb.OnScreen p ↔ p.x.toNat < fb.width.toNat ∧ p.y.toNat < fb.height.toNat := Iff.rfl

/-- The first test of both functions. -/
theorem starts_iff :
    ¬ (fb.width.toUInt32 ≤ pos.x ∨ fb.height.toUInt32 ≤ pos.y)
      ↔ pos.x.toNat < fb.width.toUInt32.toNat ∧ pos.y.toNat < fb.height.toUInt32.toNat := by
  rw [not_or, UInt32.not_le, UInt32.not_le]
  exact Iff.rfl

theorem toNat_low (v : UInt64) : v.toUInt32.toNat = v.toNat % 2 ^ 32 := UInt64.toNat_toUInt32 v

/-! ## `fillRect` -/

/-- The points of the rectangle, row by row. -/
def rectPoints (pos size : Vector2D) : List Vector2D :=
  (List.range' pos.y.toNat size.y.toNat).flatMap fun y =>
    (List.range' pos.x.toNat size.x.toNat).filterMap fun x =>
      if x < 2 ^ 32 ∧ y < 2 ^ 32 then some ⟨UInt32.ofNat x, UInt32.ofNat y⟩ else none

/-- `set_pixel` for every point of the rectangle. -/
def pixelwise (fb : Framebuffer) (pos size : Vector2D) (color : UInt32) : List Store :=
  (rectPoints pos size).flatMap fun p => setPixel (some fb) p color

theorem mem_rectPoints : p ∈ rectPoints pos size ↔ InRect pos size p := by
  unfold rectPoints InRect
  simp only [List.mem_flatMap, List.mem_filterMap, List.mem_range'_1]
  constructor
  · rintro ⟨y, hy, x, hx, hpoint⟩
    split at hpoint
    · rename_i hlt
      rw [← Option.some.inj hpoint, UInt32.toNat_ofNat_of_lt' hlt.1, UInt32.toNat_ofNat_of_lt' hlt.2]
      exact ⟨hx, hy⟩
    · exact absurd hpoint nofun
  · rintro ⟨hx, hy⟩
    refine ⟨p.y.toNat, hy, p.x.toNat, hx, ?_⟩
    rw [if_pos ⟨p.x.toNat_lt, p.y.toNat_lt⟩, UInt32.ofNat_toNat, UInt32.ofNat_toNat]

theorem mem_pixelwise :
    s ∈ pixelwise fb pos size color
      ↔ fb.address ≠ 0 ∧ ∃ p, InRect pos size p ∧ fb.OnScreen p ∧ s = ⟨fb.pixel p, color⟩ := by
  rw [pixelwise, List.mem_flatMap]
  simp only [mem_rectPoints, mem_setPixel]
  constructor
  · rintro ⟨p, hin, hscreen, hnull, hs⟩
    exact ⟨hnull, p, hin, hscreen, hs⟩
  · rintro ⟨hnull, p, hin, hscreen, hs⟩
    exact ⟨p, hin, hscreen, hnull, hs⟩

theorem word_add (fb : Framebuffer) (i j : UInt64) : fb.word (i + j) = fb.word i + 4 * j := by
  rw [Framebuffer.word, Framebuffer.word, UInt64.mul_add, UInt64.add_assoc]

/-- **What `fill_rect` stores**: from the near corner on, row by row, as many words as the difference of the
    corners says. -/
theorem mem_fillRect :
    s ∈ fillRect (some fb) pos size color
      ↔ (pos.x.toNat < fb.width.toUInt32.toNat ∧ pos.y.toNat < fb.height.toUInt32.toNat) ∧ fb.address ≠ 0
        ∧ ∃ y i : UInt32, (pos.y.toNat ≤ y.toNat ∧ y.toNat < edge pos.y size.y fb.height.toUInt32)
          ∧ i.toNat < (2 ^ 32 - pos.x.toNat + edge pos.x size.x fb.width.toUInt32) % 2 ^ 32
          ∧ s = ⟨fb.word (y.toUInt64 * fb.pitchPixels + pos.x.toUInt64 + i.toUInt64), color⟩ := by
  rw [fillRect]
  by_cases hstart : fb.width.toUInt32 ≤ pos.x ∨ fb.height.toUInt32 ≤ pos.y
  · have hoff := mt starts_iff.mpr (not_not_intro hstart)
    simp only [if_pos hstart, List.not_mem_nil, hoff, false_and]
  · have hon := starts_iff.mp hstart
    simp only [if_neg hstart]
    by_cases hnull : fb.address = 0
    · simp [hnull]
    · rw [if_neg hnull]
      simp only [mem_upFrom, List.mem_singleton]
      have hrow : ∀ y, (y < if fb.height.toUInt32 < pos.y + size.y then fb.height.toUInt32 else pos.y + size.y)
          ↔ y.toNat < edge pos.y size.y fb.height.toUInt32 := fun y => by
        rw [UInt32.lt_iff_toNat_lt, toNat_clip]
      have hcolumn : ∀ i,
          (i < (if fb.width.toUInt32 < pos.x + size.x then fb.width.toUInt32 else pos.x + size.x) - pos.x)
            ↔ i.toNat < (2 ^ 32 - pos.x.toNat + edge pos.x size.x fb.width.toUInt32) % 2 ^ 32 := fun i => by
        rw [UInt32.lt_iff_toNat_lt, UInt32.toNat_sub, toNat_clip]
      simp only [hrow, hcolumn, ← word_add]
      constructor
      · rintro ⟨y, hy, hlast, i, -, hi, hs⟩
        exact ⟨hon, hnull, y, i, ⟨hy, hlast⟩, hi, hs⟩
      · rintro ⟨-, -, y, i, ⟨hy, hlast⟩, hi, hs⟩
        exact ⟨y, hy, hlast, i, Nat.zero_le _, hi, hs⟩

theorem value_of_mem_fillRect (h : s ∈ fillRect (some fb) pos size color) : s.value = color := by
  obtain ⟨-, -, y, i, -, -, rfl⟩ := mem_fillRect.mp h
  rfl

theorem value_of_mem_pixelwise (h : s ∈ pixelwise fb pos size color) : s.value = color := by
  obtain ⟨-, p, -, -, rfl⟩ := mem_pixelwise.mp h
  rfl

/-- `fill_rect` stores to words of the framebuffer only, and does what `set_pixel` does for all points. -/
structure Agrees (fb : Framebuffer) (pos size : Vector2D) : Prop where
  inside : ∀ color, ∀ s ∈ fillRect (some fb) pos size color, ∃ p, fb.OnScreen p ∧ s.addr = fb.pixel p
  same : ∀ color m, after m (fillRect (some fb) pos size color) = after m (pixelwise fb pos size color)

/-- There is nothing to draw, or the far corner does not wrap around. -/
def FarCornerFits (fb : Framebuffer) (pos size : Vector2D) : Prop :=
  fb.address = 0 ∨ fb.width.toNat ≤ pos.x.toNat ∨ fb.height.toNat ≤ pos.y.toNat ∨ size.x = 0 ∨ size.y = 0
    ∨ (pos.x.toNat + size.x.toNat < 2 ^ 32 ∧ pos.y.toNat + size.y.toNat < 2 ^ 32)

/-- The rows do not overlap, and end in the address space. -/
def Framebuffer.InMemory (fb : Framebuffer) : Prop :=
  4 * fb.width.toNat ≤ fb.pitch.toNat ∧ fb.address.toNat + fb.height.toNat * fb.pitch.toNat ≤ 2 ^ 64

/-- The two draw the same when the same words are stored to. -/
theorem same_of_iff (h : ∀ s, s ∈ fillRect (some fb) pos size color ↔ s ∈ pixelwise fb pos size color) (m : Words) :
    after m (fillRect (some fb) pos size color) = after m (pixelwise fb pos size color) := by
  funext a
  rw [after_of_color (fun _ => value_of_mem_fillRect), after_of_color (fun _ => value_of_mem_pixelwise)]
  have haddr : a ∈ (fillRect (some fb) pos size color).map Store.addr
      ↔ a ∈ (pixelwise fb pos size color).map Store.addr := by
    rw [List.mem_map, List.mem_map]
    exact exists_congr fun s => and_congr_left fun _ => h s
  simp only [haddr]

theorem toNat_toUInt32 {v : UInt64} (h : v.toNat < 2 ^ 32) : v.toUInt32.toNat = v.toNat :=
  (toNat_low v).trans (Nat.mod_eq_of_lt h)

/-- The point `i` to the right of the near corner. -/
theorem pixel_right {x y i : UInt32} (h : x.toNat + i.toNat < 2 ^ 32) (fb : Framebuffer) :
    fb.pixel ⟨x + i, y⟩ = fb.word (y.toUInt64 * fb.pitchPixels + x.toUInt64 + i.toUInt64) := by
  have hsum : (x + i).toUInt64 = x.toUInt64 + i.toUInt64 := by
    apply UInt64.toNat_inj.mp
    rw [UInt32.toNat_toUInt64, UInt32.toNat_add, UInt64.toNat_add, UInt32.toNat_toUInt64, UInt32.toNat_toUInt64]
    omega
  rw [Framebuffer.pixel, hsum, UInt64.add_assoc]

/-- Without a wrap-around, the words of `fill_rect` are those of the points. -/
theorem mem_fillRect_iff_pixelwise (hw : fb.width.toNat < 2 ^ 32) (hh : fb.height.toNat < 2 ^ 32)
    (hfits : FarCornerFits fb pos size) :
    s ∈ fillRect (some fb) pos size color ↔ s ∈ pixelwise fb pos size color := by
  rw [mem_fillRect, mem_pixelwise]
  rw [FarCornerFits, ← UInt32.toNat_inj, ← UInt32.toNat_inj, UInt32.toNat_zero] at hfits
  unfold edge
  rw [toNat_toUInt32 hw, toNat_toUInt32 hh]
  constructor
  · rintro ⟨⟨hx, hy⟩, hnull, y, i, ⟨hrow, hlast⟩, hi, rfl⟩
    have hfits := hfits.resolve_left hnull
    obtain ⟨hX, hY⟩ : pos.x.toNat + size.x.toNat < 2 ^ 32 ∧ pos.y.toNat + size.y.toNat < 2 ^ 32 := by omega
    have hright : (pos.x + i).toNat = pos.x.toNat + i.toNat := by
      rw [UInt32.toNat_add]
      omega
    refine ⟨hnull, ⟨pos.x + i, y⟩, ?_, ?_, ?_⟩
    · unfold InRect
      simp only [hright]
      omega
    · rw [onScreen_iff]
      simp only [hright]
      omega
    · rw [pixel_right (by omega)]
  · rintro ⟨hnull, p, ⟨⟨hx, hx'⟩, hy, hy'⟩, hscreen, rfl⟩
    rw [onScreen_iff] at hscreen
    have hfits := hfits.resolve_left hnull
    obtain ⟨hX, hY⟩ : pos.x.toNat + size.x.toNat < 2 ^ 32 ∧ pos.y.toNat + size.y.toNat < 2 ^ 32 := by omega
    have hi : (p.x - pos.x).toNat = p.x.toNat - pos.x.toNat := UInt32.toNat_sub_of_le _ _ hx
    have hp : (⟨pos.x + (p.x - pos.x), p.y⟩ : Vector2D) = p := by
      rw [UInt32.add_comm, UInt32.sub_add_cancel]
    refine ⟨by omega, hnull, p.y, p.x - pos.x, by omega, by omega, ?_⟩
    rw [← pixel_right (by omega), hp]

theorem agrees_of_fits (hw : fb.width.toNat < 2 ^ 32) (hh : fb.height.toNat < 2 ^ 32)
    (hfits : FarCornerFits fb pos size) : Agrees fb pos size where
  inside color s hs := by
    obtain ⟨-, p, -, hscreen, rfl⟩ := mem_pixelwise.mp ((mem_fillRect_iff_pixelwise hw hh hfits).mp hs)
    exact ⟨p, hscreen, rfl⟩
  same color m := same_of_iff (fun _ => mem_fillRect_iff_pixelwise hw hh hfits) m

/-- Who draws the same has stored to the same words. -/
theorem Agrees.addr_iff (h : Agrees fb pos size) (a : UInt64) :
    a ∈ (fillRect (some fb) pos size 1).map Store.addr ↔ a ∈ (pixelwise fb pos size 1).map Store.addr := by
  have hsame := congrFun (h.same 1 fun _ => 0) a
  rw [after_of_color (fun _ => value_of_mem_fillRect), after_of_color (fun _ => value_of_mem_pixelwise)] at hsame
  by_contra hne
  by_cases hin : a ∈ (fillRect (some fb) pos size 1).map Store.addr
  · rw [if_pos hin, if_neg (fun hin' => hne (iff_of_true hin hin'))] at hsame
    exact absurd hsame (by decide)
  · by_cases hin' : a ∈ (pixelwise fb pos size 1).map Store.addr
    · rw [if_neg hin, if_pos hin'] at hsame
      exact absurd hsame (by decide)
    · exact hne (iff_of_false hin hin')

theorem toNat_pitchPixels (fb : Framebuffer) : fb.pitchPixels.toNat = fb.pitch.toNat / 4 := by
  rw [Framebuffer.pitchPixels, UInt64.toNat_shiftRight, Nat.shiftRight_eq_div_pow]
  rfl

theorem toNat_pixel (fb : Framebuffer) (p : Vector2D) :
    (fb.pixel p).toNat = (fb.address.toNat + 4 * (p.y.toNat * (fb.pitch.toNat / 4) + p.x.toNat)) % 2 ^ 64 := by
  rw [Framebuffer.pixel, Framebuffer.word, UInt64.toNat_add, UInt64.toNat_mul, UInt64.toNat_add, UInt64.toNat_mul,
    toNat_pitchPixels, UInt32.toNat_toUInt64, UInt32.toNat_toUInt64]
  show (_ + 4 * _ % 2 ^ 64) % 2 ^ 64 = _
  omega

/-- **The word behind a row** is the first of the next row, or of no row. -/
theorem pixel_ne_behind {q : Vector2D} (hmem : fb.InMemory) (hnull : fb.address ≠ 0) (hp : fb.OnScreen p)
    (hx : 0 < p.x.toNat) (hq : q.x.toNat = fb.width.toNat) (hy : q.y.toNat < fb.height.toNat) :
    fb.pixel q ≠ fb.pixel p := by
  obtain ⟨hpitch, hroom⟩ := hmem
  rw [onScreen_iff] at hp
  have haddress : fb.address.toNat ≠ 0 := fun h => hnull (UInt64.toNat_inj.mp h)
  obtain ⟨w, hwords⟩ : ∃ w, fb.pitch.toNat / 4 = w := ⟨_, rfl⟩
  have hrows : ∀ y k, y + 1 ≤ k → y * w + w ≤ k * w := by
    intro y k hle
    have hmul : (y + 1) * w ≤ k * w := Nat.mul_le_mul_right w hle
    rwa [Nat.succ_mul] at hmul
  have hsize : 4 * (fb.height.toNat * w) ≤ fb.height.toNat * fb.pitch.toNat := by
    rw [Nat.mul_left_comm]
    exact Nat.mul_le_mul_left _ (by omega)
  have hprow := hrows p.y.toNat fb.height.toNat hp.2
  have hqrow := hrows q.y.toNat fb.height.toNat hy
  intro he
  have heq := congrArg UInt64.toNat he
  rw [toNat_pixel, toNat_pixel, hwords] at heq
  rcases Nat.lt_trichotomy p.y.toNat q.y.toNat with hlt | hrow | hlt
  · have hnext := hrows p.y.toNat q.y.toNat hlt
    omega
  · rw [hrow] at heq hprow
    omega
  · have hnext := hrows q.y.toNat p.y.toNat hlt
    omega

theorem fits_of_agrees (hw : fb.width.toNat < 2 ^ 32) (hh : fb.height.toNat < 2 ^ 32) (hmem : fb.InMemory)
    (h : Agrees fb pos size) : FarCornerFits fb pos size := by
  by_contra hfits
  simp only [FarCornerFits, not_or, not_and, Nat.not_le, Nat.not_lt] at hfits
  obtain ⟨hnull, hx, hy, hsizex, hsizey, hwraps⟩ := hfits
  have hsizex : 0 < size.x.toNat := Nat.pos_of_ne_zero fun h => hsizex (UInt32.toNat_inj.mp h)
  have hsizey : 0 < size.y.toNat := Nat.pos_of_ne_zero fun h => hsizey (UInt32.toNat_inj.mp h)
  have hltx := size.x.toNat_lt
  have hlty := size.y.toNat_lt
  by_cases hY : pos.y.toNat + size.y.toNat < 2 ^ 32
  · -- the first row goes on behind the screen
    have hX : ¬ pos.x.toNat + size.x.toNat < 2 ^ 32 := fun hX => absurd hY (Nat.not_lt.mpr (hwraps hX))
    have hbehind : (UInt32.ofNat (fb.width.toNat - pos.x.toNat)).toNat = fb.width.toNat - pos.x.toNat :=
      UInt32.toNat_ofNat_of_lt' (Nat.lt_of_le_of_lt (Nat.sub_le _ _) hw)
    have hstray : (⟨fb.word (pos.y.toUInt64 * fb.pitchPixels + pos.x.toUInt64
        + (UInt32.ofNat (fb.width.toNat - pos.x.toNat)).toUInt64), 1⟩ : Store) ∈ fillRect (some fb) pos size 1 := by
      refine mem_fillRect.mpr ⟨?_, hnull, pos.y, _, ⟨Nat.le_refl _, ?_⟩, ?_, rfl⟩
      · rw [toNat_toUInt32 hw, toNat_toUInt32 hh]
        exact ⟨hx, hy⟩
      · rw [edge, toNat_toUInt32 hh]
        omega
      · rw [edge, toNat_toUInt32 hw, hbehind]
        omega
    rw [← pixel_right (by omega)] at hstray
    obtain ⟨s, hs, haddr⟩ := List.mem_map.mp ((h.addr_iff _).mp (List.mem_map_of_mem hstray))
    obtain ⟨-, p, ⟨⟨hpx, -⟩, -, -⟩, hscreen, rfl⟩ := mem_pixelwise.mp hs
    refine absurd haddr.symm (pixel_ne_behind hmem hnull hscreen (by omega) ?_ hy)
    show (pos.x + _).toNat = _
    rw [UInt32.toNat_add, hbehind]
    omega
  · -- the near corner is not drawn
    have hcorner : (⟨fb.pixel pos, 1⟩ : Store) ∈ pixelwise fb pos size 1 :=
      mem_pixelwise.mpr ⟨hnull, pos, ⟨⟨by omega, by omega⟩, by omega, by omega⟩, ⟨hx, hy⟩, rfl⟩
    obtain ⟨s, hs, -⟩ := List.mem_map.mp ((h.addr_iff _).mpr (List.mem_map_of_mem hcorner))
    obtain ⟨-, -, y, i, ⟨hrow, hlast⟩, -, -⟩ := mem_fillRect.mp hs
    unfold edge at hlast
    omega

/-- **`fill_rect` does what `set_pixel` does for all points when the far corner does not wrap around**; for a
    framebuffer in memory it does not otherwise. -/
theorem fillRect_agrees (hw : fb.width.toNat < 2 ^ 32) (hh : fb.height.toNat < 2 ^ 32) :
    (FarCornerFits fb pos size → Agrees fb pos size)
      ∧ (fb.InMemory → (Agrees fb pos size ↔ FarCornerFits fb pos size)) :=
  ⟨agrees_of_fits hw hh, fun hmem => ⟨fits_of_agrees hw hh hmem, agrees_of_fits hw hh⟩⟩

theorem fillRect_agrees_vga : Agrees vga ⟨600, 470⟩ ⟨100, 100⟩ :=
  (fillRect_agrees (by decide) (by decide)).1 (by unfold FarCornerFits; decide)

/-- A rectangle from the right part of the screen to the far end of the numbers. -/
theorem not_agrees_wide : ¬ Agrees vga ⟨600, 10⟩ ⟨0xFFFFFFFF, 5⟩ := by
  intro h
  have hfits := fits_of_agrees (by decide) (by decide) ⟨by decide, by decide⟩ h
  unfold FarCornerFits at hfits
  exact absurd hfits (by decide)

/-! ## `drawRect` -/

/-- The calls of one round. -/
theorem mem_two {q r : Vector2D} {c : Prop} [Decidable c] :
    (p ∈ q :: if c then [r] else []) ↔ p = q ∨ (c ∧ p = r) := by
  by_cases hc : c <;> simp [hc]

/-- **The calls of `draw_rect`**: the first and the last row, then the first and the last column between. -/
theorem mem_rectCalls :
    p ∈ rectCalls fb pos size
      ↔ (pos.x.toNat < fb.width.toUInt32.toNat ∧ pos.y.toNat < fb.height.toUInt32.toNat)
        ∧ (((pos.x.toNat ≤ p.x.toNat ∧ p.x.toNat < edge pos.x size.x fb.width.toUInt32)
            ∧ (p.y.toNat = pos.y.toNat ∨ (pos.y.toNat < last (edge pos.y size.y fb.height.toUInt32)
              ∧ p.y.toNat = last (edge pos.y size.y fb.height.toUInt32))))
          ∨ ((pos.y.toNat + 1 ≤ p.y.toNat ∧ p.y.toNat < last (edge pos.y size.y fb.height.toUInt32))
            ∧ (p.x.toNat = pos.x.toNat ∨ (pos.x.toNat < last (edge pos.x size.x fb.width.toUInt32)
              ∧ p.x.toNat = last (edge pos.x size.x fb.width.toUInt32))))) := by
  have hclipx := toNat_clip pos.x size.x fb.width.toUInt32
  have hclipy := toNat_clip pos.y size.y fb.height.toUInt32
  rw [rectCalls]
  by_cases hstart : fb.width.toUInt32 ≤ pos.x ∨ fb.height.toUInt32 ≤ pos.y
  · have hoff := mt starts_iff.mpr (not_not_intro hstart)
    simp only [if_pos hstart, List.not_mem_nil, hoff, false_and]
  · have hon := starts_iff.mp hstart
    simp only [if_neg hstart]
    obtain ⟨x2, hx2⟩ : ∃ x2, (if fb.width.toUInt32 < pos.x + size.x then fb.width.toUInt32 else pos.x + size.x) = x2 :=
      ⟨_, rfl⟩
    obtain ⟨y2, hy2⟩ : ∃ y2, (if fb.height.toUInt32 < pos.y + size.y then fb.height.toUInt32 else pos.y + size.y) = y2 :=
      ⟨_, rfl⟩
    rw [hx2] at hclipx
    rw [hy2] at hclipy
    rw [hx2, hy2, ← hclipx, ← hclipy, ← toNat_sub_one, ← toNat_sub_one, List.mem_append, mem_upFrom, mem_upFrom]
    have hbelow : (pos.y + 1).toNat = pos.y.toNat + 1 := Word.toNat_succ32_of_lt hon.2
    simp only [mem_two, Vector2D.ext_iff, UInt32.le_iff_toNat_le, UInt32.lt_iff_toNat_lt, ← UInt32.toNat_inj, hbelow]
    constructor
    · rintro (⟨x, hx, hx', ⟨hpx, hpy⟩ | ⟨hy, hpx, hpy⟩⟩ | ⟨y, hy, hy', ⟨hpx, hpy⟩ | ⟨hx, hpx, hpy⟩⟩)
      · exact ⟨hon, Or.inl ⟨by omega, Or.inl hpy⟩⟩
      · exact ⟨hon, Or.inl ⟨by omega, Or.inr ⟨hy, hpy⟩⟩⟩
      · exact ⟨hon, Or.inr ⟨by omega, Or.inl hpx⟩⟩
      · exact ⟨hon, Or.inr ⟨by omega, Or.inr ⟨hx, hpx⟩⟩⟩
    · rintro ⟨-, ⟨⟨hx, hx'⟩, hpy | ⟨hy, hpy⟩⟩ | ⟨⟨hy, hy'⟩, hpx | ⟨hx, hpx⟩⟩⟩
      · exact Or.inl ⟨p.x, hx, hx', Or.inl ⟨rfl, hpy⟩⟩
      · exact Or.inl ⟨p.x, hx, hx', Or.inr ⟨hy, rfl, hpy⟩⟩
      · exact Or.inr ⟨p.y, hy, hy', Or.inl ⟨hpx, rfl⟩⟩
      · exact Or.inr ⟨p.y, hy, hy', Or.inr ⟨hx, hpx, rfl⟩⟩

/-- The calls that store. -/
def changed (fb : Framebuffer) (pos size : Vector2D) : List Vector2D :=
  (rectCalls fb pos size).filter fun p => fb.OnScreen p ∧ fb.address ≠ 0

theorem mem_changed :
    p ∈ changed fb pos size ↔ p ∈ rectCalls fb pos size ∧ fb.OnScreen p ∧ fb.address ≠ 0 := by
  rw [changed, List.mem_filter, decide_eq_true_iff]

theorem mem_drawRect :
    s ∈ drawRect (some fb) pos size color ↔ ∃ p ∈ changed fb pos size, s = ⟨fb.pixel p, color⟩ := by
  rw [drawRect, List.mem_flatMap]
  simp only [mem_setPixel, mem_changed]
  constructor
  · rintro ⟨p, hp, hscreen, hnull, hs⟩
    exact ⟨p, ⟨hp, hscreen, hnull⟩, hs⟩
  · rintro ⟨p, ⟨hp, hscreen, hnull⟩, hs⟩
    exact ⟨p, hp, hscreen, hnull, hs⟩

/-- The point is on the border of the rectangle. -/
def OnBorder (pos size : Vector2D) (x y : Nat) : Prop :=
  ((pos.x.toNat ≤ x ∧ x < pos.x.toNat + size.x.toNat) ∧ pos.y.toNat ≤ y ∧ y < pos.y.toNat + size.y.toNat)
    ∧ (x = pos.x.toNat ∨ x + 1 = pos.x.toNat + size.x.toNat ∨ y = pos.y.toNat
      ∨ y + 1 = pos.y.toNat + size.y.toNat)

/-- `draw_rect` stays in its rectangle, and draws the border of one that is on the screen. -/
structure Outlines (fb : Framebuffer) (pos size : Vector2D) : Prop where
  inside : ∀ color, ∀ s ∈ drawRect (some fb) pos size color,
    ∃ p, InRect pos size p ∧ fb.OnScreen p ∧ s.addr = fb.pixel p
  border : 0 < size.x.toNat → 0 < size.y.toNat → pos.x.toNat + size.x.toNat ≤ fb.width.toNat →
    pos.y.toNat + size.y.toNat ≤ fb.height.toNat →
    ∀ x y, (∃ p ∈ changed fb pos size, p.x.toNat = x ∧ p.y.toNat = y) ↔ OnBorder pos size x y

/-- A rectangle that is on the screen is in the part of it that 32 bits of width and height leave. -/
def CornersFit (fb : Framebuffer) (pos size : Vector2D) : Prop :=
  pos.x.toNat + size.x.toNat ≤ fb.width.toNat → pos.y.toNat + size.y.toNat ≤ fb.height.toNat →
    fb.address ≠ 0 ∧ pos.x.toNat + size.x.toNat ≤ fb.width.toNat % 2 ^ 32
      ∧ (pos.y.toNat + size.y.toNat ≤ fb.height.toNat % 2 ^ 32
        ∨ (pos.y.toNat < fb.height.toNat % 2 ^ 32 ∧ pos.y.toNat + size.y.toNat = 2 ^ 32))

/-- No loop of `draw_rect` has a round for a rectangle without points that starts on the screen. -/
def NoRounds (fb : Framebuffer) (pos size : Vector2D) : Prop :=
  (size.y.toNat = 0 → size.x.toNat = 0 ∨ 2 ^ 32 ≤ pos.x.toNat + size.x.toNat)
    ∧ (pos.y.toNat + 1 < fb.height.toNat →
      (pos.y.toNat + size.y.toNat = 0 ∨ pos.y.toNat + size.y.toNat = 2 ^ 32 → 2 ^ 32 ≤ pos.y.toNat + 2)
        ∧ (pos.y.toNat + size.y.toNat < 2 ^ 32 →
          min (pos.y.toNat + size.y.toNat) (fb.height.toNat % 2 ^ 32) < pos.y.toNat + 3))

/-- The rectangle has points and fits, or it has none and nothing is drawn. -/
def OutlineFits (fb : Framebuffer) (pos size : Vector2D) : Prop :=
  (0 < size.x.toNat ∧ 0 < size.y.toNat ∧ CornersFit fb pos size)
    ∨ ((size.x.toNat = 0 ∨ size.y.toNat = 0)
      ∧ (fb.address = 0 ∨ fb.width.toNat % 2 ^ 32 ≤ pos.x.toNat ∨ fb.height.toNat % 2 ^ 32 ≤ pos.y.toNat
        ∨ NoRounds fb pos size))

/-- A call for a rectangle with points is for one of them. -/
theorem inRect_of_mem_rectCalls (hx : 0 < size.x.toNat) (hy : 0 < size.y.toNat)
    (hp : p ∈ rectCalls fb pos size) : InRect pos size p := by
  obtain ⟨⟨hon, hon'⟩, hcalls⟩ := mem_rectCalls.mp hp
  have hfarx := edge_le size.x hon
  have hlastx := last_lt hx hon
  have hlasty := last_lt hy hon'
  unfold InRect
  omega

theorem not_inRect_of_empty (h : size.x.toNat = 0 ∨ size.y.toNat = 0) : ¬ InRect pos size p := by
  unfold InRect
  omega

/-- A rectangle without points changes nothing exactly if no loop has a round. -/
theorem changed_eq_nil_iff (hempty : size.x.toNat = 0 ∨ size.y.toNat = 0) :
    (∀ p, p ∉ changed fb pos size)
      ↔ fb.address = 0 ∨ fb.width.toNat % 2 ^ 32 ≤ pos.x.toNat ∨ fb.height.toNat % 2 ^ 32 ≤ pos.y.toNat
        ∨ NoRounds fb pos size := by
  have hw := toNat_low fb.width
  have hh := toNat_low fb.height
  have hlasty := last_cases (edge_lt pos.y size.y fb.height.toUInt32)
  constructor
  · intro hnone
    by_contra hsome
    simp only [not_or, Nat.not_le, ← hw, ← hh] at hsome
    obtain ⟨hnull, hx, hy, hrounds⟩ := hsome
    have hfarx := edge_cases size.x hx
    have hfary := edge_cases size.y hy
    have hcall : ∀ p, fb.OnScreen p → p ∉ rectCalls fb pos size :=
      fun p hscreen hp => hnone p (mem_changed.mpr ⟨hp, hscreen, hnull⟩)
    apply hrounds
    constructor
    · -- the first point of the first row
      intro hzero
      by_contra hrow
      apply hcall pos (onScreen_iff.mpr (by omega))
      exact mem_rectCalls.mpr ⟨⟨hx, hy⟩, Or.inl ⟨by omega, Or.inl rfl⟩⟩
    · -- the first point of the first column
      intro hnext
      have hbelow : (pos.y + 1).toNat = pos.y.toNat + 1 := Word.toNat_succ32_of_lt hy
      have hnot : ¬ pos.y.toNat + 1 < last (edge pos.y size.y fb.height.toUInt32) := by
        intro hlt
        apply hcall ⟨pos.x, pos.y + 1⟩ (onScreen_iff.mpr (by simp only [hbelow]; omega))
        refine mem_rectCalls.mpr ⟨⟨hx, hy⟩, Or.inr ⟨?_, Or.inl rfl⟩⟩
        simp only [hbelow]
        omega
      clear hfarx hcall hnone
      constructor
      · intro hend
        omega
      · intro hfits
        omega
  · intro hnone p hp
    obtain ⟨hp, hscreen, hnull⟩ := mem_changed.mp hp
    rw [onScreen_iff] at hscreen
    obtain ⟨⟨hon, hon'⟩, hcalls⟩ := mem_rectCalls.mp hp
    have hrounds : NoRounds fb pos size := by
      rcases hnone with h | h | h | h
      · exact absurd h hnull
      · omega
      · omega
      · exact h
    obtain ⟨hrow, hcolumn⟩ := hrounds
    rcases hcalls with ⟨hpx, -⟩ | ⟨hpy, -⟩
    · have hfarx := edge_cases size.x hon
      have hzero : size.y.toNat = 0 := by omega
      have hnone := hrow hzero
      omega
    · obtain ⟨hend, hshort⟩ := hcolumn (by omega)
      rcases edge_cases size.y hon' with ⟨hfits, hedge⟩ | ⟨hbefore, hwrap⟩
      · have hfar := hshort hfits
        omega
      · omega

/-- The border of a rectangle that fits is what is called for, and all of it is on the screen. -/
theorem border_of_fits (hx : 0 < size.x.toNat) (hy : 0 < size.y.toNat) (hfit : CornersFit fb pos size)
    (hX : pos.x.toNat + size.x.toNat ≤ fb.width.toNat) (hY : pos.y.toNat + size.y.toNat ≤ fb.height.toNat)
    (x y : Nat) : (∃ p ∈ changed fb pos size, p.x.toNat = x ∧ p.y.toNat = y) ↔ OnBorder pos size x y := by
  obtain ⟨hnull, hX', hY'⟩ := hfit hX hY
  rw [← toNat_low] at hX' hY'
  have hedge := edge_of_fits hX'
  have hlastx := last_of_fits hx (Or.inl hX')
  have hlasty : last (edge pos.y size.y fb.height.toUInt32) + 1 = pos.y.toNat + size.y.toNat :=
    last_of_fits hy (hY'.imp_right And.right)
  have hon : pos.y.toNat < fb.height.toUInt32.toNat := by omega
  unfold OnBorder
  constructor
  · rintro ⟨p, hp, rfl, rfl⟩
    obtain ⟨-, hcalls⟩ := mem_rectCalls.mp (mem_changed.mp hp).1
    rw [hedge] at hcalls hlastx
    omega
  · intro hborder
    have hltx := fb.width.toUInt32.toNat_lt
    have hlty := fb.height.toUInt32.toNat_lt
    have hpx : (UInt32.ofNat x).toNat = x := UInt32.toNat_ofNat_of_lt' (by show x < 2 ^ 32; omega)
    have hpy : (UInt32.ofNat y).toNat = y := UInt32.toNat_ofNat_of_lt' (by show y < 2 ^ 32; omega)
    refine ⟨⟨UInt32.ofNat x, UInt32.ofNat y⟩, mem_changed.mpr ⟨mem_rectCalls.mpr ?_, ?_, hnull⟩, hpx, hpy⟩
    · rw [hedge] at hlastx ⊢
      simp only [hpx, hpy]
      omega
    · rw [onScreen_iff]
      simp only [hpx, hpy]
      omega

/-- A corner that is drawn fits. -/
theorem cornersFit_of_border (hx : 0 < size.x.toNat) (hy : 0 < size.y.toNat)
    (hborder : pos.x.toNat + size.x.toNat ≤ fb.width.toNat → pos.y.toNat + size.y.toNat ≤ fb.height.toNat →
      ∀ x y, (∃ p ∈ changed fb pos size, p.x.toNat = x ∧ p.y.toNat = y) ↔ OnBorder pos size x y) :
    CornersFit fb pos size := by
  intro hX hY
  have hw := toNat_low fb.width
  have hh := toNat_low fb.height
  have hcall : ∀ x y, OnBorder pos size x y → ∃ p ∈ changed fb pos size, p.x.toNat = x ∧ p.y.toNat = y :=
    fun x y => (hborder hX hY x y).mpr
  obtain ⟨p, hp, hpx, hpy⟩ := hcall pos.x.toNat pos.y.toNat (by unfold OnBorder; omega)
  obtain ⟨q, hq, hqx, hqy⟩ :=
    hcall (pos.x.toNat + size.x.toNat - 1) pos.y.toNat (by unfold OnBorder; omega)
  obtain ⟨r, hr, hrx, hry⟩ :=
    hcall pos.x.toNat (pos.y.toNat + size.y.toNat - 1) (by unfold OnBorder; omega)
  obtain ⟨hon, hp'⟩ := mem_rectCalls.mp (mem_changed.mp hp).1
  obtain ⟨-, hq'⟩ := mem_rectCalls.mp (mem_changed.mp hq).1
  obtain ⟨-, hr'⟩ := mem_rectCalls.mp (mem_changed.mp hr).1
  have hlt := q.x.toNat_lt
  have hlt' := r.y.toNat_lt
  refine ⟨(mem_changed.mp hp).2.2, ?_, ?_⟩
  · unfold edge last at hp' hq'
    rw [hw, hh] at hp' hq'
    omega
  · unfold edge last at hr'
    rw [hw, hh] at hon hr'
    omega

/-- **`draw_rect` stays in its rectangle and draws the border exactly if the rectangle has points and fits, or
    has none and the loops have no round.** -/
theorem drawRect_outlines_iff (fb : Framebuffer) (pos size : Vector2D) :
    Outlines fb pos size ↔ OutlineFits fb pos size := by
  by_cases hpoints : 0 < size.x.toNat ∧ 0 < size.y.toNat
  · obtain ⟨hx, hy⟩ := hpoints
    constructor
    · intro h
      exact Or.inl ⟨hx, hy, cornersFit_of_border hx hy (h.border hx hy)⟩
    · intro hfits
      have hfit : CornersFit fb pos size := by
        rcases hfits with ⟨-, -, hfit⟩ | ⟨hempty, -⟩
        · exact hfit
        · omega
      constructor
      · intro color s hs
        obtain ⟨p, hp, rfl⟩ := mem_drawRect.mp hs
        obtain ⟨hp, hscreen, -⟩ := mem_changed.mp hp
        exact ⟨p, inRect_of_mem_rectCalls hx hy hp, hscreen, rfl⟩
      · intro _ _ hX hY
        exact border_of_fits hx hy hfit hX hY
  · have hempty : size.x.toNat = 0 ∨ size.y.toNat = 0 := by omega
    rw [OutlineFits, or_iff_right (fun h => hpoints ⟨h.1, h.2.1⟩), and_iff_right hempty, ← changed_eq_nil_iff hempty]
    constructor
    · intro h p hp
      obtain ⟨q, hin, -⟩ := h.inside 0 _ (mem_drawRect.mpr ⟨p, hp, rfl⟩)
      exact not_inRect_of_empty hempty hin
    · intro hnone
      constructor
      · intro color s hs
        obtain ⟨p, hp, -⟩ := mem_drawRect.mp hs
        exact absurd hp (hnone p)
      · intro hx hy
        exact absurd ⟨hx, hy⟩ hpoints

/-- A rectangle without points at the upper edge: a line to the lower edge is drawn. -/
theorem not_outlines_empty : ¬ Outlines vga ⟨10, 0⟩ ⟨0, 0⟩ := by
  intro h
  have hbelow : (⟨10, 1⟩ : Vector2D) ∈ changed vga ⟨10, 0⟩ ⟨0, 0⟩ :=
    mem_changed.mpr ⟨mem_rectCalls.mpr (by decide), by decide, by decide⟩
  obtain ⟨q, hin, -⟩ := h.inside 0 _ (mem_drawRect.mpr ⟨_, hbelow, rfl⟩)
  exact not_inRect_of_empty (Or.inl rfl) hin

end AlopexOS.Display
