import AlopexOS.Lib.Word
import Mathlib.Logic.Function.Basic

/-!
# `Kernel.Display` — drawing on a framebuffer (`src/kernel/display.cpp`)

A `screen` reads nothing of what it shows, so a function of it is given by its stores, in their order. Coordinates
and sizes are `u32` and wrap around; `draw_line` computes with `int`, where an overflow has no result.

## Contents
- **The framebuffer**, and memory after stores.
- **Members**: `setPixel`, `clear`, `drawLine`, `drawRect` and `fillRect`.
- **What the loops give**: `mem_upFrom`, `mem_upFrom64`, `mem_setPixel` and `after_of_color`.
-/

namespace AlopexOS.Display

/-- `vector2D<u32>`. -/
@[ext] structure Vector2D where
  x : UInt32
  y : UInt32
  deriving DecidableEq

/-- What `screen` reads of `limine_framebuffer`. -/
structure Framebuffer where
  address : UInt64
  width : UInt64
  height : UInt64
  pitch : UInt64

/-- A store of a pixel. -/
structure Store where
  addr : UInt64
  value : UInt32

/-- Memory, by the addresses of words. -/
abbrev Words := UInt64 → UInt32

/-- The words of memory after some stores. -/
def after (m : Words) (stores : List Store) : Words :=
  stores.foldl (fun m s => Function.update m s.addr s.value) m

namespace Framebuffer

variable (fb : Framebuffer)

/-- `pitch_pixels`. -/
def pitchPixels : UInt64 := fb.pitch >>> 2

/-- The address of `fb_pixels[index]`. -/
def word (index : UInt64) : UInt64 := fb.address + 4 * index

/-- The word of a point. -/
def pixel (p : Vector2D) : UInt64 := fb.word (p.y.toUInt64 * fb.pitchPixels + p.x.toUInt64)

/-- The point is on the screen. -/
def OnScreen (p : Vector2D) : Prop := p.x.toUInt64 < fb.width ∧ p.y.toUInt64 < fb.height

instance (p : Vector2D) : Decidable (fb.OnScreen p) := inferInstanceAs (Decidable (_ ∧ _))

end Framebuffer

/-! ## Members -/

/-- `for (u32 i = from; i < to; i++)`. -/
def upFrom {α : Type} (last : UInt32) (body : UInt32 → List α) (i : UInt32) : List α :=
  if i < last then body i ++ upFrom last body (i + 1) else []
termination_by last.toNat - i.toNat
decreasing_by
  rename_i h
  have hlt : i.toNat < last.toNat := h
  rw [Word.toNat_succ32_of_lt hlt]
  omega

/-- `for (u64 i = from; i < to; i++)`. -/
def upFrom64 {α : Type} (last : UInt64) (body : UInt64 → List α) (i : UInt64) : List α :=
  if i < last then body i ++ upFrom64 last body (i + 1) else []
termination_by last.toNat - i.toNat
decreasing_by
  rename_i h
  have hlt : i.toNat < last.toNat := h
  rw [Word.toNat_succ_of_lt h]
  omega

/-- `get_screen_size`, whose members are `uint`. -/
def Framebuffer.getScreenSize (fb : Framebuffer) : Vector2D := ⟨fb.width.toUInt32, fb.height.toUInt32⟩

/-- `set_pixel`; without a framebuffer the pointer is null. -/
def setPixel (fb : Option Framebuffer) (coord : Vector2D) (color : UInt32) : List Store :=
  match fb with
  | none => []
  | some fb =>
      if fb.width ≤ coord.x.toUInt64 ∨ fb.height ≤ coord.y.toUInt64 then []
      else if fb.address = 0 then []
      else [⟨fb.pixel coord, color⟩]

/-- `clear`. -/
def clear (fb : Option Framebuffer) (color : UInt32) : List Store :=
  match fb with
  | none => []
  | some fb =>
      if fb.address = 0 then []
      else
        upFrom64 fb.height (fun y =>
          let rowStart := fb.word (y * fb.pitchPixels)
          upFrom64 fb.width (fun x => [⟨rowStart + 4 * x, color⟩]) 0) 0

/-- The calls of `set_pixel` in `draw_rect`. -/
def rectCalls (fb : Framebuffer) (pos size : Vector2D) : List Vector2D :=
  let x1 := pos.x
  let y1 := pos.y
  let x2 := pos.x + size.x
  let y2 := pos.y + size.y
  let maxW := fb.width.toUInt32
  let maxH := fb.height.toUInt32
  if maxW ≤ x1 ∨ maxH ≤ y1 then []
  else
    let x2 := if maxW < x2 then maxW else x2
    let y2 := if maxH < y2 then maxH else y2
    upFrom x2 (fun x => ⟨x, y1⟩ :: if y1 < y2 - 1 then [⟨x, y2 - 1⟩] else []) x1
      ++ upFrom (y2 - 1) (fun y => ⟨x1, y⟩ :: if x1 < x2 - 1 then [⟨x2 - 1, y⟩] else []) (y1 + 1)

/-- `draw_rect`. -/
def drawRect (fb : Option Framebuffer) (pos size : Vector2D) (color : UInt32) : List Store :=
  match fb with
  | none => []
  | some fb' => (rectCalls fb' pos size).flatMap fun p => setPixel fb p color

/-- `fill_rect`. -/
def fillRect (fb : Option Framebuffer) (pos size : Vector2D) (color : UInt32) : List Store :=
  match fb with
  | none => []
  | some fb =>
      let x1 := pos.x
      let y1 := pos.y
      let x2 := pos.x + size.x
      let y2 := pos.y + size.y
      let maxW := fb.width.toUInt32
      let maxH := fb.height.toUInt32
      if maxW ≤ x1 ∨ maxH ≤ y1 then []
      else
        let x2 := if maxW < x2 then maxW else x2
        let y2 := if maxH < y2 then maxH else y2
        if fb.address = 0 then []
        else
          upFrom y2 (fun y =>
            let rowStart := fb.word (y.toUInt64 * fb.pitchPixels + x1.toUInt64)
            let width := x2 - x1
            upFrom width (fun x => [⟨rowStart + 4 * x.toUInt64, color⟩]) 0) y1

/-! ## `draw_line` -/

/-- The value of an `int` computation, which has none when it overflows. -/
def int (v : Int) : Option Int := if -2147483648 ≤ v ∧ v < 2147483648 then some v else none

/-- `static_cast<int>`. -/
def toInt (v : UInt32) : Int := v.toBitVec.toInt

/-- The variables of `draw_line` that its loop leaves alone. -/
structure Line where
  dx : Int
  sx : Int
  dy : Int
  sy : Int

/-- The variables of the loop of `draw_line`. -/
structure LineState where
  x : Int
  y : Int
  err : Int

/-- What `draw_line` computes in front of its loop, as long as no `int` overflows. -/
def Line.of (p0 p1 : Vector2D) : Option Line := do
  let dx ← int (toInt p1.x - toInt p0.x)
  let dx ← int dx.natAbs
  let dy ← int (toInt p1.y - toInt p0.y)
  let dy ← int dy.natAbs
  let dy ← int (-dy)
  pure { dx, sx := if p0.x < p1.x then 1 else -1, dy, sy := if p0.y < p1.y then 1 else -1 }

/-- The loop body behind the test. -/
def Line.step (l : Line) (s : LineState) : Option LineState := do
  let e2 ← int (2 * s.err)
  let s ←
    if l.dy ≤ e2 then do
      let err ← int (s.err + l.dy)
      let x ← int (s.x + l.sx)
      pure { s with err, x }
    else pure s
  if e2 ≤ l.dx then do
    let err ← int (s.err + l.dx)
    let y ← int (s.y + l.sy)
    pure { s with err, y }
  else pure s

/-- How `draw_line` ends, with its calls of `set_pixel`; `running` is when the fuel is used up. -/
inductive LineRun where
  | returned (calls : List Vector2D)
  | overflowed
  | running

/-- The loop of `draw_line` for at most `n` rounds. -/
def Line.loop (l : Line) (p1 : Vector2D) : Nat → LineState → List Vector2D → LineRun
  | 0, _, _ => .running
  | n + 1, s, calls =>
      let calls := calls ++ [⟨UInt32.ofInt s.x, UInt32.ofInt s.y⟩]
      if s.x = toInt p1.x ∧ s.y = toInt p1.y then .returned calls
      else
        match l.step s with
        | none => .overflowed
        | some s => l.loop p1 n s calls

/-- `draw_line` for at most `n` rounds of its loop. -/
def drawLine (n : Nat) (p0 p1 : Vector2D) : LineRun :=
  match Line.of p0 p1 with
  | none => .overflowed
  | some l =>
      match int (l.dx + l.dy) with
      | none => .overflowed
      | some err => l.loop p1 n ⟨toInt p0.x, toInt p0.y, err⟩ []

/-- The stores of `draw_line`, once it has returned. -/
def LineRun.stores (fb : Option Framebuffer) (color : UInt32) : LineRun → List Store
  | .returned calls => calls.flatMap fun p => setPixel fb p color
  | .overflowed => []
  | .running => []

/-- A framebuffer of 640 by 480 points, without room behind the rows. -/
def vga : Framebuffer := ⟨0xE0000000, 640, 480, 2560⟩

/-! ## What the loops give -/

theorem mem_upFrom {α : Type} {last : UInt32} {body : UInt32 → List α} {i : UInt32} {a : α} :
    a ∈ upFrom last body i ↔ ∃ j, i ≤ j ∧ j < last ∧ a ∈ body j := by
  induction i using upFrom.induct last with
  | case1 i hlt ih =>
      have hnext : (i + 1).toNat = i.toNat + 1 := Word.toNat_succ32_of_lt hlt
      rw [upFrom, if_pos hlt, List.mem_append, ih]
      constructor
      · rintro (hhere | ⟨j, hle, hj, hlater⟩)
        · exact ⟨i, UInt32.le_refl i, hlt, hhere⟩
        · refine ⟨j, ?_, hj, hlater⟩
          have hle' : (i + 1).toNat ≤ j.toNat := hle
          show i.toNat ≤ j.toNat
          omega
      · rintro ⟨j, hle, hj, hmem⟩
        have hle' : i.toNat ≤ j.toNat := hle
        by_cases he : j = i
        · left
          rwa [he] at hmem
        · right
          have hne : j.toNat ≠ i.toNat := fun h => he (UInt32.toNat_inj.mp h)
          refine ⟨j, ?_, hj, hmem⟩
          show (i + 1).toNat ≤ j.toNat
          omega
  | case2 i hlt =>
      rw [upFrom, if_neg hlt]
      constructor
      · intro h
        exact absurd h List.not_mem_nil
      · rintro ⟨j, hle, hj, -⟩
        exact absurd (UInt32.lt_of_le_of_lt hle hj) hlt

theorem mem_upFrom64 {α : Type} {last : UInt64} {body : UInt64 → List α} {i : UInt64} {a : α} :
    a ∈ upFrom64 last body i ↔ ∃ j, i ≤ j ∧ j < last ∧ a ∈ body j := by
  induction i using upFrom64.induct last with
  | case1 i hlt ih =>
      have hnext : (i + 1).toNat = i.toNat + 1 := Word.toNat_succ_of_lt hlt
      have hsplit : ∀ j : UInt64, i ≤ j ↔ j = i ∨ i + 1 ≤ j := by
        intro j
        rw [UInt64.le_iff_toNat_le, UInt64.le_iff_toNat_le, ← UInt64.toNat_inj, hnext]
        omega
      rw [upFrom64, if_pos hlt, List.mem_append, ih]
      constructor
      · rintro (hhere | ⟨j, hle, hj, hlater⟩)
        · exact ⟨i, UInt64.le_refl i, hlt, hhere⟩
        · exact ⟨j, (hsplit j).mpr (.inr hle), hj, hlater⟩
      · rintro ⟨j, hle, hj, hmem⟩
        rcases (hsplit j).mp hle with rfl | hnextle
        · exact .inl hmem
        · exact .inr ⟨j, hnextle, hj, hmem⟩
  | case2 i hlt =>
      rw [upFrom64, if_neg hlt]
      constructor
      · intro h
        exact absurd h List.not_mem_nil
      · rintro ⟨j, hle, hj, -⟩
        exact absurd (UInt64.lt_of_le_of_lt hle hj) hlt

variable {fb : Framebuffer} {p : Vector2D} {color : UInt32} {s : Store} {stores : List Store} {m : Words}

theorem mem_setPixel :
    s ∈ setPixel (some fb) p color ↔ fb.OnScreen p ∧ fb.address ≠ 0 ∧ s = ⟨fb.pixel p, color⟩ := by
  have hscreen : fb.OnScreen p ↔ ¬ (fb.width ≤ p.x.toUInt64 ∨ fb.height ≤ p.y.toUInt64) := by
    rw [not_or, UInt64.not_le, UInt64.not_le]
    exact Iff.rfl
  rw [setPixel, hscreen]
  by_cases hout : fb.width ≤ p.x.toUInt64 ∨ fb.height ≤ p.y.toUInt64
  · simp [hout]
  · by_cases hnull : fb.address = 0 <;> simp [hout, hnull]

/-- **Stores of one color** give the words they are to that color, and leave the others. -/
theorem after_of_color (h : ∀ s ∈ stores, s.value = color) (m : Words) (a : UInt64) :
    after m stores a = if a ∈ stores.map Store.addr then color else m a := by
  induction stores generalizing m with
  | nil => rfl
  | cons s stores ih =>
      have hrest : ∀ t ∈ stores, t.value = color := fun t ht => h t (List.mem_cons_of_mem s ht)
      have hvalue : s.value = color := h s List.mem_cons_self
      rw [after, List.foldl_cons, ← after, ih hrest, List.map_cons]
      by_cases hmem : a ∈ stores.map Store.addr
      · rw [if_pos hmem, if_pos (List.mem_cons_of_mem _ hmem)]
      · rw [if_neg hmem]
        by_cases ha : a = s.addr
        · rw [ha, Function.update_self, if_pos List.mem_cons_self, hvalue]
        · rw [Function.update_of_ne ha, if_neg]
          intro hcons
          exact (List.mem_cons.mp hcons).elim ha hmem

end AlopexOS.Display
