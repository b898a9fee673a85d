import AlopexOS.Kernel.Display
import AlopexOS.Lib.DigitalLine
import Mathlib.Data.List.Chain

/-!
# `Kernel.Lines` — `draw_line` draws a digital line

The loop of `draw_line` ends only when it is exactly at `p1`. Its error term is the one of `DigitalLine`, so on a
screen of at most `2^28` points to a side it arrives after as many steps as the longer axis has.

## Contents
- **One axis**: `place`, where a walk is after some steps.
- **A round** of the loop, and the `int` computations in it.
- **The whole line**: `drawLine_digital`.
-/

namespace AlopexOS.Display

open DigitalLine

/-! ## One axis -/

/-- `sx` and `sy`. -/
def sign (s t : UInt32) : Int := if s < t then 1 else -1

/-- The length of the way from `s` to `t`. -/
def way (s t : UInt32) : Nat := ((t.toNat : Int) - s.toNat).natAbs

/-- The coordinate after `a` steps from `s` to `t`. -/
def place (s t : UInt32) (a : Nat) : Int := s.toNat + sign s t * a

variable {s t : UInt32} {a a' : Nat}

theorem sign_cases (s t : UInt32) :
    (s.toNat < t.toNat ∧ sign s t = 1) ∨ (t.toNat ≤ s.toNat ∧ sign s t = -1) := by
  by_cases hlt : s < t
  · left
    exact ⟨hlt, if_pos hlt⟩
  · right
    exact ⟨UInt32.not_lt.mp hlt, if_neg hlt⟩

theorem place_zero (s t : UInt32) : place s t 0 = s.toNat := by simp [place]

theorem place_succ (s t : UInt32) (a : Nat) : place s t (a + 1) = place s t a + sign s t := by
  unfold place
  push_cast
  ring

/-- The coordinate is between `s` and `t`. -/
def Between (s t v : UInt32) : Prop :=
  min s.toNat t.toNat ≤ v.toNat ∧ v.toNat ≤ max s.toNat t.toNat

/-- From `v` to `w` the coordinate stays, or goes one towards `t`. -/
def Approaches (t v w : UInt32) : Prop :=
  w = v ∨ (v.toNat < t.toNat ∧ w.toNat = v.toNat + 1) ∨ (t.toNat < v.toNat ∧ w.toNat + 1 = v.toNat)

/-- The coordinate as it is given to `set_pixel`. -/
def spot (s t : UInt32) (a : Nat) : UInt32 := UInt32.ofInt (place s t a)

theorem place_cases (s t : UInt32) (a : Nat) :
    (s.toNat < t.toNat ∧ sign s t = 1 ∧ place s t a = s.toNat + a)
      ∨ (t.toNat ≤ s.toNat ∧ sign s t = -1 ∧ place s t a = s.toNat - a) := by
  unfold place
  rcases sign_cases s t with ⟨hlt, hsign⟩ | ⟨hle, hsign⟩
  · rw [hsign]
    omega
  · rw [hsign]
    omega

theorem place_eq_iff : place s t a = t.toNat ↔ a = way s t := by
  have hplace := place_cases s t a
  unfold way
  omega

/-- A walk that is not beyond `t` has a coordinate. -/
theorem toNat_spot (h : a ≤ way s t) : ((spot s t a).toNat : Int) = place s t a := by
  have hs := s.toNat_lt
  have ht := t.toNat_lt
  have hplace := place_cases s t a
  unfold way at h
  have hmod : place s t a % 2 ^ 32 = place s t a := Int.emod_eq_of_lt (by omega) (by omega)
  rw [spot, UInt32.ofInt, hmod, UInt32.toNat_ofNat_of_lt' (by show (place s t a).toNat < 2 ^ 32; omega)]
  omega

theorem sign_mul_way (s t : UInt32) : sign s t * way s t = (t.toNat : Int) - s.toNat := by
  have hend : place s t (way s t) = t.toNat := place_eq_iff.mpr rfl
  unfold place at hend
  omega

theorem spot_zero (s t : UInt32) : spot s t 0 = s := by
  have hspot : ((spot s t 0).toNat : Int) = place s t 0 := toNat_spot (Nat.zero_le _)
  rw [place_zero] at hspot
  exact UInt32.toNat_inj.mp (by omega)

theorem spot_way (s t : UInt32) : spot s t (way s t) = t := by
  have hspot : ((spot s t (way s t)).toNat : Int) = place s t (way s t) := toNat_spot (Nat.le_refl _)
  rw [place_eq_iff.mpr rfl] at hspot
  exact UInt32.toNat_inj.mp (by omega)

theorem between_spot (h : a ≤ way s t) : Between s t (spot s t a) := by
  have hspot := toNat_spot h
  have hplace := place_cases s t a
  unfold way at h
  unfold Between
  omega

theorem approaches_spot (h : a' ≤ way s t) (ha : a' = a ∨ a' = a + 1) :
    Approaches t (spot s t a) (spot s t a') := by
  rcases ha with rfl | rfl
  · left
    rfl
  · right
    have hspot : ((spot s t a).toNat : Int) = place s t a := toNat_spot (by omega)
    have hspot' := toNat_spot h
    have hplace := place_cases s t a
    rw [place_succ] at hspot'
    unfold way at h
    omega

/-! ## A round -/

/-- The coordinates are those of a screen of at most `2^28` points to a side. -/
def Small (p : Vector2D) : Prop := p.x.toNat < 2 ^ 28 ∧ p.y.toNat < 2 ^ 28

/-- The variables of the loop for the line from `p0` to `p1`. -/
def line (p0 p1 : Vector2D) : Line where
  dx := way p0.x p1.x
  sx := sign p0.x p1.x
  dy := -(way p0.y p1.y : Int)
  sy := sign p0.y p1.y

/-- The state of the loop after `a` steps on the one axis and `b` on the other. -/
def stateAfter (p0 p1 : Vector2D) (a b : Nat) : LineState where
  x := place p0.x p1.x a
  y := place p0.y p1.y b
  err := err (way p0.x p1.x) (way p0.y p1.y) a b

def pointAfter (p0 p1 : Vector2D) (a b : Nat) : Vector2D := ⟨spot p0.x p1.x a, spot p0.y p1.y b⟩

variable {p0 p1 p : Vector2D} {n b : Nat} {v : Int}

theorem int_of (h : -2147483648 ≤ v ∧ v < 2147483648) : int v = some v := if_pos h

theorem toInt_of_lt {v : UInt32} (h : v.toNat < 2 ^ 28) : toInt v = v.toNat := by
  apply BitVec.toInt_eq_toNat_of_lt
  show 2 * v.toNat < 2 ^ 32
  omega

theorem way_lt (hs : s.toNat < 2 ^ 28) (ht : t.toNat < 2 ^ 28) : way s t < 2 ^ 28 := by
  unfold way
  omega

/-- Before the loop nothing overflows. -/
theorem line_of (h0 : Small p0) (h1 : Small p1) : Line.of p0 p1 = some (line p0 p1) := by
  obtain ⟨hx0, hy0⟩ := h0
  obtain ⟨hx1, hy1⟩ := h1
  have hX := way_lt hx0 hx1
  have hY := way_lt hy0 hy1
  have hdx : int ((p1.x.toNat : Int) - p0.x.toNat) = some ((p1.x.toNat : Int) - p0.x.toNat) := int_of (by omega)
  have hdy : int ((p1.y.toNat : Int) - p0.y.toNat) = some ((p1.y.toNat : Int) - p0.y.toNat) := int_of (by omega)
  have hway : int (way p0.x p1.x : Int) = some (way p0.x p1.x : Int) := int_of (by omega)
  have hway' : int (way p0.y p1.y : Int) = some (way p0.y p1.y : Int) := int_of (by omega)
  have hneg : int (-(way p0.y p1.y : Int)) = some (-(way p0.y p1.y : Int)) := int_of (by omega)
  rw [way] at hway hway' hneg
  rw [Line.of, toInt_of_lt hx0, toInt_of_lt hy0, toInt_of_lt hx1, toInt_of_lt hy1]
  rw [hdx, Option.bind_eq_bind, Option.bind_some, hway, Option.bind_some]
  rw [hdy, Option.bind_some, hway', Option.bind_some, hneg, Option.bind_some]
  rfl

/-- **A round of the loop**: nothing overflows, and the error term is that of the new place. -/
theorem step_stateAfter (h0 : Small p0) (h1 : Small p1) (h : After (way p0.x p1.x) (way p0.y p1.y) n a b)
    (hn : n ≤ max (way p0.x p1.x) (way p0.y p1.y)) :
    (line p0 p1).step (stateAfter p0 p1 a b)
      = some (stateAfter p0 p1
          (if -(way p0.y p1.y : Int) ≤ 2 * err (way p0.x p1.x) (way p0.y p1.y) a b then a + 1 else a)
          (if 2 * err (way p0.x p1.x) (way p0.y p1.y) a b ≤ (way p0.x p1.x : Int) then b + 1 else b)) := by
  obtain ⟨hx0, hy0⟩ := h0
  obtain ⟨hx1, hy1⟩ := h1
  obtain ⟨ha, hb⟩ := h.le hn
  have herr := h.err_le
  have hleft := err_succ_left (way p0.x p1.x) (way p0.y p1.y) a b
  have hright := err_succ_right (way p0.x p1.x) (way p0.y p1.y) a b
  have hboth := err_succ_right (way p0.x p1.x) (way p0.y p1.y) (a + 1) b
  have hx := place_cases p0.x p1.x a
  have hy := place_cases p0.y p1.y b
  have hX : way p0.x p1.x < 2 ^ 28 := by unfold way; omega
  have hY : way p0.y p1.y < 2 ^ 28 := by unfold way; omega
  unfold Line.step stateAfter line
  have he2 : int (2 * err (way p0.x p1.x) (way p0.y p1.y) a b)
      = some (2 * err (way p0.x p1.x) (way p0.y p1.y) a b) := int_of (by omega)
  have hstepx : int (err (way p0.x p1.x) (way p0.y p1.y) a b + -(way p0.y p1.y : Int))
      = some (err (way p0.x p1.x) (way p0.y p1.y) (a + 1) b) := by
    rw [hleft]
    exact int_of (by omega)
  have hplacex : int (place p0.x p1.x a + sign p0.x p1.x) = some (place p0.x p1.x (a + 1)) := by
    rw [place_succ]
    exact int_of (by omega)
  have hplacey : int (place p0.y p1.y b + sign p0.y p1.y) = some (place p0.y p1.y (b + 1)) := by
    rw [place_succ]
    exact int_of (by omega)
  have hstepy : ∀ a', (err (way p0.x p1.x) (way p0.y p1.y) a' b).natAbs ≤ 2 ^ 30 →
      int (err (way p0.x p1.x) (way p0.y p1.y) a' b + (way p0.x p1.x : Int))
        = some (err (way p0.x p1.x) (way p0.y p1.y) a' (b + 1)) := by
    intro a' ha'
    rw [err_succ_right]
    exact int_of (by omega)
  rw [he2, Option.bind_eq_bind, Option.bind_some]
  by_cases hfirst : -(way p0.y p1.y : Int) ≤ 2 * err (way p0.x p1.x) (way p0.y p1.y) a b
  · rw [if_pos hfirst, if_pos hfirst, hstepx, Option.bind_some, hplacex, Option.bind_some]
    by_cases hsecond : 2 * err (way p0.x p1.x) (way p0.y p1.y) a b ≤ (way p0.x p1.x : Int)
    · simp only [if_pos hsecond, pure_bind]
      rw [hstepy (a + 1) (by omega), Option.bind_some, hplacey]
      rfl
    · simp only [if_neg hsecond]
      rfl
  · rw [if_neg hfirst, if_neg hfirst]
    by_cases hsecond : 2 * err (way p0.x p1.x) (way p0.y p1.y) a b ≤ (way p0.x p1.x : Int)
    · simp only [if_pos hsecond, pure_bind]
      rw [hstepy a (by omega), Option.bind_some, hplacey]
      rfl
    · simp only [if_neg hsecond]
      rfl

/-! ## The whole line -/

/-- The point is near the line, in terms of its longer axis. -/
def Near (p0 p1 p : Vector2D) : Prop :=
  2 * (((p.x.toNat : Int) - p0.x.toNat) * ((p1.y.toNat : Int) - p0.y.toNat)
      - ((p.y.toNat : Int) - p0.y.toNat) * ((p1.x.toNat : Int) - p0.x.toNat)).natAbs
    ≤ max (way p0.x p1.x) (way p0.y p1.y)

/-- What the points of a line from `p0` to `p1` are. -/
structure IsLine (p0 p1 : Vector2D) (calls : List Vector2D) : Prop where
  length : calls.length = max (way p0.x p1.x) (way p0.y p1.y) + 1
  first : calls.head? = some p0
  last : calls.getLast? = some p1
  approaches : calls.IsChain fun p q => Approaches p1.x p.x q.x ∧ Approaches p1.y p.y q.y
  between : ∀ p ∈ calls, Between p0.x p1.x p.x ∧ Between p0.y p1.y p.y
  near : ∀ p ∈ calls, Near p0 p1 p

/-- The walk has come to the place after `a` and `b` steps, with the calls before that. -/
structure Walked (p0 p1 : Vector2D) (n a b : Nat) (calls : List Vector2D) : Prop where
  after : After (way p0.x p1.x) (way p0.y p1.y) n a b
  le : n ≤ max (way p0.x p1.x) (way p0.y p1.y)
  length : calls.length = n
  first : (calls ++ [pointAfter p0 p1 a b]).head? = some p0
  approaches : (calls ++ [pointAfter p0 p1 a b]).IsChain
    fun p q => Approaches p1.x p.x q.x ∧ Approaches p1.y p.y q.y
  between : ∀ p ∈ calls ++ [pointAfter p0 p1 a b], Between p0.x p1.x p.x ∧ Between p0.y p1.y p.y
  near : ∀ p ∈ calls ++ [pointAfter p0 p1 a b], Near p0 p1 p

theorem near_pointAfter (h : After (way p0.x p1.x) (way p0.y p1.y) n a b)
    (hn : n ≤ max (way p0.x p1.x) (way p0.y p1.y)) : Near p0 p1 (pointAfter p0 p1 a b) := by
  obtain ⟨ha, hb⟩ := h.le hn
  have hx : ((spot p0.x p1.x a).toNat : Int) - p0.x.toNat = sign p0.x p1.x * a := by
    rw [toNat_spot ha, place]
    ring
  have hy : ((spot p0.y p1.y b).toNat : Int) - p0.y.toNat = sign p0.y p1.y * b := by
    rw [toNat_spot hb, place]
    ring
  have hunit : ∀ s t, (sign s t).natAbs = 1 := by
    intro s t
    rcases sign_cases s t with ⟨-, hsign⟩ | ⟨-, hsign⟩
    · rw [hsign]
      rfl
    · rw [hsign]
      rfl
  have hdeviation : sign p0.x p1.x * a * (sign p0.y p1.y * way p0.y p1.y)
      - sign p0.y p1.y * b * (sign p0.x p1.x * way p0.x p1.x)
        = sign p0.x p1.x * sign p0.y p1.y * deviation (way p0.x p1.x) (way p0.y p1.y) a b := by
    unfold deviation
    ring
  unfold Near pointAfter
  rw [hx, hy, ← sign_mul_way p0.x p1.x, ← sign_mul_way p0.y p1.y, hdeviation, Int.natAbs_mul, Int.natAbs_mul,
    hunit, hunit, Nat.one_mul]
  exact h.near

theorem between_pointAfter (h : After (way p0.x p1.x) (way p0.y p1.y) n a b)
    (hn : n ≤ max (way p0.x p1.x) (way p0.y p1.y)) :
    Between p0.x p1.x (pointAfter p0 p1 a b).x ∧ Between p0.y p1.y (pointAfter p0 p1 a b).y := by
  obtain ⟨ha, hb⟩ := h.le hn
  exact ⟨between_spot ha, between_spot hb⟩

theorem walked_start (p0 p1 : Vector2D) : Walked p0 p1 0 0 0 [] := by
  have hstart : After (way p0.x p1.x) (way p0.y p1.y) 0 0 0 := .start _ _
  have hle : 0 ≤ max (way p0.x p1.x) (way p0.y p1.y) := Nat.zero_le _
  have hpoint : pointAfter p0 p1 0 0 = p0 := by rw [pointAfter, spot_zero, spot_zero]
  constructor
  · exact hstart
  · exact hle
  · rfl
  · rw [hpoint]
    rfl
  · exact List.isChain_singleton _
  · intro p hp
    rw [List.mem_singleton.mp hp]
    exact between_pointAfter hstart hle
  · intro p hp
    rw [List.mem_singleton.mp hp]
    exact near_pointAfter hstart hle

/-- **A step** goes on, as far as the longer axis is long. -/
theorem Walked.next {calls : List Vector2D} (h : Walked p0 p1 n a b calls)
    (hn : n < max (way p0.x p1.x) (way p0.y p1.y)) :
    Walked p0 p1 (n + 1)
      (if -(way p0.y p1.y : Int) ≤ 2 * err (way p0.x p1.x) (way p0.y p1.y) a b then a + 1 else a)
      (if 2 * err (way p0.x p1.x) (way p0.y p1.y) a b ≤ (way p0.x p1.x : Int) then b + 1 else b)
      (calls ++ [pointAfter p0 p1 a b]) := by
  have hnext := h.after.next
  obtain ⟨a', ha', hastep⟩ : ∃ a',
      (if -(way p0.y p1.y : Int) ≤ 2 * err (way p0.x p1.x) (way p0.y p1.y) a b then a + 1 else a) = a'
        ∧ (a' = a ∨ a' = a + 1) := ⟨_, rfl, by split <;> simp⟩
  obtain ⟨b', hb', hbstep⟩ : ∃ b',
      (if 2 * err (way p0.x p1.x) (way p0.y p1.y) a b ≤ (way p0.x p1.x : Int) then b + 1 else b) = b'
        ∧ (b' = b ∨ b' = b + 1) := ⟨_, rfl, by split <;> simp⟩
  rw [ha', hb'] at hnext ⊢
  obtain ⟨ha, hb⟩ := hnext.le hn
  constructor
  · exact hnext
  · exact hn
  · rw [List.length_append, h.length, List.length_singleton]
  · rw [List.head?_append, h.first, Option.some_or]
  · refine List.isChain_append.mpr ⟨h.approaches, List.isChain_singleton _, ?_⟩
    intro p hp q hq
    rw [List.getLast?_concat, Option.mem_some_iff] at hp
    rw [List.head?_singleton, Option.mem_some_iff] at hq
    rw [← hp, ← hq]
    exact ⟨approaches_spot ha hastep, approaches_spot hb hbstep⟩
  · intro p hp
    rcases List.mem_append.mp hp with hold | hnew
    · exact h.between p hold
    · rw [List.mem_singleton.mp hnew]
      exact between_pointAfter hnext hn
  · intro p hp
    rcases List.mem_append.mp hp with hold | hnew
    · exact h.near p hold
    · rw [List.mem_singleton.mp hnew]
      exact near_pointAfter hnext hn

/-- A walk as long as the longer axis is a line. -/
theorem Walked.isLine {calls : List Vector2D} (h : Walked p0 p1 n a b calls)
    (hn : n = max (way p0.x p1.x) (way p0.y p1.y)) : IsLine p0 p1 (calls ++ [pointAfter p0 p1 a b]) where
  length := by rw [List.length_append, h.length, hn, List.length_singleton]
  first := h.first
  last := by
    obtain ⟨ha, hb⟩ := (h.after.arrives_iff h.le).mpr hn
    rw [List.getLast?_concat, pointAfter, ha, hb, spot_way, spot_way]
  approaches := h.approaches
  between := h.between
  near := h.near

/-- **The loop** arrives after the rounds that are left to the length of the longer axis. -/
theorem loop_of_walked (h0 : Small p0) (h1 : Small p1) {k : Nat} {calls : List Vector2D}
    (h : Walked p0 p1 n a b calls) (hk : n + k = max (way p0.x p1.x) (way p0.y p1.y)) :
    ∃ calls', IsLine p0 p1 calls'
      ∧ ∀ fuel, k < fuel → (line p0 p1).loop p1 fuel (stateAfter p0 p1 a b) calls = .returned calls' := by
  have htest : ∀ {n a b : Nat} {calls : List Vector2D}, Walked p0 p1 n a b calls →
      (((stateAfter p0 p1 a b).x = toInt p1.x ∧ (stateAfter p0 p1 a b).y = toInt p1.y)
        ↔ n = max (way p0.x p1.x) (way p0.y p1.y)) := by
    intro n a b calls h
    rw [toInt_of_lt h1.1, toInt_of_lt h1.2, ← h.after.arrives_iff h.le]
    exact and_congr place_eq_iff place_eq_iff
  induction k generalizing n a b calls with
  | zero =>
      refine ⟨_, h.isLine hk, ?_⟩
      intro fuel hfuel
      obtain ⟨fuel, rfl⟩ : ∃ m, fuel = m + 1 := ⟨fuel - 1, by omega⟩
      rw [Line.loop, if_pos ((htest h).mpr hk)]
      rfl
  | succ k ih =>
      have hlt : n < max (way p0.x p1.x) (way p0.y p1.y) := by omega
      obtain ⟨calls', hline, hloop⟩ := ih (h.next hlt) (by omega)
      refine ⟨calls', hline, ?_⟩
      intro fuel hfuel
      obtain ⟨fuel, rfl⟩ : ∃ m, fuel = m + 1 := ⟨fuel - 1, by omega⟩
      have hrest := hloop fuel (by omega)
      rw [Line.loop, if_neg (fun he => absurd ((htest h).mp he) (Nat.ne_of_lt hlt)),
        step_stateAfter h0 h1 h.after h.le]
      exact hrest

/-- **`draw_line` draws a digital line** between two points of the screen, in as many calls as the longer axis
    has points. -/
theorem drawLine_digital {fb : Framebuffer} (hw : fb.width.toNat ≤ 2 ^ 28) (hh : fb.height.toNat ≤ 2 ^ 28)
    (h0 : fb.OnScreen p0) (h1 : fb.OnScreen p1) :
    ∃ calls, IsLine p0 p1 calls ∧ ∀ n, calls.length ≤ n → drawLine n p0 p1 = .returned calls := by
  have hsmall : ∀ p, fb.OnScreen p → Small p := by
    rintro p ⟨hx, hy⟩
    have hx' : p.x.toNat < fb.width.toNat := hx
    have hy' : p.y.toNat < fb.height.toNat := hy
    exact ⟨by omega, by omega⟩
  have hp0 := hsmall p0 h0
  have hp1 := hsmall p1 h1
  obtain ⟨calls, hline, hloop⟩ := loop_of_walked hp0 hp1 (walked_start p0 p1) (Nat.zero_add _)
  refine ⟨calls, hline, ?_⟩
  intro n hn
  have hlength := hline.length
  have hX := way_lt hp0.1 hp1.1
  have hY := way_lt hp0.2 hp1.2
  have hinit : int ((line p0 p1).dx + (line p0 p1).dy) = some (err (way p0.x p1.x) (way p0.y p1.y) 0 0) := by
    have herr : (line p0 p1).dx + (line p0 p1).dy = err (way p0.x p1.x) (way p0.y p1.y) 0 0 := by
      simp [line, err, Int.sub_eq_add_neg]
    rw [herr, err_eq, deviation]
    exact int_of (by omega)
  rw [drawLine, line_of hp0 hp1]
  simp only [hinit, toInt_of_lt hp0.1, toInt_of_lt hp0.2]
  rw [← place_zero p0.x p1.x, ← place_zero p0.y p1.y]
  exact hloop n (by omega)

theorem drawLine_digital_vga :
    ∃ calls, IsLine ⟨3, 5⟩ ⟨8, 2⟩ calls ∧ ∀ n, calls.length ≤ n → drawLine n ⟨3, 5⟩ ⟨8, 2⟩ = .returned calls :=
  drawLine_digital (show vga.width.toNat ≤ 2 ^ 28 by decide) (by decide) (by decide) (by decide)

end AlopexOS.Display
