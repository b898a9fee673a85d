import Mathlib.Data.List.TakeWhile

/-!
# `Lib.CString` — NUL-terminated strings in bounded arrays

`cstr f i n` is the string that starts at index `i` of the byte function `f`, read for at most `n`
bytes: everything before the first NUL, or all `n` bytes when there is none. An array that is full has
no terminator, so a shorter view of it is a different string; `cstr_eq_of_lt` says when two views agree.
-/

namespace CString

/-- The bytes of `f` from `i` on, before the first NUL and at most `n` of them. -/
def cstr (f : Nat → UInt8) : Nat → Nat → List UInt8
  | _, 0 => []
  | i, n + 1 => if f i = 0 then [] else f i :: cstr f (i + 1) n

variable {f g : Nat → UInt8}

theorem cstr_succ {i n : Nat} : cstr f i (n + 1) = if f i = 0 then [] else f i :: cstr f (i + 1) n := rfl

theorem length_cstr_le (f : Nat → UInt8) (i n : Nat) : (cstr f i n).length ≤ n := by
  induction n generalizing i with
  | zero => simp [cstr]
  | succ n ih =>
      have := ih (i + 1)
      simp only [cstr]
      split
      · simp
      · simp only [List.length_cons]
        omega

theorem zero_not_mem_cstr (f : Nat → UInt8) (i n : Nat) : 0 ∉ cstr f i n := by
  induction n generalizing i with
  | zero => simp [cstr]
  | succ n ih =>
      simp only [cstr]
      split
      · simp
      · rename_i h
        simp only [List.mem_cons, not_or]
        exact ⟨fun h0 => h h0.symm, ih (i + 1)⟩

/-- The bytes of the string are the bytes of the array. -/
theorem getElem_cstr {i n k : Nat} (h : k < (cstr f i n).length) : (cstr f i n)[k] = f (i + k) := by
  induction n generalizing i k with
  | zero => simp [cstr] at h
  | succ n ih =>
      by_cases h0 : f i = 0
      · simp [cstr, h0] at h
      · cases k with
        | zero => simp [cstr, h0]
        | succ k =>
            have hk : k < (cstr f (i + 1) n).length := by simpa [cstr, h0] using h
            have := ih hk
            simp only [cstr, h0, if_false, List.getElem_cons_succ, this]
            congr 1
            omega

/-- **Two bounds that both exceed the length see the same string.** -/
theorem cstr_eq_of_lt {i n n' : Nat} (h : (cstr f i n).length < n)
    (h' : (cstr f i n).length < n') : cstr f i n' = cstr f i n := by
  induction n generalizing i n' with
  | zero => omega
  | succ n ih =>
      obtain ⟨n', rfl⟩ : ∃ k, n' = k + 1 := ⟨n' - 1, by omega⟩
      by_cases h0 : f i = 0
      · simp [cstr, h0]
      · have hlen : (cstr f (i + 1) n).length < n := by simpa [cstr, h0] using h
        have hlen' : (cstr f (i + 1) n).length < n' := by simpa [cstr, h0] using h'
        rw [cstr, cstr, if_neg h0, if_neg h0, ih hlen hlen']

/-- **A shorter bound** cuts the string. -/
theorem cstr_eq_take {i n n' : Nat} (h : n ≤ n') : cstr f i n = (cstr f i n').take n := by
  induction n generalizing i n' with
  | zero => rw [List.take_zero, cstr]
  | succ n ih =>
      obtain ⟨n', rfl⟩ : ∃ k, n' = k + 1 := ⟨n' - 1, by omega⟩
      by_cases h0 : f i = 0
      · simp [cstr, h0]
      · rw [cstr, cstr, if_neg h0, if_neg h0, List.take_succ_cons, ih (Nat.le_of_succ_le_succ h)]

/-- **The string of a list** with NULs behind it. -/
theorem cstr_eq_takeWhile {l : List UInt8} {i n : Nat} (h : ∀ k, k < n → f (i + k) = l.getD k 0) :
    cstr f i n = (l.take n).takeWhile (· ≠ 0) := by
  induction n generalizing l i with
  | zero => rfl
  | succ n ih =>
      have hfirst := h 0 (Nat.succ_pos n)
      cases l with
      | nil =>
          rw [cstr_succ, if_pos (by simpa using hfirst)]
          rfl
      | cons x l =>
          have hx : f i = x := by simpa using hfirst
          have htail : cstr f (i + 1) n = (l.take n).takeWhile (· ≠ 0) := by
            apply ih
            intro k hk
            rw [Nat.add_assoc, Nat.add_comm 1]
            exact h (k + 1) (by omega)
          rw [cstr_succ, hx, List.take_succ_cons, List.takeWhile_cons, htail]
          by_cases h0 : x = 0 <;> simp [h0]

/-- An array that spells a NUL-free list and then a NUL holds that string. -/
theorem cstr_of_spelled {l : List UInt8} {i n : Nat} (hl : 0 ∉ l) (hn : l.length < n)
    (hb : ∀ (k : Nat) (hk : k < l.length), f (i + k) = l[k]) (h0 : f (i + l.length) = 0) :
    cstr f i n = l := by
  induction l generalizing i n with
  | nil =>
      obtain ⟨n, rfl⟩ : ∃ k, n = k + 1 := ⟨n - 1, by simp at hn; omega⟩
      have : f i = 0 := by simpa using h0
      simp [cstr, this]
  | cons x l ih =>
      obtain ⟨n, rfl⟩ : ∃ k, n = k + 1 := ⟨n - 1, by simp at hn; omega⟩
      simp only [List.mem_cons, not_or] at hl
      simp only [List.length_cons] at hn hb h0
      have hx : f i = x := by simpa using hb 0 (by omega)
      have hne : f i ≠ 0 := by
        rw [hx]
        exact fun h => hl.1 h.symm
      have htail : cstr f (i + 1) n = l := by
        apply ih hl.2 (by omega)
        · intro k hk
          have := hb (k + 1) (by omega)
          simpa [Nat.add_assoc, Nat.add_comm 1 k] using this
        · rw [show i + 1 + l.length = i + (l.length + 1) by omega]
          exact h0
      rw [cstr, if_neg hne, htail, hx]

/-! ## Lists with NULs -/

theorem takeWhile_append_of_not_mem {l : List UInt8} (h : 0 ∉ l) (l' : List UInt8) :
    (l ++ l').takeWhile (· ≠ 0) = l ++ l'.takeWhile (· ≠ 0) := by
  refine List.takeWhile_append_of_pos fun b hb => decide_eq_true ?_
  rintro rfl
  exact h hb

theorem takeWhile_eq_self {l : List UInt8} (h : 0 ∉ l) : l.takeWhile (· ≠ 0) = l := by
  have happend := takeWhile_append_of_not_mem h []
  rwa [List.append_nil, List.takeWhile_nil, List.append_nil] at happend

theorem length_takeWhile_lt {l : List UInt8} (h : 0 ∈ l) : (l.takeWhile (· ≠ 0)).length < l.length := by
  refine lt_of_le_of_ne (List.takeWhile_prefix _).length_le fun heq => ?_
  have hself := (List.takeWhile_prefix (l := l) (· ≠ 0)).eq_of_length heq
  exact absurd (List.takeWhile_eq_self_iff.mp hself 0 h) (by simp)

/-- Nothing behind a NUL counts. -/
theorem takeWhile_append_of_mem {l : List UInt8} (h : 0 ∈ l) (l' : List UInt8) :
    (l ++ l').takeWhile (· ≠ 0) = l.takeWhile (· ≠ 0) := by
  rw [List.takeWhile_append, if_neg (length_takeWhile_lt h).ne]

theorem takeWhile_append_zeros (l : List UInt8) (n : Nat) :
    (l ++ List.replicate n 0).takeWhile (· ≠ 0) = l.takeWhile (· ≠ 0) := by
  by_cases h : 0 ∈ l
  · exact takeWhile_append_of_mem h _
  · rw [takeWhile_append_of_not_mem h, takeWhile_eq_self h]
    cases n <;> simp

end CString
