import AlopexOS.Lib.ByteString
import AlopexOS.Lib.Run
import Mathlib.Data.List.Forall2

/-!
# `Lib.BlockStore` — contents under names, kept in blocks

A store keeps a byte string under each name and counts the blocks that are free. A content takes the blocks
it fills and one more, and it keeps the length it was made with: what a write puts behind that is lost. A
write may be cut short. A content that is made comes into sight all at once or not at all; one that is
written over has the new bytes up to the start of some block, and the old ones from there on.

Names are `Option ν`: a content that is made under `none` takes its blocks and is never seen again.

## Contents
- **Stores**, and what a write makes of a content.
- **`Writes`** and **`Step`**: what comes of a write.
- **Runs**: contents are a replay of the writes, and no block is lost.
- **Runs with writes that were cut**: each block of a content is as if each of them had been done or not.
-/

open ByteString

/-- Contents under names, and the number of free blocks. -/
structure BlockStore (ν : Type) where
  content : ν → Option (List UInt8)
  free : Nat

namespace BlockStore

variable {ν : Type} {n : Nat}

/-! ## Stores -/

/-- Data for a place in a content. -/
structure Write where
  off : Nat
  data : List UInt8

/-- Where the data end. -/
def Write.size (w : Write) : Nat := w.off + w.data.length

/-- What a write makes of a content: it is made when there was none, and keeps its length when there was. -/
def Write.onto (w : Write) : Option (List UInt8) → List UInt8
  | none => overlay [] w.data w.off
  | some x => (overlay x w.data w.off).take x.length

/-- The first `j` blocks of `y`, and `x` from there on. -/
def splice (n j : Nat) (x y : List UInt8) : List UInt8 := y.take (j * n) ++ x.drop (j * n)

/-- The blocks a content takes. -/
def cost (n : Nat) : Option (List UInt8) → Nat
  | none => 0
  | some x => 1 + blocksFor n x.length

/-- The blocks that a write wants on top of those the content has. -/
def lacking (n : Nat) (w : Write) : Option (List UInt8) → Nat
  | none => 1 + blocksFor n w.size
  | some x => blocksFor n (max x.length w.size) - blocksFor n x.length

/-- The store with nothing in it. -/
def blank (free : Nat) : BlockStore ν := ⟨fun _ => none, free⟩

variable {s s' : BlockStore ν} {p : Option ν} {v : ν} {w : Write} {x y : List UInt8}

/-- The content under a name. What has no name has none. -/
def get (s : BlockStore ν) (p : Option ν) : Option (List UInt8) := p.bind s.content

@[simp] theorem get_some : s.get (some v) = s.content v := rfl

@[simp] theorem get_none : s.get none = none := rfl

section put

variable [DecidableEq ν]

/-- The store with another content under a name. -/
def put (s : BlockStore ν) (p : Option ν) (x : List UInt8) : BlockStore ν :=
  { s with content := fun v => if p = some v then some x else s.content v }

@[simp] theorem free_put : (s.put p x).free = s.free := rfl

theorem content_put_self : (s.put (some v) x).content v = some x := if_pos rfl

theorem content_put_of_ne (h : p ≠ some v) : (s.put p x).content v = s.content v := if_neg h

end put

@[simp] theorem length_onto_some : (w.onto (some x)).length = x.length := by
  simp only [Write.onto, List.length_take, length_overlay]
  omega

@[simp] theorem length_onto_none : (w.onto none).length = w.size := by
  simp [Write.onto, Write.size]

theorem length_splice (h : x.length = y.length) (j : Nat) : (splice n j x y).length = x.length := by
  simp only [splice, List.length_append, List.length_take, List.length_drop]
  omega

/-- A byte of a content that was written over. -/
theorem getD_onto (w : Write) (x : List UInt8) (i : Nat) :
    (w.onto (some x)).getD i 0
      = if i < x.length ∧ w.off ≤ i ∧ i < w.size then w.data.getD (i - w.off) 0 else x.getD i 0 := by
  by_cases hi : i < x.length
  · have hlen : i < (w.onto (some x)).length := by rwa [length_onto_some]
    rw [List.getD_eq_getElem _ _ hlen]
    simp only [Write.onto, List.getElem_take, getElem_overlay, Write.size, hi, true_and]
  · rw [if_neg fun h => hi h.1, List.getD_eq_default _ _ (by rw [length_onto_some]; omega),
      List.getD_eq_default _ _ (by omega)]

theorem getD_splice (h : x.length = y.length) (j i : Nat) :
    (splice n j x y).getD i 0 = if i < j * n then y.getD i 0 else x.getD i 0 := by
  unfold splice
  by_cases hi : i < (y.take (j * n)).length
  · have hlt : i < j * n ∧ i < y.length := by
      rw [List.length_take] at hi
      omega
    rw [List.getD_append _ _ _ _ hi, if_pos hlt.1, List.getD_eq_getElem _ _ hi, List.getElem_take,
      List.getD_eq_getElem _ _ hlt.2]
  · rw [List.getD_append_right _ _ _ _ (Nat.not_lt.mp hi)]
    rw [List.length_take] at hi ⊢
    by_cases hj : i < j * n
    · -- both strings are over
      rw [if_pos hj, List.getD_eq_default y 0 (by omega),
        List.getD_eq_default _ _ (by rw [List.length_drop]; omega)]
    · rw [if_neg hj]
      by_cases hlen : j * n ≤ y.length
      · rw [List.getD_eq_getElem?_getD, List.getElem?_drop, List.getD_eq_getElem?_getD]
        congr 2
        omega
      · rw [List.getD_eq_default x 0 (by omega), List.getD_eq_default _ _ (by rw [List.length_drop]; omega)]

/-- **Blocks are written one by one**: what becomes of a block depends on the block alone. -/
theorem chunk_onto (hlen : x.length = y.length) {b : Nat} (h : chunk n x b = chunk n y b) (w : Write) :
    chunk n (w.onto (some x)) b = chunk n (w.onto (some y)) b := by
  funext k
  have hk : x.getD (b * n + k) 0 = y.getD (b * n + k) 0 := congrFun h k
  unfold chunk
  rw [getD_onto, getD_onto, hlen, hk]

theorem chunk_splice (hlen : x.length = y.length) (j b : Nat) :
    chunk n (splice n j x y) b = if b < j then chunk n y b else chunk n x b := by
  have hin : ∀ k : Fin n, b * n + k < j * n ↔ b < j := by
    intro k
    constructor
    · intro h
      by_contra hge
      have := Nat.mul_le_mul_right n (Nat.not_lt.mp hge)
      omega
    · intro h
      have hle := Nat.mul_le_mul_right n (Nat.succ_le_of_lt h)
      rw [Nat.succ_mul] at hle
      have := k.isLt
      omega
  split
  · rename_i h
    funext k
    exact (getD_splice hlen j _).trans (if_pos ((hin k).mpr h))
  · rename_i h
    funext k
    exact (getD_splice hlen j _).trans (if_neg fun hk => h ((hin k).mp hk))

/-! ## Writes -/

variable [DecidableEq ν]

/-- What comes of a write: there was nothing to write, or no room, or it was done, or it was cut short. -/
inductive Outcome where
  | empty
  | full
  | done
  | cut
  deriving DecidableEq, Repr

/-- A write under a name. There is no rule for one that wants more blocks for a content that is there and
    has them: a content never grows. -/
inductive Writes (n : Nat) (s : BlockStore ν) (p : Option ν) (w : Write) : Outcome → BlockStore ν → Prop
  | empty (hp : s.get p = none) (h0 : w.size = 0) : Writes n s p w .empty s
  | full (h : s.free < lacking n w (s.get p)) : Writes n s p w .full s
  | made (hp : s.get p = none) (h0 : 0 < w.size) (h : lacking n w none ≤ s.free) :
      Writes n s p w .done { s.put p (w.onto none) with free := s.free - lacking n w none }
  | unmade (hp : s.get p = none) (h0 : 0 < w.size) (h : lacking n w none ≤ s.free) :
      Writes n s p w .cut s
  | replaced {x : List UInt8} (hp : s.get p = some x) (h : lacking n w (some x) = 0) :
      Writes n s p w .done (s.put p (w.onto (some x)))
  | torn {x : List UInt8} (hp : s.get p = some x) (h : lacking n w (some x) = 0) (j : Nat) :
      Writes n s p w .cut (s.put p (splice n j x (w.onto (some x))))

/-- What happens to a store. -/
inductive Event (ν : Type) where
  /-- All contents are dropped, and so many blocks are free. -/
  | clear (free : Nat)
  | write (p : Option ν) (w : Write) (o : Outcome)

/-- An event leads from a store to the next. -/
inductive Step (n : Nat) (s : BlockStore ν) : Event ν → BlockStore ν → Prop
  | clear (free : Nat) : Step n s (.clear free) (blank free)
  | write {p : Option ν} {w : Write} {o : Outcome} {s' : BlockStore ν} (h : Writes n s p w o s') :
      Step n s (.write p w o) s'

/-- A content under another name stays. -/
theorem Writes.content_of_ne {o : Outcome} (h : Writes n s p w o s') (hv : p ≠ some v) :
    s'.content v = s.content v := by
  cases h with
  | empty _ _ => rfl
  | full _ => rfl
  | made _ _ _ => exact content_put_of_ne hv
  | unmade _ _ _ => rfl
  | replaced _ _ => exact content_put_of_ne hv
  | torn _ _ _ => exact content_put_of_ne hv

/-- A write under a name that comes to an end leaves what `onto` makes of the content, or the content. -/
theorem Writes.content_self {o : Outcome} (h : Writes n s (some v) w o s') (ho : o ≠ .cut) :
    s'.content v = if o = .done then some (w.onto (s.content v)) else s.content v := by
  cases h with
  | empty _ _ => rfl
  | full _ => rfl
  | made hp _ _ =>
      rw [get_some] at hp
      rw [if_pos rfl, hp]
      exact content_put_self
  | unmade _ _ _ => exact absurd rfl ho
  | replaced hp _ =>
      rw [get_some] at hp
      rw [if_pos rfl, hp]
      exact content_put_self
  | torn _ _ _ => exact absurd rfl ho

/-- A write under a name takes off the free blocks what the content grows by. -/
theorem Writes.space {o : Outcome} (h : Writes n s (some v) w o s') :
    s'.free + cost n (s'.content v) = s.free + cost n (s.content v) := by
  have hcost : ∀ {x y : List UInt8}, x.length = y.length → cost n (some x) = cost n (some y) := by
    intro x y hlen
    simp only [cost, hlen]
  cases h with
  | empty _ _ => rfl
  | full _ => rfl
  | made hp _ hfit =>
      rw [get_some] at hp
      show s.free - lacking n w none + cost n ((s.put (some v) (w.onto none)).content v) = _
      rw [content_put_self, hp]
      simp only [cost, lacking, length_onto_none] at hfit ⊢
      omega
  | unmade _ _ _ => rfl
  | replaced hp _ =>
      rw [get_some] at hp
      rw [content_put_self, hp, free_put, hcost length_onto_some]
  | torn hp _ j =>
      rw [get_some] at hp
      rw [content_put_self, hp, free_put, hcost (length_splice length_onto_some.symm j)]

/-! ## Runs -/

variable {es rs : List (Event ν)} {e : Event ν}

/-- What an event makes of the content under `v`, when only writes that were done count. -/
def Event.replay (v : ν) (x : Option (List UInt8)) : Event ν → Option (List UInt8)
  | .clear _ => none
  | .write p w o => if p = some v ∧ o = .done then some (w.onto x) else x

/-- A write under `v` was cut short. -/
def Event.IsCut (v : ν) : Event ν → Prop
  | .clear _ => False
  | .write p _ o => p = some v ∧ o = .cut

instance (v : ν) (e : Event ν) : Decidable (e.IsCut v) := by
  cases e with
  | clear _ => exact instDecidableFalse
  | write p _ o => exact inferInstanceAs (Decidable (p = some v ∧ o = .cut))

theorem Step.content_eq (h : Step n s e s') (hcut : ¬ e.IsCut v) :
    s'.content v = e.replay v (s.content v) := by
  cases h with
  | clear free => rfl
  | @write p w o s' h =>
      show _ = if p = some v ∧ o = .done then some (w.onto (s.content v)) else s.content v
      by_cases hp : p = some v
      · subst hp
        rw [h.content_self fun ho => hcut ⟨rfl, ho⟩]
        simp only [true_and]
      · rw [if_neg fun hc => hp hc.1]
        exact h.content_of_ne hp

/-- **Contents are a replay of the writes**, as long as none under the name is cut short. -/
theorem content_of_run (h : Run (Step n) s es s') (hcut : ∀ e ∈ es, ¬ e.IsCut v) :
    s'.content v = es.foldl (Event.replay v) (s.content v) := by
  induction h with
  | start => rfl
  | step _ ha ih =>
      obtain ⟨hes, he⟩ := List.forall_mem_append.mp hcut
      rw [ha.content_eq (he _ List.mem_cons_self), ih hes, List.foldl_append]
      rfl

/-! ### Space -/

/-- The blocks that the contents under some names take. -/
def taken (n : Nat) (s : BlockStore ν) (names : List ν) : Nat := (names.map fun v => cost n (s.content v)).sum

omit [DecidableEq ν] in
theorem taken_congr {names : List ν} (h : ∀ v ∈ names, s'.content v = s.content v) :
    taken n s' names = taken n s names := by
  unfold taken
  congr 1
  apply List.map_congr_left
  intro v hv
  rw [h v hv]

omit [DecidableEq ν] in
theorem taken_change {names : List ν} (hnodup : names.Nodup) (hv : v ∈ names)
    (h : ∀ u, u ≠ v → s'.content u = s.content u) :
    taken n s' names + cost n (s.content v) = taken n s names + cost n (s'.content v) := by
  induction names with
  | nil => cases hv
  | cons u names ih =>
      obtain ⟨hu, hnodup⟩ := List.nodup_cons.mp hnodup
      have hcons : ∀ t : BlockStore ν, taken n t (u :: names) = cost n (t.content u) + taken n t names :=
        fun t => by simp only [taken, List.map_cons, List.sum_cons]
      rw [hcons, hcons]
      rcases List.mem_cons.mp hv with rfl | hmem
      · have hrest : taken n s' names = taken n s names :=
          taken_congr fun w hw => h w fun heq => hu (heq ▸ hw)
        omega
      · have hne : u ≠ v := fun heq => hu (heq ▸ hmem)
        have := ih hnodup hmem
        rw [h u hne]
        omega

/-- **No block is lost**: what the contents take and what is free add up to the same, whatever is cut
    short. -/
theorem space_of_run {names : List ν} (h : Run (Step n) s es s') (hnodup : names.Nodup)
    (hnames : ∀ e ∈ es, ∃ v ∈ names, ∃ w o, e = .write (some v) w o) :
    s'.free + taken n s' names = s.free + taken n s names := by
  induction h with
  | start => rfl
  | step _ ha ih =>
      obtain ⟨hes, he⟩ := List.forall_mem_append.mp hnames
      obtain ⟨v, hv, w, o, rfl⟩ := List.forall_mem_singleton.mp he
      rw [← ih hes]
      cases ha with
      | write h =>
          have hspace := h.space
          have htaken := taken_change (n := n) hnodup hv fun u hu => h.content_of_ne fun hc =>
            hu (Option.some.inj hc).symm
          omega

/-! ## Runs with writes that were cut -/

/-- How an event may be read: as it is, or, when it is a write under `v` that was cut short, as done. -/
def Event.Reading (v : ν) (e r : Event ν) : Prop :=
  r = e ∨ ∃ w, e = .write (some v) w .cut ∧ r = .write (some v) w .done

/-- Two contents of one length with the same block `b`, or none at all. -/
def SameBlock (n b : Nat) (x y : Option (List UInt8)) : Prop :=
  x.map (fun x => (x.length, chunk n x b)) = y.map (fun y => (y.length, chunk n y b))

theorem SameBlock.some_left {b : Nat} {y : Option (List UInt8)} (h : SameBlock n b (some x) y) :
    ∃ z, y = some z ∧ x.length = z.length ∧ chunk n x b = chunk n z b := by
  obtain ⟨z, rfl, hz⟩ := Option.map_eq_some_iff.mp h.symm
  obtain ⟨hlen, hchunk⟩ := Prod.mk.inj hz
  exact ⟨z, rfl, hlen.symm, hchunk.symm⟩

theorem sameBlock_some {b : Nat} (hlen : x.length = y.length) (h : chunk n x b = chunk n y b) :
    SameBlock n b (some x) (some y) := by
  simp only [SameBlock, Option.map_some, hlen, h]

/-- **One step, block by block.** A write that is cut short has reached the block or not. -/
theorem Step.sameBlock {b : Nat} {y : Option (List UInt8)} (h : Step n s e s')
    (hs : SameBlock n b (s.content v) y) :
    ∃ r, e.Reading v r ∧ SameBlock n b (s'.content v) (r.replay v y) := by
  cases h with
  | clear free => exact ⟨_, Or.inl rfl, rfl⟩
  | @write p w o s' h =>
      by_cases hp : p = some v
      · subst hp
        cases h with
        | empty _ _ => exact ⟨_, Or.inl rfl, by simpa [Event.replay] using hs⟩
        | full _ => exact ⟨_, Or.inl rfl, by simpa [Event.replay] using hs⟩
        | made hp _ _ =>
            rw [get_some] at hp
            rw [hp] at hs
            obtain rfl : y = none := Option.map_eq_none_iff.mp hs.symm
            refine ⟨_, Or.inl rfl, ?_⟩
            show SameBlock n b ((s.put (some v) (w.onto none)).content v) _
            rw [content_put_self, Event.replay, if_pos ⟨rfl, rfl⟩]
            rfl
        | unmade _ _ _ => exact ⟨_, Or.inl rfl, by simpa [Event.replay] using hs⟩
        | replaced hp _ =>
            rw [get_some] at hp
            rw [hp] at hs
            obtain ⟨z, rfl, hlen, hchunk⟩ := hs.some_left
            refine ⟨_, Or.inl rfl, ?_⟩
            rw [content_put_self, Event.replay, if_pos ⟨rfl, rfl⟩]
            exact sameBlock_some (by rw [length_onto_some, length_onto_some, hlen]) (chunk_onto hlen hchunk w)
        | @torn x hp _ j =>
            rw [get_some] at hp
            rw [hp] at hs
            obtain ⟨z, rfl, hlen, hchunk⟩ := hs.some_left
            have hsplice : (splice n j x (w.onto (some x))).length = x.length :=
              length_splice length_onto_some.symm j
            have hblock := chunk_splice (n := n) (length_onto_some (w := w) (x := x)).symm j b
            rw [content_put_self]
            by_cases hb : b < j
            · rw [if_pos hb] at hblock
              refine ⟨.write (some v) w .done, Or.inr ⟨w, rfl, rfl⟩, ?_⟩
              rw [Event.replay, if_pos ⟨rfl, rfl⟩]
              exact sameBlock_some (by rw [hsplice, length_onto_some, hlen])
                (hblock.trans (chunk_onto hlen hchunk w))
            · rw [if_neg hb] at hblock
              refine ⟨_, Or.inl rfl, ?_⟩
              rw [Event.replay, if_neg (by simp)]
              exact sameBlock_some (hsplice.trans hlen) (hblock.trans hchunk)
      · refine ⟨_, Or.inl rfl, ?_⟩
        rw [h.content_of_ne hp, Event.replay, if_neg fun hc => hp hc.1]
        exact hs

/-- **Each block is as if nothing had been cut short**: for each block of a content there is a reading of the
    run, with every write that was cut either done or never made, that leaves the block as it is. -/
theorem block_of_run (h : Run (Step n) s es s') (v : ν) (b : Nat) :
    ∃ rs, List.Forall₂ (Event.Reading v) es rs
      ∧ SameBlock n b (s'.content v) (rs.foldl (Event.replay v) (s.content v)) := by
  induction h with
  | start => exact ⟨[], .nil, rfl⟩
  | step _ ha ih =>
      obtain ⟨rs, hrs, hsame⟩ := ih
      obtain ⟨r, hr, hsame'⟩ := ha.sameBlock hsame
      refine ⟨rs ++ [r], List.rel_append hrs (.cons hr .nil), ?_⟩
      rw [List.foldl_append]
      exact hsame'

end BlockStore
